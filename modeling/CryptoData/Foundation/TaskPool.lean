import Mathlib.Algebra.BigOperators.Fin
import Mathlib.Algebra.BigOperators.Group.Finset.Basic
import Mathlib.Data.Fintype.BigOperators
import Mathlib.Logic.Function.Basic
import Mathlib.Tactic.Abel

/-!
# TaskPool — threads that interleave atomic tasks over shared state

A thread is a stack of pending tasks.  A task runs atomically: it changes the shared state and may
leave follow-up tasks on its own thread.  Threads interleave at task boundaries, in any order, and
an idle thread may begin a new call, which is a list of tasks.

Two rules cover whole runs:

* `Reachable.invariant` — what every task preserves, holds in every reachable state;
* `Reachable.balance` — if every task moves a quantity between the shared state and what its
  thread still holds, the books balance in every reachable state.

`work_alone` describes a stretch in which only one thread has work.
-/

namespace Foundation

variable {σ τ ι M : Type*}

/-- A shared state and the pending tasks of each thread, next task first. -/
structure Pool (σ τ ι : Type*) where
  shared : σ
  tasks : ι → List τ

namespace Pool

/-- Every thread is idle. -/
def Idle (p : Pool σ τ ι) : Prop :=
  ∀ i, p.tasks i = []

/-! ## What threads hold -/

section Held

variable [AddCommMonoid M]

/-- What a list of tasks holds. -/
def weightOf (weight : τ → M) (ts : List τ) : M :=
  (ts.map weight).sum

lemma weightOf_append (weight : τ → M) (ts us : List τ) :
    weightOf weight (ts ++ us) = weightOf weight ts + weightOf weight us := by
  simp [weightOf]

lemma weightOf_eq_zero {weight : τ → M} {ts : List τ} (h : ∀ t ∈ ts, weight t = 0) :
    weightOf weight ts = 0 := by
  refine List.sum_eq_zero ?_
  intro x hx
  rcases List.mem_map.1 hx with ⟨t, ht, rfl⟩
  exact h t ht

/-- What all threads hold. -/
def held [Fintype ι] (weight : τ → M) (p : Pool σ τ ι) : M :=
  ∑ i, weightOf weight (p.tasks i)

lemma held_of_idle [Fintype ι] (weight : τ → M) {p : Pool σ τ ι} (h : p.Idle) :
    held weight p = 0 := by
  refine Finset.sum_eq_zero fun i _ => ?_
  rw [h i]
  rfl

end Held

/-! ## Runs -/

variable [DecidableEq ι] {exec : τ → σ → σ → List τ → Prop} {calls : List τ → Prop}

/-- The pool after thread `i` left the shared state `s` and the tasks `ts`. -/
def assign (p : Pool σ τ ι) (i : ι) (s : σ) (ts : List τ) : Pool σ τ ι where
  shared := s
  tasks := Function.update p.tasks i ts

@[simp] theorem assign_tasks_self (p : Pool σ τ ι) (i : ι) (s : σ) (ts : List τ) :
    (p.assign i s ts).tasks i = ts := by
  simp [assign]

theorem assign_tasks_of_ne (p : Pool σ τ ι) {i j : ι} (h : j ≠ i) (s : σ) (ts : List τ) :
    (p.assign i s ts).tasks j = p.tasks j := by
  simp [assign, h]

/-- One thread runs its next task; `exec t s s' spawned` says what a task may do. -/
inductive Work (exec : τ → σ → σ → List τ → Prop) : Pool σ τ ι → Pool σ τ ι → Prop
  | run (p : Pool σ τ ι) (i : ι) (t : τ) (rest : List τ) (s' : σ) (spawned : List τ)
      (next : p.tasks i = t :: rest) (does : exec t p.shared s' spawned) :
      Work exec p (p.assign i s' (spawned ++ rest))

/-- The states of all runs that start with idle threads. -/
inductive Reachable (exec : τ → σ → σ → List τ → Prop) (calls : List τ → Prop) (s₀ : σ) :
    Pool σ τ ι → Prop
  | start : Reachable exec calls s₀ ⟨s₀, fun _ => []⟩
  | begin {p : Pool σ τ ι} (i : ι) (ts : List τ) : Reachable exec calls s₀ p → p.tasks i = [] →
      calls ts → Reachable exec calls s₀ (p.assign i p.shared ts)
  | work {p q : Pool σ τ ι} : Reachable exec calls s₀ p → Work exec p q →
      Reachable exec calls s₀ q

/-! ## Invariants -/

/-- A property of the shared state and one of pending tasks, kept by every task together. -/
theorem Reachable.invariant {s₀ : σ} (P : σ → Prop) (Q : τ → Prop) (start : P s₀)
    (begin : ∀ ts, calls ts → ∀ t ∈ ts, Q t)
    (step : ∀ t s s' spawned, P s → Q t → exec t s s' spawned → P s' ∧ ∀ u ∈ spawned, Q u)
    {p : Pool σ τ ι} (h : Reachable exec calls s₀ p) :
    P p.shared ∧ ∀ i, ∀ t ∈ p.tasks i, Q t := by
  induction h with
  | start =>
      refine ⟨start, ?_⟩
      intro i t ht
      cases ht
  | @begin p i ts _ _ hcalls ih =>
      refine ⟨ih.1, ?_⟩
      intro j t ht
      by_cases hj : j = i
      · subst hj
        rw [assign_tasks_self] at ht
        exact begin ts hcalls t ht
      · rw [assign_tasks_of_ne _ hj] at ht
        exact ih.2 j t ht
  | work _ hwork ih =>
      cases hwork with
      | run i t rest s' spawned hnext hdoes =>
          -- The running task and those behind it were pending on the same thread.
          have htask : ∀ u ∈ t :: rest, Q u := by
            rw [← hnext]
            exact ih.2 i
          rcases step t _ s' spawned ih.1 (htask t List.mem_cons_self) hdoes with
            ⟨hshared, hspawned⟩
          refine ⟨hshared, ?_⟩
          intro j u hu
          by_cases hj : j = i
          · subst hj
            rw [assign_tasks_self] at hu
            rcases List.mem_append.1 hu with hnew | hold
            · exact hspawned u hnew
            · exact htask u (List.mem_cons_of_mem t hold)
          · rw [assign_tasks_of_ne _ hj] at hu
            exact ih.2 j u hu

/-! ## Balances -/

section Balance

variable [Fintype ι] [AddCancelCommMonoid M]

/-- Replacing the tasks of one thread exchanges its share. -/
theorem held_assign (weight : τ → M) (p : Pool σ τ ι) (i : ι) (s : σ) (ts : List τ) :
    held weight (p.assign i s ts) + weightOf weight (p.tasks i) =
      weightOf weight ts + held weight p := by
  have hcomp : (fun j => weightOf weight ((p.assign i s ts).tasks j)) =
      Function.update (fun j => weightOf weight (p.tasks j)) i (weightOf weight ts) := by
    funext j
    exact Function.apply_update (fun _ => weightOf weight) p.tasks i ts j
  have hsplit : held weight p =
      weightOf weight (p.tasks i) + ∑ j ∈ Finset.univ \ {i}, weightOf weight (p.tasks j) := by
    have hself := Finset.sum_update_of_mem (Finset.mem_univ i)
      (fun j => weightOf weight (p.tasks j)) (weightOf weight (p.tasks i))
    rw [Function.update_eq_self] at hself
    exact hself
  rw [held, hcomp, Finset.sum_update_of_mem (Finset.mem_univ i), hsplit]
  abel

/-- `total` counts what came in and `kept` what the shared state holds; if every task keeps the
difference in what its thread holds, the threads account for the rest in every reachable state. -/
theorem Reachable.balance {s₀ : σ} (total kept : σ → M) (weight : τ → M)
    (start : total s₀ = kept s₀) (begin : ∀ ts, calls ts → ∀ t ∈ ts, weight t = 0)
    (step : ∀ t s s' spawned, exec t s s' spawned →
      total s' + (kept s + weight t) = total s + (kept s' + weightOf weight spawned))
    {p : Pool σ τ ι} (h : Reachable exec calls s₀ p) :
    total p.shared = kept p.shared + held weight p := by
  -- Induction on the run: a call brings weightless tasks, a task moves what `step` says.
  induction h with
  | start => simp [held, weightOf, start]
  | @begin p i ts _ hidle hcalls ih =>
      have hheld := held_assign weight p i p.shared ts
      rw [hidle, weightOf_eq_zero (begin ts hcalls)] at hheld
      have hsame : held weight (p.assign i p.shared ts) = held weight p := by
        simpa [weightOf] using hheld
      rw [hsame]
      exact ih
  | work _ hwork ih =>
      cases hwork with
      | run i t rest s' spawned hnext hdoes =>
          rename_i p _
          have hheld := held_assign weight p i s' (spawned ++ rest)
          have hcons : weightOf weight (t :: rest) = weight t + weightOf weight rest := by
            simp [weightOf]
          rw [hnext, weightOf_append, hcons] at hheld
          -- Both books move by what the task moved; cancel everything else.
          apply add_right_cancel (b := kept p.shared + weight t + weightOf weight rest)
          calc
            total s' + (kept p.shared + weight t + weightOf weight rest)
                = (total s' + (kept p.shared + weight t)) + weightOf weight rest := by abel
            _ = (total p.shared + (kept s' + weightOf weight spawned)) +
                  weightOf weight rest := by rw [step t _ s' spawned hdoes]
            _ = kept s' + kept p.shared +
                  ((weightOf weight spawned + weightOf weight rest) + held weight p) := by
                rw [ih]
                abel
            _ = kept s' + kept p.shared + (held weight (p.assign i s' (spawned ++ rest)) +
                  (weight t + weightOf weight rest)) := by rw [hheld]
            _ = kept s' + held weight (p.assign i s' (spawned ++ rest)) +
                  (kept p.shared + weight t + weightOf weight rest) := by abel

end Balance

/-! ## One thread at work -/

/-- Only thread `i` has work. -/
def Alone (i : ι) (p : Pool σ τ ι) : Prop :=
  ∀ j, j ≠ i → p.tasks j = []

/-- A step of a pool in which only `i` has work is a step of `i`. -/
theorem work_alone {i : ι} {p q : Pool σ τ ι} (halone : Alone i p) (h : Work exec p q) :
    Alone i q ∧ ∃ t rest spawned, p.tasks i = t :: rest ∧ exec t p.shared q.shared spawned ∧
      q.tasks i = spawned ++ rest := by
  cases h with
  | run j t rest s' spawned hnext hdoes =>
      have hji : j = i := by
        by_contra hne
        rw [halone j hne] at hnext
        cases hnext
      subst hji
      refine ⟨?_, t, rest, spawned, hnext, hdoes, by simp⟩
      intro k hk
      rw [assign_tasks_of_ne _ hk]
      exact halone k hk

end Pool
end Foundation
