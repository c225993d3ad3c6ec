import Mathlib.Data.List.Basic
import Mathlib.Order.Bounds.Basic

/-!
# Runs — stretches of equal elements

A run of a list is a block of consecutive elements that are equal.  If the elements are numbered so
that the number goes up wherever an element differs from the one before it (`runNumbers`), every
number stands over one run, and a run has one number: the greatest count of a number is the length
of the longest run (`isGreatest_runLengths`).
-/

namespace Foundation

variable {α : Type*}

/-- A block of consecutive elements that are equal. -/
structure IsRun (block xs : List α) : Prop where
  consecutive : block <:+: xs
  equal : ∀ a ∈ block, ∀ b ∈ block, a = b

/-- The lengths of the runs. -/
def runLengths (xs : List α) : Set ℕ :=
  {n | ∃ block, IsRun block xs ∧ block.length = n}

/-- The block is empty or one element, repeated. -/
lemma IsRun.eq_replicate {block xs : List α} (h : IsRun block xs) {a : α} (ha : a ∈ block) :
    block = List.replicate block.length a :=
  List.eq_replicate_of_mem fun b hb => h.equal b hb a ha

lemma isRun_replicate {n : ℕ} {a : α} {xs : List α} (h : List.replicate n a <:+: xs) :
    IsRun (List.replicate n a) xs where
  consecutive := h
  equal := by
    intro b hb c hc
    rw [List.eq_of_mem_replicate hb, List.eq_of_mem_replicate hc]

variable [DecidableEq α]

/-- A number for each element, from `n` on: one more wherever an element differs from the one before
it. -/
def runNumbers : ℕ → List α → List ℕ
  | _, [] => []
  | n, [_] => [n]
  | n, a :: b :: xs => n :: runNumbers (if b ≠ a then n + 1 else n) (b :: xs)

/-- The numbers do not fall. -/
lemma le_of_mem_runNumbers {k : ℕ} :
    ∀ {n : ℕ} {xs : List α}, k ∈ runNumbers n xs → n ≤ k
  | _, [], h => absurd h List.not_mem_nil
  | _, [_], h => (List.mem_singleton.1 h).ge
  | n, a :: b :: xs, h => by
      rcases List.mem_cons.1 h with rfl | hrest
      · exact le_rfl
      · refine le_trans ?_ (le_of_mem_runNumbers hrest)
        by_cases hb : b ≠ a
        · rw [if_pos hb]
          exact Nat.le_succ n
        · rw [if_neg hb]

lemma count_runNumbers_cons (n k : ℕ) (a b : α) (xs : List α) :
    (runNumbers n (a :: b :: xs)).count k =
      (runNumbers (if b ≠ a then n + 1 else n) (b :: xs)).count k + if n = k then 1 else 0 := by
  rw [runNumbers, List.count_cons]
  simp only [beq_iff_eq]

/-- The first number stands over a run at the front. -/
lemma replicate_count_isPrefix (n : ℕ) :
    ∀ (a : α) (xs : List α), List.replicate ((runNumbers n (a :: xs)).count n) a <+: a :: xs
  | a, [] => by
      rw [runNumbers, List.count_singleton_self]
      exact List.prefix_rfl
  | a, b :: xs => by
      rw [count_runNumbers_cons, if_pos rfl, List.replicate_succ, List.cons_prefix_cons]
      refine ⟨rfl, ?_⟩
      by_cases hb : b ≠ a
      · -- The run ends here, and its number does not come again.
        have hgone : n ∉ runNumbers (n + 1) (b :: xs) :=
          fun h => Nat.not_succ_le_self n (le_of_mem_runNumbers h)
        rw [if_pos hb, List.count_eq_zero.2 hgone]
        exact List.nil_prefix
      · rw [if_neg hb]
        rw [not_not] at hb
        subst hb
        exact replicate_count_isPrefix n b xs

/-- Every number stands over a run. -/
lemma exists_run_of_number (k : ℕ) :
    ∀ (n : ℕ) (xs : List α), ∃ block, IsRun block xs ∧ block.length = (runNumbers n xs).count k
  | _, [] => ⟨[], ⟨List.infix_rfl, fun _ h => absurd h List.not_mem_nil⟩, rfl⟩
  | n, [a] => by
      by_cases hk : n = k
      · subst hk
        exact ⟨_, isRun_replicate (replicate_count_isPrefix n a []).isInfix, List.length_replicate⟩
      · refine ⟨[], ⟨List.nil_infix, fun _ h => absurd h List.not_mem_nil⟩, ?_⟩
        exact (List.count_eq_zero.2 fun h => hk (List.mem_singleton.1 h).symm).symm
  | n, a :: b :: xs => by
      by_cases hk : n = k
      · subst hk
        exact ⟨_, isRun_replicate (replicate_count_isPrefix n a (b :: xs)).isInfix,
          List.length_replicate⟩
      · rcases exists_run_of_number k (if b ≠ a then n + 1 else n) (b :: xs) with
          ⟨block, hrun, hlength⟩
        refine ⟨block, ⟨List.infix_cons hrun.consecutive, hrun.equal⟩, ?_⟩
        rw [count_runNumbers_cons, if_neg hk]
        exact hlength

/-- A run at the front has the first number. -/
lemma le_count_of_isPrefix (n : ℕ) (a : α) :
    ∀ (m : ℕ) (xs : List α), List.replicate m a <+: xs → m ≤ (runNumbers n xs).count n
  | 0, _, _ => Nat.zero_le _
  | m + 1, [], h => absurd (List.prefix_nil.1 h) (List.cons_ne_nil _ _)
  | 1, [b], _ => by
      rw [runNumbers, List.count_singleton_self]
  | m + 2, [b], h => absurd h.length_le (by simp)
  | m + 1, b :: c :: xs, h => by
      rw [List.replicate_succ, List.cons_prefix_cons] at h
      rcases h with ⟨rfl, hrest⟩
      rw [count_runNumbers_cons, if_pos rfl]
      refine Nat.succ_le_succ ?_
      cases m with
      | zero => exact Nat.zero_le _
      | succ m =>
          -- The run goes on with the next element, which then has the same number.
          have hc : a = c := (List.cons_prefix_cons.1 hrest).1
          rw [if_neg (not_not.2 hc.symm)]
          exact le_count_of_isPrefix n a (m + 1) (c :: xs) hrest

/-- Every run has a number. -/
lemma exists_number_of_run {block : List α} :
    ∀ (n : ℕ) {xs : List α}, IsRun block xs → ∃ k, block.length ≤ (runNumbers n xs).count k
  | n, [], h => by
      rw [List.infix_nil.1 h.consecutive]
      exact ⟨n, Nat.zero_le _⟩
  | n, a :: xs, h => by
      rcases List.infix_cons_iff.1 h.consecutive with hprefix | hrest
      · cases block with
        | nil => exact ⟨n, Nat.zero_le _⟩
        | cons c cs =>
            refine ⟨n, le_count_of_isPrefix n c _ _ ?_⟩
            rw [← h.eq_replicate List.mem_cons_self]
            exact hprefix
      · cases xs with
        | nil =>
            rw [List.infix_nil.1 hrest]
            exact ⟨n, Nat.zero_le _⟩
        | cons b xs =>
            rcases exists_number_of_run (if b ≠ a then n + 1 else n) ⟨hrest, h.equal⟩ with ⟨k, hk⟩
            refine ⟨k, hk.trans ?_⟩
            rw [count_runNumbers_cons]
            exact Nat.le_add_right _ _

/-- The greatest count of a number is the length of the longest run. -/
theorem isGreatest_runLengths {n m : ℕ} {xs : List α}
    (h : IsGreatest (Set.range fun k => (runNumbers n xs).count k) m) :
    IsGreatest (runLengths xs) m := by
  constructor
  · rcases h.1 with ⟨k, hk⟩
    rcases exists_run_of_number k n xs with ⟨block, hrun, hlength⟩
    exact ⟨block, hrun, hlength.trans hk⟩
  · intro l hl
    rcases hl with ⟨block, hrun, rfl⟩
    rcases exists_number_of_run n hrun with ⟨k, hk⟩
    exact hk.trans (h.2 ⟨k, rfl⟩)

end Foundation
