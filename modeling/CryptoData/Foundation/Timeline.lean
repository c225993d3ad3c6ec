import Mathlib.Data.List.Range
import Mathlib.Order.Lattice

/-!
# Timeline — what is seen at an instant

A timeline is a start state and a list of frames in time order.  A frame is what is seen from its
instant on, up to the instant of the next one.

Frames that lie after an instant do not matter for it (`seenAt_append_of_lt`), and frames that lie
before it matter through the state they end in (`seenAt_append_of_le`).
-/

namespace Foundation

variable {τ σ : Type*}

structure Frame (τ σ : Type*) where
  since : τ
  state : σ

/-- What is seen in the end. -/
def endState : σ → List (Frame τ σ) → σ
  | start, [] => start
  | _, f :: frames => endState f.state frames

section Seen

variable [LinearOrder τ]

/-- What is seen at the instant `t`. -/
def seenAt : σ → List (Frame τ σ) → τ → σ
  | start, [], _ => start
  | start, f :: frames, t => if f.since ≤ t then seenAt f.state frames t else start

theorem seenAt_of_lt (start : σ) {frames : List (Frame τ σ)} {t : τ}
    (h : ∀ f ∈ frames, t < f.since) : seenAt start frames t = start := by
  cases frames with
  | nil => rfl
  | cons f frames =>
      have hlater : ¬ f.since ≤ t := not_le.2 (h f List.mem_cons_self)
      simp only [seenAt, hlater, if_false]

theorem seenAt_append_of_lt {later : List (Frame τ σ)} {t : τ} (h : ∀ f ∈ later, t < f.since) :
    ∀ (frames : List (Frame τ σ)) (start : σ),
      seenAt start (frames ++ later) t = seenAt start frames t
  | [], start => seenAt_of_lt start h
  | f :: frames, start => by
      by_cases hseen : f.since ≤ t
      · simp only [List.cons_append, seenAt, hseen, if_true]
        exact seenAt_append_of_lt h frames f.state
      · simp only [List.cons_append, seenAt, hseen, if_false]

theorem seenAt_append_of_le (later : List (Frame τ σ)) {t : τ} :
    ∀ (frames : List (Frame τ σ)) (start : σ), (∀ f ∈ frames, f.since ≤ t) →
      seenAt start (frames ++ later) t = seenAt (endState start frames) later t
  | [], _, _ => rfl
  | f :: frames, start, h => by
      have hseen : f.since ≤ t := h f List.mem_cons_self
      simp only [List.cons_append, seenAt, hseen, if_true, endState]
      exact seenAt_append_of_le later frames f.state fun g hg => h g (List.mem_cons_of_mem f hg)

end Seen

/-! ## A procedure of numbered states -/

/-- The frames of a procedure that passes through `state i`, …, `state (i + n)`, and leaves
`state k` at the instant `leaves k`. -/
def passage (leaves : ℕ → τ) (state : ℕ → σ) (i n : ℕ) : List (Frame τ σ) :=
  (List.range' i n).map fun k => ⟨leaves k, state (k + 1)⟩

section Passage

variable (leaves : ℕ → τ) (state : ℕ → σ)

lemma passage_succ (i n : ℕ) :
    passage leaves state i (n + 1) =
      ⟨leaves i, state (i + 1)⟩ :: passage leaves state (i + 1) n := by
  simp [passage, List.range'_succ]

theorem endState_passage :
    ∀ n i, endState (state i) (passage leaves state i n) = state (i + n)
  | 0, _ => rfl
  | n + 1, i => by
      rw [passage_succ, endState, endState_passage n (i + 1), Nat.add_right_comm, Nat.add_assoc]

/-- At every instant one of the states is seen: the first one that has not been left. -/
theorem seenAt_passage [LinearOrder τ] (t : τ) :
    ∀ n i, ∃ k, i ≤ k ∧ k ≤ i + n ∧
      seenAt (state i) (passage leaves state i n) t = state k ∧
      (∀ j, i ≤ j → j < k → leaves j ≤ t) ∧ (k < i + n → t < leaves k)
  | 0, i => ⟨i, le_refl i, le_refl i, rfl, by omega, by omega⟩
  | n + 1, i => by
      by_cases hleft : leaves i ≤ t
      · rcases seenAt_passage t n (i + 1) with ⟨k, hik, hkn, hseen, hbefore, hafter⟩
        refine ⟨k, by omega, by omega, ?_, ?_, fun hk => hafter (by omega)⟩
        · rw [passage_succ]
          simp only [seenAt, hleft, if_true]
          exact hseen
        · intro j hij hjk
          rcases Nat.eq_or_lt_of_le hij with rfl | hlt
          · exact hleft
          · exact hbefore j hlt hjk
      · refine ⟨i, le_refl i, by omega, ?_, by omega, fun _ => not_le.1 hleft⟩
        rw [passage_succ]
        simp only [seenAt, hleft, if_false]

end Passage

end Foundation
