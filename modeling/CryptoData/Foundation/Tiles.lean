import Mathlib.Algebra.Order.Group.Int
import Mathlib.Data.Int.Order.Lemmas
import Mathlib.Data.List.Count

/-!
# Tiles — a range cut into pieces of one length

`tiles step rounds lo hi` are the pieces of `lo .. hi` from the lower end on, the last one shorter
where the length does not fit.  Without their upper ends they cover the range once
(`countP_tiles_halfOpen`), and without their lower ones as well (`countP_tiles_leftOpen`); they
start at the multiples of their length (`countP_tiles_start`).
-/

namespace Foundation

/-- The pieces, for at most as many as given. -/
def tiles (step : Int) : ℕ → Int → Int → List (Int × Int)
  | 0, _, _ => []
  | rounds + 1, lo, hi =>
      if lo < hi then (lo, min (lo + step) hi) :: tiles step rounds (min (lo + step) hi) hi else []

variable {step : Int} {rounds : ℕ} {lo hi : Int}

/-- A range that is empty has no pieces. -/
lemma tiles_of_le (h : hi ≤ lo) : tiles step rounds lo hi = [] := by
  cases rounds with
  | zero => rfl
  | succ rounds => exact if_neg (not_lt.2 h)

lemma rounds_left (hstep : 0 < step) (hlt : lo < hi) (hrounds : (hi - lo).toNat ≤ rounds + 1) :
    (hi - min (lo + step) hi).toNat ≤ rounds := by
  rcases le_total (lo + step) hi with hle | hle
  · rw [min_eq_left hle]
    omega
  · rw [min_eq_right hle, sub_self]
    exact Nat.zero_le _

theorem countP_tiles_halfOpen (hstep : 0 < step) (t : Int) :
    ∀ {rounds : ℕ} {lo : Int}, (hi - lo).toNat ≤ rounds →
      (tiles step rounds lo hi).countP (fun w => decide (w.1 ≤ t) && decide (t < w.2)) =
        if lo ≤ t ∧ t < hi then 1 else 0
  | 0, lo, hrounds => by
      have hempty : ¬ (lo ≤ t ∧ t < hi) := by omega
      rw [if_neg hempty]
      rfl
  | rounds + 1, lo, hrounds => by
      by_cases hlt : lo < hi
      · have ih := countP_tiles_halfOpen hstep t (rounds_left hstep hlt hrounds)
        rw [tiles, if_pos hlt, List.countP_cons, ih]
        rcases le_total (lo + step) hi with hle | hle
        · rw [min_eq_left hle]
          simp only [Bool.and_eq_true, decide_eq_true_eq]
          split_ifs <;> omega
        · rw [min_eq_right hle]
          simp only [Bool.and_eq_true, decide_eq_true_eq]
          split_ifs <;> omega
      · have hempty : ¬ (lo ≤ t ∧ t < hi) := by omega
        rw [tiles_of_le (not_lt.1 hlt), if_neg hempty]
        rfl

/-- With their upper ends instead of their lower ones the pieces cover the range once, too. -/
theorem countP_tiles_leftOpen (hstep : 0 < step) (t : Int) :
    ∀ {rounds : ℕ} {lo : Int}, (hi - lo).toNat ≤ rounds →
      (tiles step rounds lo hi).countP (fun w => decide (w.1 < t) && decide (t ≤ w.2)) =
        if lo < t ∧ t ≤ hi then 1 else 0
  | 0, lo, hrounds => by
      have hempty : ¬ (lo < t ∧ t ≤ hi) := by omega
      rw [if_neg hempty]
      rfl
  | rounds + 1, lo, hrounds => by
      by_cases hlt : lo < hi
      · have ih := countP_tiles_leftOpen hstep t (rounds_left hstep hlt hrounds)
        rw [tiles, if_pos hlt, List.countP_cons, ih]
        rcases le_total (lo + step) hi with hle | hle
        · rw [min_eq_left hle]
          simp only [Bool.and_eq_true, decide_eq_true_eq]
          split_ifs <;> omega
        · rw [min_eq_right hle]
          simp only [Bool.and_eq_true, decide_eq_true_eq]
          split_ifs <;> omega
      · have hempty : ¬ (lo < t ∧ t ≤ hi) := by omega
        rw [tiles_of_le (not_lt.1 hlt), if_neg hempty]
        rfl

/-- Behind the first piece its pieces start where those of the rest do. -/
lemma start_behind_iff {lo t : Int} (hstep : 0 < step) (hfirst : lo ≠ t) (hi : Int) (q : Prop) :
    (lo ≤ t ∧ t < hi ∧ step ∣ t - lo ∧ q) ↔
      min (lo + step) hi ≤ t ∧ t < hi ∧ step ∣ t - min (lo + step) hi ∧ q := by
  rcases le_total (lo + step) hi with hle | hle
  · have hshift : step ∣ t - (lo + step) ↔ step ∣ t - lo := by
      have hsub : t - (lo + step) = t - lo - step := by omega
      rw [hsub]
      exact dvd_sub_self_right
    rw [min_eq_left hle, hshift]
    constructor
    · rintro ⟨hlo, hhi, hdvd, hq⟩
      have hstep' := Int.le_of_dvd (by omega) hdvd
      exact ⟨by omega, hhi, hdvd, hq⟩
    · rintro ⟨hlo, hrest⟩
      exact ⟨by omega, hrest⟩
  · rw [min_eq_right hle]
    constructor
    · rintro ⟨hlo, hhi, hdvd, _⟩
      have hstep' := Int.le_of_dvd (by omega) hdvd
      omega
    · rintro ⟨hlo, hhi, _⟩
      omega

/-- A piece starts at every multiple of the length before the end, and nowhere else. -/
theorem countP_tiles_start (hstep : 0 < step) (t : Int) (q : Int × Int → Bool) :
    ∀ {rounds : ℕ} {lo : Int}, (hi - lo).toNat ≤ rounds →
      (tiles step rounds lo hi).countP (fun w => decide (w.1 = t) && q w) =
        if lo ≤ t ∧ t < hi ∧ step ∣ t - lo ∧ q (t, min (t + step) hi) = true then 1 else 0
  | 0, lo, hrounds => by
      have hempty : ¬ (lo ≤ t ∧ t < hi ∧ step ∣ t - lo ∧ q (t, min (t + step) hi) = true) := by
        rintro ⟨hlo, hhi, _⟩
        omega
      rw [if_neg hempty]
      rfl
  | rounds + 1, lo, hrounds => by
      by_cases hlt : lo < hi
      · have ih := countP_tiles_start hstep t q (rounds_left hstep hlt hrounds)
        rw [tiles, if_pos hlt, List.countP_cons, ih]
        by_cases hfirst : lo = t
        · -- The next piece starts behind `t`.
          subst hfirst
          have hnext : ¬ min (lo + step) hi ≤ lo := by
            rw [min_le_iff]
            omega
          simp [hnext, hlt]
        · have hiff := start_behind_iff hstep hfirst hi (q (t, min (t + step) hi) = true)
          simp only [hfirst, hiff, decide_false, Bool.false_and, Bool.false_eq_true, if_false,
            Nat.add_zero]
      · have hempty : ¬ (lo ≤ t ∧ t < hi ∧ step ∣ t - lo ∧ q (t, min (t + step) hi) = true) := by
          rintro ⟨hlo, hhi, _⟩
          omega
        rw [tiles_of_le (not_lt.1 hlt), if_neg hempty]
        rfl

/-- The bounds of the pieces are in the range and, with both ends of it, multiples of a divisor of
their length. -/
lemma mem_tiles {d : Int} (hstep : 0 < step) (hdvd : d ∣ step) (hhi : d ∣ hi) :
    ∀ {rounds : ℕ} {lo : Int}, d ∣ lo → ∀ w ∈ tiles step rounds lo hi,
      lo ≤ w.1 ∧ w.1 < w.2 ∧ w.2 ≤ hi ∧ w.2 ≤ w.1 + step ∧ d ∣ w.1 ∧ d ∣ w.2
  | 0, _, _, w, hw => by cases hw
  | rounds + 1, lo, hlo, w, hw => by
      by_cases hlt : lo < hi
      · rw [tiles, if_pos hlt] at hw
        have hnext : lo < min (lo + step) hi := lt_min (by omega) hlt
        have hnext' : d ∣ min (lo + step) hi := by
          rcases min_choice (lo + step) hi with heq | heq
          · rw [heq]
            exact dvd_add hlo hdvd
          · rw [heq]
            exact hhi
        rcases List.mem_cons.1 hw with rfl | hrest
        · exact ⟨le_refl _, hnext, min_le_right _ _, min_le_left _ _, hlo, hnext'⟩
        · have ih := mem_tiles hstep hdvd hhi hnext' w hrest
          exact ⟨le_trans hnext.le ih.1, ih.2⟩
      · rw [tiles_of_le (not_lt.1 hlt)] at hw
        cases hw

end Foundation
