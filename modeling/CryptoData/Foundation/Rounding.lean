import Mathlib.Algebra.Order.Floor.Ring
import Mathlib.Algebra.Ring.Parity
import Mathlib.Data.Rat.Floor
import Mathlib.Tactic.Linarith
import Mathlib.Tactic.NormNum

/-!
# Rounding — rounding to the nearest, ties to even

`roundHalfEven` rounds a rational to the nearest integer, and a number halfway between two integers
to the even one.  So an even integer is what all numbers up to one half away from it are rounded to,
both ends included (`roundHalfEven_eq_iff`).  `roundTo` rounds to a number of decimals.
-/

namespace Foundation

/-- The nearest integer; of two, the even one. -/
def roundHalfEven (x : ℚ) : Int :=
  if x - ⌊x⌋ < 1 / 2 then
    ⌊x⌋
  else if 1 / 2 < x - ⌊x⌋ then
    ⌊x⌋ + 1
  else if ⌊x⌋ % 2 = 0 then
    ⌊x⌋
  else
    ⌊x⌋ + 1

/-- `round(x, digits)`. -/
def roundTo (digits : ℕ) (x : ℚ) : ℚ :=
  roundHalfEven (x * 10 ^ digits) / 10 ^ digits

@[simp] lemma roundHalfEven_intCast (n : Int) : roundHalfEven n = n := by
  simp [roundHalfEven]

/-- A rounded number is not rounded any further. -/
theorem roundTo_roundTo (digits : ℕ) (x : ℚ) :
    roundTo digits (roundTo digits x) = roundTo digits x := by
  have hpow : (10 : ℚ) ^ digits ≠ 0 := pow_ne_zero _ (by norm_num)
  simp only [roundTo, div_mul_cancel₀ _ hpow, roundHalfEven_intCast]

/-- Rounding moves a number by one half at most. -/
theorem roundHalfEven_bounds (x : ℚ) :
    (roundHalfEven x : ℚ) - 1 / 2 ≤ x ∧ x ≤ roundHalfEven x + 1 / 2 := by
  have hfloor := Int.floor_le x
  have hlt := Int.lt_floor_add_one x
  unfold roundHalfEven
  by_cases hlow : x - ⌊x⌋ < 1 / 2
  · rw [if_pos hlow]
    constructor <;> linarith
  · rw [if_neg hlow]
    by_cases hhigh : 1 / 2 < x - ⌊x⌋
    · rw [if_pos hhigh]
      push_cast
      constructor <;> linarith
    · rw [if_neg hhigh]
      have htie : x - ⌊x⌋ = 1 / 2 := le_antisymm (not_lt.1 hhigh) (not_lt.1 hlow)
      by_cases heven : ⌊x⌋ % 2 = 0
      · rw [if_pos heven]
        constructor <;> linarith
      · rw [if_neg heven]
        push_cast
        constructor <;> linarith

/-- What is at least an integer is rounded to at least that integer. -/
lemma le_roundHalfEven {n : Int} {x : ℚ} (h : (n : ℚ) ≤ x) : n ≤ roundHalfEven x := by
  have hbounds := roundHalfEven_bounds x
  have hlt : (n : ℚ) < ((roundHalfEven x + 1 : Int) : ℚ) := by
    push_cast
    linarith
  exact Int.lt_add_one_iff.1 (Int.cast_lt.1 hlt)

lemma roundHalfEven_le {n : Int} {x : ℚ} (h : x ≤ n) : roundHalfEven x ≤ n := by
  have hbounds := roundHalfEven_bounds x
  have hlt : (roundHalfEven x : ℚ) < ((n + 1 : Int) : ℚ) := by
    push_cast
    linarith
  exact Int.lt_add_one_iff.1 (Int.cast_lt.1 hlt)

/-- A number between two integers is rounded to one between them. -/
lemma roundTo_mem_Icc (digits : ℕ) {a b : Int} {x : ℚ} (hlow : (a : ℚ) ≤ x) (hhigh : x ≤ b) :
    (a : ℚ) ≤ roundTo digits x ∧ roundTo digits x ≤ b := by
  have hpow : (0 : ℚ) < 10 ^ digits := pow_pos (by norm_num) _
  have hcast : ∀ n : Int, (n : ℚ) * 10 ^ digits = ((n * 10 ^ digits : Int) : ℚ) := by
    intro n
    push_cast
    rfl
  have hlow' := mul_le_mul_of_nonneg_right hlow hpow.le
  have hhigh' := mul_le_mul_of_nonneg_right hhigh hpow.le
  rw [hcast] at hlow' hhigh'
  unfold roundTo
  constructor
  · rw [le_div_iff₀ hpow, hcast]
    exact Int.cast_le.2 (le_roundHalfEven hlow')
  · rw [div_le_iff₀ hpow, hcast]
    exact Int.cast_le.2 (roundHalfEven_le hhigh')

/-- Rounding moves a number by half a unit of the last digit at most. -/
lemma roundTo_bounds (digits : ℕ) (x : ℚ) :
    roundTo digits x - 1 / 2 / 10 ^ digits ≤ x ∧ x ≤ roundTo digits x + 1 / 2 / 10 ^ digits := by
  have hpow : (0 : ℚ) < 10 ^ digits := pow_pos (by norm_num) _
  have hbounds := roundHalfEven_bounds (x * 10 ^ digits)
  unfold roundTo
  constructor
  · rw [← sub_div, div_le_iff₀ hpow]
    exact hbounds.1
  · rw [← add_div, le_div_iff₀ hpow]
    exact hbounds.2

/-- An even integer wins its ties: it is the rounding of everything up to one half away. -/
theorem roundHalfEven_eq_iff {n : Int} (heven : Even n) {x : ℚ} :
    roundHalfEven x = n ↔ (n : ℚ) - 1 / 2 ≤ x ∧ x ≤ n + 1 / 2 := by
  constructor
  · rintro rfl
    exact roundHalfEven_bounds x
  · rintro ⟨hlow, hhigh⟩
    have hmod := Int.even_iff.1 heven
    have hfloor := Int.floor_le x
    have hlt := Int.lt_floor_add_one x
    -- The floor is `n` or the odd number before it.
    have hcases : ⌊x⌋ = n ∨ ⌊x⌋ = n - 1 := by
      have hup : ((⌊x⌋ : Int) : ℚ) < ((n + 1 : Int) : ℚ) := by
        push_cast
        linarith
      have hdown : ((n - 2 : Int) : ℚ) < ((⌊x⌋ : Int) : ℚ) := by
        push_cast
        linarith
      have hup' := Int.cast_lt.1 hup
      have hdown' := Int.cast_lt.1 hdown
      omega
    rcases hcases with hn | hn
    · have hle : ¬ 1 / 2 < x - ⌊x⌋ := by
        rw [hn]
        linarith
      have hmod' : ⌊x⌋ % 2 = 0 := by
        rw [hn]
        exact hmod
      unfold roundHalfEven
      rw [if_neg hle, if_pos hmod', ite_self]
      exact hn
    · have hcast : ((⌊x⌋ : Int) : ℚ) = n - 1 := by
        rw [hn]
        push_cast
        rfl
      have hge : ¬ x - ⌊x⌋ < 1 / 2 := by
        rw [hcast]
        linarith
      have hmod' : ¬ ⌊x⌋ % 2 = 0 := by omega
      unfold roundHalfEven
      rw [if_neg hge, if_neg hmod', ite_self, hn]
      exact sub_add_cancel n 1

end Foundation
