import CryptoData.Foundation.Rounding
import Mathlib.Algebra.Order.Field.Power
import Mathlib.Data.Int.Log
import Mathlib.Tactic.Ring

/-!
# Binary64 — arithmetic in doubles

`double x` is the nearest number with 53 significant bits, ties to even: the value of a double
precision operation whose exact result is `x`.  The range of the exponent is left open, so nothing
overflows and nothing is subnormal; where the numbers are between `2 ^ -1022` and `2 ^ 1023` this is
the arithmetic of IEEE 754.

Rounding is monotone (`double_mono`), keeps the sign (`double_pos`), moves a number by one part in
`2 ^ 53` at most (`double_bounds`) and leaves what fits into 53 bits alone (`double_natCast`,
`double_natCast_mul_two_pow`).
-/

namespace Foundation

/-- The unit in the last place of a number with 53 significant bits. -/
def ulp (x : ℚ) : ℚ :=
  2 ^ (Int.log 2 |x| - 52)

/-- The nearest double; of two, the one with the even significand. -/
def double (x : ℚ) : ℚ :=
  if x = 0 then 0 else roundHalfEven (x / ulp x) * ulp x

/-! ## Rounding to an integer -/

/-- A bound by an integer is kept, so rounding is monotone across an integer; between two integers
it depends on the fraction alone. -/
lemma roundHalfEven_mono {x y : ℚ} (h : x ≤ y) : roundHalfEven x ≤ roundHalfEven y := by
  by_cases hfloor : ⌊x⌋ = ⌊y⌋
  · have hfraction : x - ⌊x⌋ ≤ y - ⌊y⌋ := by
      rw [hfloor]
      linarith
    unfold roundHalfEven
    rw [hfloor] at hfraction ⊢
    split_ifs <;> first | omega | linarith
  · have hlt : ⌊x⌋ + 1 ≤ ⌊y⌋ := by
      have hle := Int.floor_le_floor h
      omega
    have hup : x ≤ ((⌊x⌋ + 1 : Int) : ℚ) := by
      push_cast
      exact (Int.lt_floor_add_one x).le
    calc
      roundHalfEven x ≤ ⌊x⌋ + 1 := roundHalfEven_le hup
      _ ≤ ⌊y⌋ := hlt
      _ ≤ roundHalfEven y := le_roundHalfEven (Int.floor_le y)

/-! ## Rounding to a double -/

section Double

variable {x y : ℚ}

@[simp] lemma double_zero : double 0 = 0 := if_pos rfl

lemma ulp_pos (x : ℚ) : 0 < ulp x := zpow_pos (by norm_num) _

/-- The powers of two around a number, in units of its last place. -/
lemma pow_mul_ulp (hx : 0 < x) (k : Int) : (2 : ℚ) ^ (52 + k) * ulp x = 2 ^ (Int.log 2 x + k) := by
  rw [ulp, abs_of_pos hx, ← zpow_add₀ (by norm_num)]
  congr 1
  ring

/-- The significand of a positive number lies between `2 ^ 52` and `2 ^ 53`. -/
lemma significand_bounds (hx : 0 < x) :
    ((2 ^ 52 : Int) : ℚ) ≤ x / ulp x ∧ x / ulp x ≤ ((2 ^ 53 : Int) : ℚ) := by
  have hlow : (2 : ℚ) ^ Int.log 2 x ≤ x := by
    exact_mod_cast Int.zpow_log_le_self (b := 2) (by norm_num) hx
  have hhigh : x < (2 : ℚ) ^ (Int.log 2 x + 1) := by
    exact_mod_cast Int.lt_zpow_succ_log_self (b := 2) (by norm_num) x
  have hone := pow_mul_ulp hx 0
  have htwo := pow_mul_ulp hx 1
  norm_num at hone htwo
  constructor
  · rw [le_div_iff₀ (ulp_pos x)]
    push_cast
    linarith
  · rw [div_le_iff₀ (ulp_pos x)]
    push_cast
    linarith

lemma double_eq (hx : 0 < x) : double x = roundHalfEven (x / ulp x) * ulp x := if_neg hx.ne'

/-- Rounding stays between the powers of two around a number. -/
lemma double_mem_Icc (hx : 0 < x) :
    (2 : ℚ) ^ Int.log 2 x ≤ double x ∧ double x ≤ 2 ^ (Int.log 2 x + 1) := by
  have hone := pow_mul_ulp hx 0
  have htwo := pow_mul_ulp hx 1
  norm_num at hone htwo
  have hbounds := significand_bounds hx
  have hlow : ((2 ^ 52 : Int) : ℚ) ≤ roundHalfEven (x / ulp x) :=
    Int.cast_le.2 (le_roundHalfEven hbounds.1)
  have hhigh : (roundHalfEven (x / ulp x) : ℚ) ≤ ((2 ^ 53 : Int) : ℚ) :=
    Int.cast_le.2 (roundHalfEven_le hbounds.2)
  push_cast at hlow hhigh
  have hpos := ulp_pos x
  rw [double_eq hx, ← hone, ← htwo]
  constructor
  · refine mul_le_mul_of_nonneg_right ?_ hpos.le
    linarith
  · refine mul_le_mul_of_nonneg_right ?_ hpos.le
    linarith

lemma double_pos (hx : 0 < x) : 0 < double x :=
  lt_of_lt_of_le (zpow_pos (by norm_num) _) (double_mem_Icc hx).1

lemma double_nonneg (hx : 0 ≤ x) : 0 ≤ double x := by
  rcases hx.eq_or_lt with rfl | hx
  · rw [double_zero]
  · exact (double_pos hx).le

lemma double_eq_zero_iff (hx : 0 ≤ x) : double x = 0 ↔ x = 0 := by
  constructor
  · intro h
    by_contra hne
    exact (double_pos (lt_of_le_of_ne hx (Ne.symm hne))).ne' h
  · rintro rfl
    exact double_zero

/-- Rounding is monotone: inside a binade because rounding to an integer is, and across binades
because of the power of two between them. -/
theorem double_mono (hx : 0 ≤ x) (h : x ≤ y) : double x ≤ double y := by
  rcases hx.eq_or_lt with rfl | hx
  · rw [double_zero]
    exact double_nonneg h
  have hy : 0 < y := lt_of_lt_of_le hx h
  rcases (Int.log_mono_right hx h (b := 2)).eq_or_lt with hlog | hlog
  · have hulp : ulp x = ulp y := by
      rw [ulp, ulp, abs_of_pos hx, abs_of_pos hy, hlog]
    rw [double_eq hx, double_eq hy, hulp]
    refine mul_le_mul_of_nonneg_right ?_ (ulp_pos y).le
    exact_mod_cast roundHalfEven_mono (div_le_div_of_nonneg_right h (ulp_pos y).le)
  · calc
      double x ≤ 2 ^ (Int.log 2 x + 1) := (double_mem_Icc hx).2
      _ ≤ 2 ^ Int.log 2 y := zpow_le_zpow_right₀ (by norm_num) hlog
      _ ≤ double y := (double_mem_Icc hy).1

/-- Rounding moves a number by one part in `2 ^ 53` at most. -/
theorem double_bounds (hx : 0 ≤ x) :
    x * (1 - 1 / 2 ^ 53) ≤ double x ∧ double x ≤ x * (1 + 1 / 2 ^ 53) := by
  rcases hx.eq_or_lt with rfl | hx
  · simp
  have hpos := ulp_pos x
  have hround := roundHalfEven_bounds (x / ulp x)
  have hlow := (significand_bounds hx).1
  -- Half a unit of the last place is at most one part in `2 ^ 53` of the number.
  have hhalf : 1 / 2 ≤ x / ulp x * (1 / 2 ^ 53) := by
    push_cast at hlow
    linarith
  have hscaled : x / ulp x * ulp x = x := div_mul_cancel₀ x hpos.ne'
  rw [double_eq hx]
  constructor
  · calc
      x * (1 - 1 / 2 ^ 53) = (x / ulp x - x / ulp x * (1 / 2 ^ 53)) * ulp x := by
        rw [sub_mul, mul_right_comm, hscaled, mul_sub, mul_one]
      _ ≤ roundHalfEven (x / ulp x) * ulp x :=
        mul_le_mul_of_nonneg_right (by linarith) hpos.le
  · calc
      roundHalfEven (x / ulp x) * ulp x
          ≤ (x / ulp x + x / ulp x * (1 / 2 ^ 53)) * ulp x :=
        mul_le_mul_of_nonneg_right (by linarith) hpos.le
      _ = x * (1 + 1 / 2 ^ 53) := by
        rw [add_mul, mul_right_comm, hscaled, mul_add, mul_one]

/-- A natural number of at most 53 bits is a double. -/
theorem double_natCast {n : ℕ} (hn : n < 2 ^ 53) : double n = n := by
  rcases Nat.eq_zero_or_pos n with rfl | hpos
  · simp
  have hx : (0 : ℚ) < n := by exact_mod_cast hpos
  have hlog : Nat.log 2 n ≤ 52 := Nat.lt_succ_iff.1 (Nat.log_lt_of_lt_pow hpos.ne' hn)
  -- The unit in the last place divides one.
  have hulp : ulp (n : ℚ) * ((2 ^ (52 - Nat.log 2 n) : ℕ) : ℚ) = 1 := by
    rw [ulp, abs_of_pos hx, Int.log_natCast]
    push_cast
    rw [← zpow_natCast, ← zpow_add₀ (by norm_num), Nat.cast_sub hlog]
    norm_num
  have hscaled : (n : ℚ) / ulp n = ((n * 2 ^ (52 - Nat.log 2 n) : ℕ) : Int) := by
    rw [div_eq_iff (ulp_pos _).ne']
    push_cast at hulp ⊢
    rw [mul_assoc, mul_comm _ (ulp _), hulp, mul_one]
  rw [double_eq hx, hscaled, roundHalfEven_intCast, ← hscaled, div_mul_cancel₀ _ (ulp_pos _).ne']

lemma log_mul_two_pow (hx : 0 < x) (j : ℕ) : Int.log 2 (x * 2 ^ j) = Int.log 2 x + j := by
  have hpow : (0 : ℚ) < 2 ^ j := pow_pos (by norm_num) j
  have hpos : 0 < x * 2 ^ j := mul_pos hx hpow
  have hshift : ∀ k : Int, (2 : ℚ) ^ (k + j) = 2 ^ k * 2 ^ j := by
    intro k
    rw [zpow_add₀ (by norm_num), zpow_natCast]
  apply le_antisymm
  · rw [← Int.lt_add_one_iff, ← Int.lt_zpow_iff_log_lt (b := 2) (by norm_num) hpos]
    have hlt : x < (2 : ℚ) ^ (Int.log 2 x + 1) := by
      exact_mod_cast Int.lt_zpow_succ_log_self (b := 2) (by norm_num) x
    have hswap : Int.log 2 x + j + 1 = Int.log 2 x + 1 + j := by ring
    push_cast
    rw [hswap, hshift]
    exact mul_lt_mul_of_pos_right hlt hpow
  · rw [← Int.zpow_le_iff_le_log (b := 2) (by norm_num) hpos]
    have hle : (2 : ℚ) ^ Int.log 2 x ≤ x := by
      exact_mod_cast Int.zpow_log_le_self (b := 2) (by norm_num) hx
    push_cast
    rw [hshift]
    exact mul_le_mul_of_nonneg_right hle hpow.le

/-- Doubling shifts the exponent only. -/
theorem double_mul_two_pow (hx : 0 < x) (j : ℕ) : double (x * 2 ^ j) = double x * 2 ^ j := by
  have hpow : (2 : ℚ) ^ j ≠ 0 := pow_ne_zero j (by norm_num)
  have hpos : 0 < x * 2 ^ j := mul_pos hx (pow_pos (by norm_num) j)
  have hulp : ulp (x * 2 ^ j) = ulp x * 2 ^ j := by
    have hswap : Int.log 2 x + j - 52 = Int.log 2 x - 52 + j := by ring
    rw [ulp, ulp, abs_of_pos hx, abs_of_pos hpos, log_mul_two_pow hx, hswap,
      zpow_add₀ (by norm_num), zpow_natCast]
  rw [double_eq hx, double_eq hpos, hulp, mul_div_mul_right _ _ hpow, mul_assoc]

theorem double_natCast_mul_two_pow {n : ℕ} (hn : n < 2 ^ 53) (j : ℕ) :
    double (n * 2 ^ j) = n * 2 ^ j := by
  rcases Nat.eq_zero_or_pos n with rfl | hpos
  · simp
  · rw [double_mul_two_pow (by exact_mod_cast hpos), double_natCast hn]

end Double

end Foundation
