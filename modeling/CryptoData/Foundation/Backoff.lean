import Mathlib.Algebra.Order.Field.Basic

/-!
# Backoff — delays that grow up to a bound

A `Backoff` is a delay between the least and the greatest one of its policy.  It starts at the
least, and each failure multiplies it with the factor of the policy as far as the bounds allow:
after `n` failures in a row it is the least one multiplied `n` times, or the greatest
(`delay_after`).
-/

namespace Foundation

variable {K : Type*} [Field K] [LinearOrder K]

structure BackoffPolicy (K : Type*) [Field K] [LinearOrder K] where
  least : K
  greatest : K
  factor : K
  least_pos : 0 < least
  least_le : least ≤ greatest
  one_lt_factor : 1 < factor

/-- A delay within the bounds. -/
structure Backoff (p : BackoffPolicy K) where
  delay : K
  least_le : p.least ≤ delay
  le_greatest : delay ≤ p.greatest

namespace Backoff

variable {p : BackoffPolicy K}

def first (p : BackoffPolicy K) : Backoff p :=
  ⟨p.least, le_rfl, p.least_le⟩

lemma delay_pos (b : Backoff p) : 0 < b.delay :=
  p.least_pos.trans_le b.least_le

variable [IsStrictOrderedRing K]

/-- The longer delay, or the greatest one. -/
def next (b : Backoff p) : Backoff p where
  delay := min (b.delay * p.factor) p.greatest
  least_le := by
    refine le_min ?_ p.least_le
    exact b.least_le.trans (le_mul_of_one_le_right b.delay_pos.le p.one_lt_factor.le)
  le_greatest := min_le_right _ _

/-- The delay after `n` failures. -/
def after (p : BackoffPolicy K) : ℕ → Backoff p
  | 0 => first p
  | n + 1 => (after p n).next

theorem delay_after (n : ℕ) : (after p n).delay = min (p.least * p.factor ^ n) p.greatest := by
  induction n with
  | zero =>
      rw [pow_zero, mul_one]
      exact (min_eq_left p.least_le).symm
  | succ n ih =>
      have hfactor : 0 ≤ p.factor := zero_le_one.trans p.one_lt_factor.le
      have hgreatest : 0 ≤ p.greatest := p.least_pos.le.trans p.least_le
      -- What has reached the greatest delay stays there.
      have hstays : p.greatest ≤ p.greatest * p.factor :=
        le_mul_of_one_le_right hgreatest p.one_lt_factor.le
      calc
        (after p (n + 1)).delay = min ((after p n).delay * p.factor) p.greatest := rfl
        _ = min (min (p.least * p.factor ^ n * p.factor) (p.greatest * p.factor)) p.greatest := by
            rw [ih, min_mul_of_nonneg _ _ hfactor]
        _ = min (p.least * p.factor ^ n * p.factor) p.greatest := by
            rw [min_assoc, min_eq_right hstays]
        _ = min (p.least * p.factor ^ (n + 1)) p.greatest := by
            rw [pow_succ, mul_assoc]

/-- After a failure the delay is not the least one, unless there is only one. -/
lemma least_lt_delay_after (hlt : p.least < p.greatest) {n : ℕ} (hn : n ≠ 0) :
    p.least < (after p n).delay := by
  rw [delay_after]
  refine lt_min ?_ hlt
  exact lt_mul_of_one_lt_right p.least_pos (one_lt_pow₀ p.one_lt_factor hn)

end Backoff

end Foundation
