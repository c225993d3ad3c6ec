import Mathlib.Algebra.BigOperators.Group.List.Basic
import Mathlib.Algebra.Order.Field.Basic
import Mathlib.Tactic.Linarith

/-!
# Metering — a level that refills at a constant rate

A draw at the instant `now` credits the time since the previous draw at `rate`, up to the
capacity, and takes its amount, which may be zero.

However the draws are spread, what they take in `(t₁, t₂]` is bounded by the capacity and the
credit of that time (`Draws.drawnIn_le`): at the first draw after `t₁` the level is at most the
capacity, and from then on every amount is paid for by the level or by the credit
(`Draws.drawnUpTo_le`).
-/

namespace Foundation

variable {K : Type*}

structure Meter (K : Type*) where
  rate : K
  capacity : K

structure Level (K : Type*) where
  amount : K
  since : K

structure Draw (K : Type*) where
  now : K
  amount : K
  deriving DecidableEq, Repr

variable [Field K] [LinearOrder K]

namespace Meter

/-- The level at `now`, before anything is taken. -/
def refill (m : Meter K) (l : Level K) (now : K) : Level K where
  amount := min m.capacity (l.amount + (now - l.since) * m.rate)
  since := now

def draw (m : Meter K) (l : Level K) (d : Draw K) : Level K :=
  { m.refill l d.now with amount := (m.refill l d.now).amount - d.amount }

/-- Draws in time order, none of which takes more than there is. -/
def Draws (m : Meter K) : Level K → List (Draw K) → Prop
  | _, [] => True
  | l, d :: ds =>
      l.since ≤ d.now ∧ 0 ≤ d.amount ∧ d.amount ≤ (m.refill l d.now).amount ∧
        m.Draws (m.draw l d) ds

end Meter

/-- The amounts taken in `(t₁, t₂]`. -/
def drawnIn (t₁ t₂ : K) (ds : List (Draw K)) : K :=
  ((ds.filter fun d => decide (t₁ < d.now) && decide (d.now ≤ t₂)).map Draw.amount).sum

/-- The amounts taken up to `t₂`. -/
def drawnUpTo (t₂ : K) (ds : List (Draw K)) : K :=
  ((ds.filter fun d => decide (d.now ≤ t₂)).map Draw.amount).sum

namespace Meter

variable {m : Meter K} {l : Level K} {ds : List (Draw K)} {t₁ t₂ : K}

lemma refill_le_capacity (m : Meter K) (l : Level K) (now : K) :
    (m.refill l now).amount ≤ m.capacity :=
  min_le_left _ _

lemma refill_le (m : Meter K) (l : Level K) (now : K) :
    (m.refill l now).amount ≤ l.amount + (now - l.since) * m.rate :=
  min_le_right _ _

/-- Nothing is drawn before the level was last set. -/
lemma Draws.since_le (h : m.Draws l ds) : ∀ d ∈ ds, l.since ≤ d.now := by
  induction ds generalizing l with
  | nil =>
      intro d hd
      cases hd
  | cons d ds ih =>
      rcases h with ⟨hle, _, _, hrest⟩
      intro e he
      rcases List.mem_cons.1 he with rfl | he
      · exact hle
      · exact le_trans hle (ih hrest e he)

lemma Draws.drawnUpTo_eq_zero (h : m.Draws l ds) (hlt : t₂ < l.since) : drawnUpTo t₂ ds = 0 := by
  have hnone : (ds.filter fun d => decide (d.now ≤ t₂)) = [] := by
    refine List.filter_eq_nil_iff.2 ?_
    intro d hd
    have hlater := lt_of_lt_of_le hlt (h.since_le d hd)
    simpa using hlater
  rw [drawnUpTo, hnone]
  rfl

/-- Past `t₁` the left end of the interval does not matter any more. -/
lemma Draws.drawnIn_eq (h : m.Draws l ds) (hlt : t₁ < l.since) :
    drawnIn t₁ t₂ ds = drawnUpTo t₂ ds := by
  have hfilter : (ds.filter fun d => decide (t₁ < d.now) && decide (d.now ≤ t₂)) =
      ds.filter fun d => decide (d.now ≤ t₂) := by
    refine List.filter_congr ?_
    intro d hd
    have hlater := lt_of_lt_of_le hlt (h.since_le d hd)
    simp [hlater]
  rw [drawnIn, hfilter]
  rfl

variable [IsStrictOrderedRing K]

/-- A draw that is paid for leaves a level between zero and the capacity. -/
lemma draw_mem {d : Draw K} (hamount : 0 ≤ d.amount)
    (hpaid : d.amount ≤ (m.refill l d.now).amount) :
    0 ≤ (m.draw l d).amount ∧ (m.draw l d).amount ≤ m.capacity := by
  have hcap := refill_le_capacity m l d.now
  have hafter : (m.draw l d).amount = (m.refill l d.now).amount - d.amount := rfl
  rw [hafter]
  constructor
  · linarith
  · linarith

/-- A refill never takes anything away from a level below the capacity. -/
lemma le_refill (hrate : 0 ≤ m.rate) (hl : l.amount ≤ m.capacity) {now : K}
    (hle : l.since ≤ now) : l.amount ≤ (m.refill l now).amount := by
  have hcredit : 0 ≤ (now - l.since) * m.rate := mul_nonneg (sub_nonneg.2 hle) hrate
  exact le_min hl (by linarith)

/-- What is taken up to `t₂` is paid for by the level and by the credit since. -/
theorem Draws.drawnUpTo_le (hrate : 0 ≤ m.rate) (h : m.Draws l ds) (hl : 0 ≤ l.amount)
    (hle : l.since ≤ t₂) : drawnUpTo t₂ ds ≤ l.amount + m.rate * (t₂ - l.since) := by
  induction ds generalizing l with
  | nil =>
      have hcredit : 0 ≤ m.rate * (t₂ - l.since) := mul_nonneg hrate (sub_nonneg.2 hle)
      have hzero : drawnUpTo t₂ ([] : List (Draw K)) = 0 := rfl
      rw [hzero]
      linarith
  | cons d ds ih =>
      rcases h with ⟨hnow, _, hpaid, hrest⟩
      have hafter : (m.draw l d).amount = (m.refill l d.now).amount - d.amount := rfl
      by_cases hin : d.now ≤ t₂
      · have hsplit : drawnUpTo t₂ (d :: ds) = d.amount + drawnUpTo t₂ ds := by
          simp [drawnUpTo, hin]
        have htail := ih hrest (by rw [hafter]; linarith) hin
        have hrefill := refill_le m l d.now
        have hsince : (m.draw l d).since = d.now := rfl
        rw [hsplit]
        rw [hafter, hsince] at htail
        linarith
      · -- A draw after `t₂`, and all later ones, do not count.
        have hlate : drawnUpTo t₂ (d :: ds) = drawnUpTo t₂ ds := by
          simp [drawnUpTo, hin]
        rw [hlate, hrest.drawnUpTo_eq_zero (not_le.1 hin)]
        have hcredit : 0 ≤ m.rate * (t₂ - l.since) := mul_nonneg hrate (sub_nonneg.2 hle)
        linarith

/-- What is taken in an interval is at most the capacity and the credit of the interval. -/
theorem Draws.drawnIn_le (hrate : 0 ≤ m.rate) (h : m.Draws l ds) (hcap : 0 ≤ m.capacity)
    (hle : t₁ ≤ t₂) : drawnIn t₁ t₂ ds ≤ m.capacity + m.rate * (t₂ - t₁) := by
  have hcredit : 0 ≤ m.rate * (t₂ - t₁) := mul_nonneg hrate (sub_nonneg.2 hle)
  induction ds generalizing l with
  | nil =>
      have hzero : drawnIn t₁ t₂ ([] : List (Draw K)) = 0 := rfl
      rw [hzero]
      linarith
  | cons d ds ih =>
      rcases h with ⟨hnow, _, hpaid, hrest⟩
      by_cases hearly : d.now ≤ t₁
      · have hskip : drawnIn t₁ t₂ (d :: ds) = drawnIn t₁ t₂ ds := by
          simp [drawnIn, not_lt.2 hearly]
        rw [hskip]
        exact ih hrest
      · have hlate := not_le.1 hearly
        have hrestIn : drawnIn t₁ t₂ ds = drawnUpTo t₂ ds := hrest.drawnIn_eq hlate
        by_cases hin : d.now ≤ t₂
        · -- The first draw of the interval finds at most the capacity.
          have hsplit : drawnIn t₁ t₂ (d :: ds) = d.amount + drawnIn t₁ t₂ ds := by
            simp [drawnIn, hlate, hin]
          have hafter : (m.draw l d).amount = (m.refill l d.now).amount - d.amount := rfl
          have hsince : (m.draw l d).since = d.now := rfl
          have htail := hrest.drawnUpTo_le hrate (by rw [hafter]; linarith) hin
          rw [hafter, hsince] at htail
          have hfull := refill_le_capacity m l d.now
          have hspan : m.rate * (t₂ - d.now) ≤ m.rate * (t₂ - t₁) :=
            mul_le_mul_of_nonneg_left (by linarith) hrate
          rw [hsplit, hrestIn]
          linarith
        · have hskip : drawnIn t₁ t₂ (d :: ds) = drawnIn t₁ t₂ ds := by
            simp [drawnIn, hin]
          rw [hskip]
          exact ih hrest

/-! ## Waiting for an amount -/

/-- From `wake` on, a draw of `n` is paid for unless something is taken before. -/
def Affords (m : Meter K) (l : Level K) (n wake : K) : Prop :=
  ∀ now, wake ≤ now → l.since ≤ now → n ≤ (m.refill l now).amount

variable {n now wake : K}

/-- The wait that the missing part takes at the rate of the meter is long enough. -/
theorem affords_of_short (hrate : 0 < m.rate) (hn : n ≤ m.capacity) :
    m.Affords (m.draw l ⟨now, 0⟩) n (now + (n - (m.refill l now).amount) / m.rate) := by
  intro later hwake _
  have hdrawn : (m.draw l ⟨now, 0⟩).amount = (m.refill l now).amount := sub_zero _
  have hsince : (m.draw l ⟨now, 0⟩).since = now := rfl
  refine le_min hn ?_
  rw [hdrawn, hsince]
  have hwait : (n - (m.refill l now).amount) / m.rate ≤ later - now := by linarith
  have hcredit := (div_le_iff₀ hrate).1 hwait
  linarith

/-- A draw of nothing in between only credits what was due. -/
theorem Affords.draw_zero (hrate : 0 ≤ m.rate) (hle : l.since ≤ now) (h : m.Affords l n wake) :
    m.Affords (m.draw l ⟨now, 0⟩) n wake := by
  intro later hwake hnow
  have hsince : (m.draw l ⟨now, 0⟩).since = now := rfl
  rw [hsince] at hnow
  have hdue := h later hwake (le_trans hle hnow)
  have hdrawn : (m.draw l ⟨now, 0⟩).amount = (m.refill l now).amount := sub_zero _
  refine le_min (le_trans hdue (refill_le_capacity m l later)) ?_
  rw [hdrawn, hsince]
  have hcredit : 0 ≤ (later - now) * m.rate := mul_nonneg (sub_nonneg.2 hnow) hrate
  -- Either the refill stopped at the capacity, or it credited the whole time.
  rcases min_choice m.capacity (l.amount + (now - l.since) * m.rate) with hmin | hmin
  · have hfull : (m.refill l now).amount = m.capacity := hmin
    have hcap := refill_le_capacity m l later
    rw [hfull]
    linarith
  · have hall : (m.refill l now).amount = l.amount + (now - l.since) * m.rate := hmin
    have hlater := refill_le m l later
    rw [hall]
    linarith

end Meter
end Foundation
