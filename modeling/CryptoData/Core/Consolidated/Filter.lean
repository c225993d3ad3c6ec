import CryptoData.Core.Trade
import CryptoData.Foundation.Statistics
import Mathlib.Algebra.Order.Ring.Rat
import Mathlib.Tactic.NormNum
import Mathlib.Tactic.Ring

/-!
# Filter — the robust outlier filter of one second

`robustFilter` is `_robust_filter` in exact arithmetic.  It abstains when too few venues are
present; otherwise it keeps the trades within `filterThresh` of the median price, where the
threshold is a multiple of the MAD, or a relative guard if the MAD is degenerate.

Three facts about an engaged filter are used later:

* it never empties a second: at least half of the trades survive (`length_le_two_mul_kept`);
* its breakdown point: if a strict majority of the trades is priced inside `[a, b]`, the threshold
  is bounded by the width of the interval (`filterThresh_le`), and so is the distance of every
  survivor (`kept_mem_of_majority`);
* with a multiplier of two or more, a strict majority survives (`length_lt_two_mul_kept`).
-/

namespace CryptoData

open Foundation

/-! ## The algorithm -/

/-- `_MAD_TO_SIGMA`. -/
def madToSigma : ℚ := 14826 / 10000

/-- The surviving trades and the median price of a single second; the median of no prices is
`math.nan`, here `none`. -/
def robustFilter (trades : List Trade) (madK : ℚ) (minVenues : Int) : List Trade × Option ℚ :=
  if trades.isEmpty then
    ([], none)
  else
    let prices := trades.map Trade.price
    let med := median prices
    let venuesPresent := (trades.map Trade.venue).dedup
    -- `if len(venues_present) < min_venues: return trades, med`
    if (venuesPresent.length : Int) < minVenues then
      (trades, some med)
    else
      let absDev := prices.map fun p => |p - med|
      let mad := median absDev
      if mad ≤ 0 then
        -- All prices equal, or one dominant price.
        let relThresh := max (med * (1 / 1000)) (1 / 1000000000000)
        (trades.filter fun t => decide (|t.price - med| ≤ relThresh), some med)
      else
        let sigma := mad * madToSigma
        let thresh := madK * sigma
        (trades.filter fun t => decide (|t.price - med| ≤ thresh), some med)

/-! ## One threshold for both branches -/

/-- The filter does not abstain: at least `minVenues` venues are present. -/
def Engages (trades : List Trade) (minVenues : Int) : Prop :=
  minVenues ≤ ((trades.map Trade.venue).dedup.length : Int)

instance (trades : List Trade) (minVenues : Int) : Decidable (Engages trades minVenues) :=
  inferInstanceAs (Decidable (_ ≤ _))

/-- The guard of the degenerate branch. -/
def relThresh (c : ℚ) : ℚ :=
  max (c * (1 / 1000)) (1 / 1000000000000)

/-- The distance from the median up to which an engaged filter keeps a trade. -/
def filterThresh (trades : List Trade) (madK : ℚ) : ℚ :=
  if mad (trades.map Trade.price) ≤ 0 then relThresh (median (trades.map Trade.price))
  else madK * (mad (trades.map Trade.price) * madToSigma)

/-- The distance of a trade from the median price of its second. -/
def deviation (trades : List Trade) (t : Trade) : ℚ :=
  |t.price - median (trades.map Trade.price)|

/-- What the filter does, in one line. -/
theorem robustFilter_fst (trades : List Trade) (madK : ℚ) (minVenues : Int) :
    (robustFilter trades madK minVenues).1 =
      if Engages trades minVenues then
        trades.filter fun t => decide (deviation trades t ≤ filterThresh trades madK)
      else trades := by
  cases hempty : trades.isEmpty with
  | true =>
      have hnil : trades = [] := List.isEmpty_iff.1 hempty
      simp [robustFilter, hnil]
  | false =>
      by_cases hengage : Engages trades minVenues
      -- Engaged: the two branches of the code differ in their threshold only.
      · have hfew : ¬ ((trades.map Trade.venue).dedup.length : Int) < minVenues :=
          not_lt.2 hengage
        by_cases hmad : mad (trades.map Trade.price) ≤ 0
        · have hmad' : median ((trades.map Trade.price).map fun p =>
              |p - median (trades.map Trade.price)|) ≤ 0 := hmad
          simp only [robustFilter, hempty, hfew, hmad', hengage, deviation, filterThresh, hmad,
            relThresh, if_true, if_false, Bool.false_eq_true]
        · have hmad' : ¬ median ((trades.map Trade.price).map fun p =>
              |p - median (trades.map Trade.price)|) ≤ 0 := hmad
          simp only [robustFilter, hempty, hfew, hmad', hengage, deviation, filterThresh, mad,
            if_true, if_false, Bool.false_eq_true]
      · have hfew : ((trades.map Trade.venue).dedup.length : Int) < minVenues :=
          not_le.1 hengage
        simp [robustFilter, hempty, hfew, hengage]

theorem robustFilter_sublist (trades : List Trade) (madK : ℚ) (minVenues : Int) :
    (robustFilter trades madK minVenues).1.Sublist trades := by
  rw [robustFilter_fst]
  by_cases h : Engages trades minVenues
  · simp only [h, if_true]
    exact List.filter_sublist
  · simp [h]

lemma mem_robustFilter_iff {trades : List Trade} {madK : ℚ} {minVenues : Int} {t : Trade}
    (h : Engages trades minVenues) :
    t ∈ (robustFilter trades madK minVenues).1 ↔
      t ∈ trades ∧ deviation trades t ≤ filterThresh trades madK := by
  rw [robustFilter_fst]
  simp [h]

/-- The filter decides by the trade alone, so membership says which trades it keeps. -/
lemma robustFilter_eq_filter_mem (trades : List Trade) (madK : ℚ) (minVenues : Int) :
    (robustFilter trades madK minVenues).1 =
      trades.filter fun t => decide (t ∈ (robustFilter trades madK minVenues).1) := by
  by_cases h : Engages trades minVenues
  · rw [robustFilter_fst, if_pos h]
    refine List.filter_congr ?_
    intro t ht
    simp [List.mem_filter, ht]
  · rw [robustFilter_fst, if_neg h]
    refine (List.filter_eq_self.2 ?_).symm
    intro t ht
    exact decide_eq_true ht

/-- The list `abs_dev`; its median is the MAD. -/
def absDevs (trades : List Trade) : List ℚ :=
  (trades.map Trade.price).map fun p => |p - median (trades.map Trade.price)|

@[simp] lemma length_absDevs (trades : List Trade) : (absDevs trades).length = trades.length := by
  simp [absDevs]

lemma absDevs_ne_nil {trades : List Trade} (h : trades ≠ []) : absDevs trades ≠ [] := by
  simpa [absDevs] using h

lemma absDevs_nonneg (trades : List Trade) : ∀ d ∈ absDevs trades, 0 ≤ d := by
  intro d hd
  obtain ⟨p, _, rfl⟩ := List.mem_map.1 hd
  exact abs_nonneg _

lemma median_absDevs (trades : List Trade) :
    median (absDevs trades) = mad (trades.map Trade.price) := rfl

/-- The number of survivors is a count over the absolute deviations. -/
lemma length_robustFilter {trades : List Trade} {madK : ℚ} {minVenues : Int}
    (h : Engages trades minVenues) :
    (robustFilter trades madK minVenues).1.length =
      (absDevs trades).countP (· ≤ filterThresh trades madK) := by
  rw [robustFilter_fst]
  simp only [h, if_true, absDevs, List.countP_map, ← List.countP_eq_length_filter]
  rfl

/-! ## Survivors -/

lemma relThresh_pos (c : ℚ) : 0 < relThresh c :=
  lt_max_of_lt_right (by norm_num)

lemma relThresh_mono {c d : ℚ} (h : c ≤ d) : relThresh c ≤ relThresh d :=
  max_le_max_right _ (by linarith)

lemma madToSigma_pos : 0 < madToSigma := by
  norm_num [madToSigma]

/-- Unless the prices agree too often, the threshold is a multiple of the MAD. -/
lemma filterThresh_of_mad_pos {trades : List Trade} {madK : ℚ}
    (h : 0 < mad (trades.map Trade.price)) :
    filterThresh trades madK = madK * madToSigma * mad (trades.map Trade.price) := by
  rw [filterThresh, if_neg (not_le.2 h)]
  ring

/-- The threshold is at least `m` times the MAD if the multiplier is at least `m`. -/
lemma mul_mad_le_filterThresh {trades : List Trade} {madK m : ℚ} (hne : trades ≠ [])
    (hm : m ≤ madK * madToSigma) :
    m * mad (trades.map Trade.price) ≤ filterThresh trades madK := by
  have hmad : 0 ≤ mad (trades.map Trade.price) := mad_nonneg (by simpa using hne)
  by_cases h : mad (trades.map Trade.price) ≤ 0
  · have hzero : mad (trades.map Trade.price) = 0 := le_antisymm h hmad
    have hpos := relThresh_pos (median (trades.map Trade.price))
    simpa [filterThresh, hzero] using hpos.le
  · calc
      m * mad (trades.map Trade.price)
          ≤ madK * madToSigma * mad (trades.map Trade.price) := mul_le_mul_of_nonneg_right hm hmad
      _ = filterThresh trades madK := (filterThresh_of_mad_pos (not_le.1 h)).symm

/-- Raising the bound on the deviations up to the threshold only adds survivors. -/
lemma countP_absDevs_le_kept {trades : List Trade} {madK c : ℚ} {minVenues : Int}
    (h : Engages trades minVenues) (hc : c ≤ filterThresh trades madK) :
    (absDevs trades).countP (· ≤ c) ≤ (robustFilter trades madK minVenues).1.length := by
  rw [length_robustFilter h]
  apply List.countP_mono_left
  intro d _ hd
  have hdc : d ≤ c := by simpa using hd
  simpa using le_trans hdc hc

/-- With a multiplier of at least one, half of the trades (rounded up) survive. -/
theorem length_le_two_mul_kept {trades : List Trade} {madK : ℚ} (minVenues : Int)
    (hK : 1 ≤ madK * madToSigma) :
    trades.length ≤ 2 * (robustFilter trades madK minVenues).1.length := by
  by_cases hne : trades = []
  · simp [hne]
  · by_cases h : Engages trades minVenues
    -- Half of the deviations are at or below their median, and the threshold is at least that.
    · have hhalf : trades.length ≤ 2 * (absDevs trades).countP (· ≤ median (absDevs trades)) := by
        simpa using length_le_two_mul_countP_le_median (absDevs_ne_nil hne)
      have hthresh : median (absDevs trades) ≤ filterThresh trades madK := by
        simpa [median_absDevs] using mul_mad_le_filterThresh hne hK
      exact le_trans hhalf (Nat.mul_le_mul_left 2 (countP_absDevs_le_kept h hthresh))
    · -- An abstaining filter keeps everything.
      rw [robustFilter_fst]
      simp only [h, if_false]
      exact Nat.le_mul_of_pos_left _ (by norm_num)

/-- With a multiplier of at least two, an engaged filter keeps a strict majority. -/
theorem length_lt_two_mul_kept {trades : List Trade} {madK : ℚ} {minVenues : Int}
    (hne : trades ≠ []) (h : Engages trades minVenues) (hK : 2 ≤ madK * madToSigma) :
    trades.length < 2 * (robustFilter trades madK minVenues).1.length := by
  have hmajority : trades.length <
      2 * (absDevs trades).countP (· ≤ 2 * median (absDevs trades)) := by
    simpa using length_lt_two_mul_countP_le_two_mul_median (absDevs_ne_nil hne)
      (absDevs_nonneg trades)
  have hthresh : 2 * median (absDevs trades) ≤ filterThresh trades madK := by
    simpa [median_absDevs] using mul_mad_le_filterThresh hne hK
  exact lt_of_lt_of_le hmajority (Nat.mul_le_mul_left 2 (countP_absDevs_le_kept h hthresh))

/-! ## Breakdown bound -/

/-- More than half of the trades are priced inside `[a, b]`. -/
def Majority (trades : List Trade) (a b : ℚ) : Prop :=
  trades.length < 2 * trades.countP fun t => decide (a ≤ t.price ∧ t.price ≤ b)

instance (trades : List Trade) (a b : ℚ) : Decidable (Majority trades a b) :=
  inferInstanceAs (Decidable (_ < _))

/-- `max(K * (b - a), b * 1e-3, 1e-12)` for the multiplier `K`. -/
def breakdownBound (madK a b : ℚ) : ℚ :=
  max (madK * madToSigma * (b - a)) (relThresh b)

section Breakdown

variable {trades : List Trade} {madK a b : ℚ} {minVenues : Int}

lemma Majority.prices (h : Majority trades a b) :
    (trades.map Trade.price).length <
      2 * (trades.map Trade.price).countP (fun x => decide (a ≤ x ∧ x ≤ b)) := by
  have hcount : (trades.map Trade.price).countP (fun x => decide (a ≤ x ∧ x ≤ b)) =
      trades.countP fun t => decide (a ≤ t.price ∧ t.price ≤ b) := List.countP_map
  rw [List.length_map, hcount]
  exact h

/-- A majority inside `[a, b]` bounds the threshold, whatever the other trades are. -/
theorem filterThresh_le (hK : 0 ≤ madK) (h : Majority trades a b) :
    filterThresh trades madK ≤ breakdownBound madK a b := by
  -- The majority bounds the median from above and the MAD by the width.
  obtain ⟨_, hmed⟩ := median_mem_of_majority h.prices
  have hmad := mad_le_of_majority h.prices
  by_cases hzero : mad (trades.map Trade.price) ≤ 0
  · simp only [filterThresh, hzero, if_true]
    exact le_trans (relThresh_mono hmed) (le_max_right _ _)
  · have hmul : madK * (mad (trades.map Trade.price) * madToSigma) ≤
        madK * madToSigma * (b - a) := by
      calc
        madK * (mad (trades.map Trade.price) * madToSigma)
            = madK * madToSigma * mad (trades.map Trade.price) := by ring
        _ ≤ madK * madToSigma * (b - a) :=
            mul_le_mul_of_nonneg_left hmad (mul_nonneg hK madToSigma_pos.le)
    simp only [filterThresh, hzero, if_false]
    exact le_trans hmul (le_max_left _ _)

/-- No trade farther than the bound from the majority's interval survives. -/
theorem kept_mem_of_majority (hK : 0 ≤ madK) (hengage : Engages trades minVenues)
    (h : Majority trades a b) {t : Trade} (ht : t ∈ (robustFilter trades madK minVenues).1) :
    a - breakdownBound madK a b ≤ t.price ∧ t.price ≤ b + breakdownBound madK a b := by
  obtain ⟨hlow, hhigh⟩ := median_mem_of_majority h.prices
  have hdev : |t.price - median (trades.map Trade.price)| ≤ breakdownBound madK a b :=
    le_trans ((mem_robustFilter_iff hengage).1 ht).2 (filterThresh_le hK h)
  obtain ⟨hleft, hright⟩ := abs_le.1 hdev
  constructor <;> linarith

end Breakdown

end CryptoData
