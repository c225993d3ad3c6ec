import CryptoData.Core.Consolidated.Build

/-!
# Breakdown — what a bad feed can do to a second

Two results about the bars of `buildAggBars` in seconds where the filter engages.

1. `agg_breakdown`: if most *trades* of the second are priced in `[a, b]`, so is the bar, up to the
   breakdown bound of the filter, however extreme the other trades are.
2. `rogue_excluded_iff`: the filter takes its median over trades, not over venues.  One bad venue
   is kept off the tape when the other venues outprint it, and for a threshold multiplier of two or
   more (the shipped one is above seven) only then, however many venues there are.  A multiplier
   between one and two also excludes a venue that prints exactly as often as all others, if its
   prints are farther out by a factor that depends on the multiplier (`EvenlyMatched`).

Prices and sizes are exact numbers here: a `vwap` in doubles can leave the range of its trades by a
rounding.
-/

namespace CryptoData

open Foundation

/-! ## Prices of a bar -/

/-- All five prices of the bar lie in `[lo, hi]`. -/
structure PricedIn (lo hi : ℚ) (b : Bar) : Prop where
  «open» : lo ≤ b.open ∧ b.open ≤ hi
  high : lo ≤ b.high ∧ b.high ≤ hi
  low : lo ≤ b.low ∧ b.low ≤ hi
  close : lo ≤ b.close ∧ b.close ≤ hi
  vwap : lo ≤ b.vwap ∧ b.vwap ≤ hi

/-- A roll-up is priced within the range of the trades it was rolled up from. -/
theorem RollsUp.pricedIn {venuesIndex : Dict String ℕ} {sec : Int} {kept : List Trade} {b : Bar}
    {lo hi : ℚ} (h : RollsUp venuesIndex sec kept b) (hqty : ∀ t ∈ kept, 0 < t.qty)
    (hprice : ∀ t ∈ kept, lo ≤ t.price ∧ t.price ≤ hi) : PricedIn lo hi b := by
  rcases h.open with ⟨first, hfirst, hopen⟩
  rcases h.close with ⟨last, hlast, hclose⟩
  rcases h.high with ⟨top, htop, hhigh⟩
  rcases h.low with ⟨bottom, hbottom, hlow⟩
  have hfirst' : first ∈ kept := List.mem_of_mem_head? hfirst
  have hlast' : last ∈ kept := List.mem_of_mem_getLast? hlast
  have hvolume : 0 < (kept.map Trade.qty).sum := by
    apply List.sum_pos
    · intro q hq
      rcases List.mem_map.1 hq with ⟨t, ht, rfl⟩
      exact hqty t ht
    · intro hnil
      have hkept : kept = [] := List.map_eq_nil_iff.1 hnil
      simp [hkept] at hfirst'
  have hvwap := weightedMean_mem (f := Trade.price) (fun t ht => (hqty t ht).le) hvolume hprice
  exact
    { «open» := by simpa [hopen] using hprice first hfirst'
      high := by simpa [hhigh] using hprice top htop
      low := by simpa [hlow] using hprice bottom hbottom
      close := by simpa [hclose] using hprice last hlast'
      vwap := by simpa [h.vwap] using hvwap }

/-! ## Most trades are honest -/

/-- Breakdown bound of the tape: with more than half of a second's trades priced in `[a, b]`, every
survivor and every price of the bar is within the bound of `[a, b]`. -/
theorem agg_breakdown (p : AggParams) (nowNs : Int) (consolidated : List Trade) (sec : Int)
    (a b : ℚ) (hK : 0 ≤ p.madK)
    (hengage : Engages (secondTrades p consolidated sec) p.minVenuesForFilter)
    (hmajority : Majority (secondTrades p consolidated sec) a b) :
    (∀ t ∈ keptIn p consolidated sec,
        a - breakdownBound p.madK a b ≤ t.price ∧ t.price ≤ b + breakdownBound p.madK a b) ∧
      ∀ bar ∈ (buildAggBars p nowNs consolidated).1, bar.tsNs = sec →
        PricedIn (a - breakdownBound p.madK a b) (b + breakdownBound p.madK a b) bar := by
  have hkept : ∀ t ∈ keptIn p consolidated sec,
      a - breakdownBound p.madK a b ≤ t.price ∧ t.price ≤ b + breakdownBound p.madK a b :=
    fun t ht => kept_mem_of_majority hK hengage hmajority ht
  refine ⟨hkept, ?_⟩
  intro bar hbar hsec
  have hroll := (rollsUp_of_mem hbar).2
  rw [hsec] at hroll
  exact hroll.pricedIn (fun t ht => qty_pos_of_mem_keptIn ht) hkept

theorem agg_breakdown_sample :
    ∃ bar ∈ (buildAggBars { symbol := "BTC-USD" } 0
      [{ tsNs := 0, venue := some "kraken", price := 100, size := some 1 },
        { tsNs := 1, venue := some "okx", price := 101, size := some 1 },
        { tsNs := 2, venue := some "gemini", price := 900, size := some 1 }]).1,
      bar.tsNs = 0 ∧
        PricedIn (100 - breakdownBound 5 100 101) (101 + breakdownBound 5 100 101) bar := by
  have hbound := (agg_breakdown { symbol := "BTC-USD" } 0
    [{ tsNs := 0, venue := some "kraken", price := 100, size := some 1 },
      { tsNs := 1, venue := some "okx", price := 101, size := some 1 },
      { tsNs := 2, venue := some "gemini", price := 900, size := some 1 }]
    0 100 101 (by decide +kernel) (by decide +kernel) (by decide +kernel)).2
  have hbar : ∃ bar ∈ (buildAggBars { symbol := "BTC-USD" } 0
      [{ tsNs := 0, venue := some "kraken", price := 100, size := some 1 },
        { tsNs := 1, venue := some "okx", price := 101, size := some 1 },
        { tsNs := 2, venue := some "gemini", price := 900, size := some 1 }]).1,
      bar.tsNs = 0 := by
    decide +kernel
  rcases hbar with ⟨bar, hmem, hts⟩
  exact ⟨bar, hmem, hts, hbound bar hmem hts⟩

/-! ## One venue is rogue -/

/-- The distance of a price from the interval `[a, b]`. -/
def distanceTo (a b x : ℚ) : ℚ :=
  max 0 (max (a - x) (x - b))

/-- The distance a print must exceed to count as rogue: `K * (b - a) + max(b * 1e-3, 1e-12)`. -/
def rogueMargin (madK a b : ℚ) : ℚ :=
  madK * madToSigma * (b - a) + relThresh b

/-- The venue with the bit `bit` is off the bar, and the bar is priced in `[a, b]`. -/
def TapeIntact (bit : ℕ) (a b : ℚ) (bar : Bar) : Prop :=
  bar.sourcesMask &&& bit = 0 ∧ PricedIn a b bar

section Rogue

variable {p : AggParams} {nowNs : Int} {consolidated : List Trade} {sec : Int} {rogue : String}
  {a b : ℚ}

lemma distanceTo_le_abs_sub {m x : ℚ} (ha : a ≤ m) (hb : m ≤ b) : distanceTo a b x ≤ |x - m| := by
  refine max_le (abs_nonneg _) (max_le ?_ ?_)
  · calc
      a - x ≤ m - x := by linarith
      _ ≤ |x - m| := by simpa [abs_sub_comm] using le_abs_self (m - x)
  · calc
      x - b ≤ x - m := by linarith
      _ ≤ |x - m| := le_abs_self _

lemma breakdownBound_le_rogueMargin {madK : ℚ} (hK : 0 ≤ madK) (hab : a ≤ b) :
    breakdownBound madK a b ≤ rogueMargin madK a b := by
  have hwidth : 0 ≤ madK * madToSigma * (b - a) :=
    mul_nonneg (mul_nonneg hK madToSigma_pos.le) (sub_nonneg.2 hab)
  have hguard : 0 < relThresh b := relThresh_pos b
  refine max_le ?_ ?_
  · exact le_add_of_nonneg_right hguard.le
  · exact le_add_of_nonneg_left hwidth

/-- The index in use is a bitmask index, and it knows every venue of the second. -/
lemma usedIndex_eq (consolidated : List Trade) (sec : Int) (hindex : p.venuesIndex = none ∨
      ∃ vs, rogue ∈ vs ∧ p.venuesIndex = some (venueBitmaskIndex vs)) :
    ∃ vs, usedIndex p consolidated = venueBitmaskIndex vs ∧
      ∀ t ∈ secondTrades p consolidated sec, t.venueName = rogue → rogue ∈ vs := by
  -- Without a given index the code builds one over the venues it admits.
  rcases hindex with hnone | ⟨vs, hrogue, hsome⟩
  · refine ⟨(consolidated.filter (admits p)).map Trade.venueName, by simp [usedIndex, hnone], ?_⟩
    intro t ht hvenue
    have hmem := mem_secondTrades_iff.1 ht
    exact List.mem_map.2 ⟨t, List.mem_filter.2 ⟨hmem.1, hmem.2.1⟩, hvenue⟩
  · exact ⟨vs, by simp [usedIndex, hsome], fun _ _ _ => hrogue⟩

/-- The bit of the rogue venue is off the mask exactly when none of its prints survives. -/
lemma mask_and_eq_zero_iff (hindex : p.venuesIndex = none ∨
      ∃ vs, rogue ∈ vs ∧ p.venuesIndex = some (venueBitmaskIndex vs)) {bar : Bar}
    (hroll : RollsUp (usedIndex p consolidated) sec (keptIn p consolidated sec) bar) :
    bar.sourcesMask &&& (usedIndex p consolidated).getD rogue 0 = 0 ↔
      ∀ t ∈ keptIn p consolidated sec, t.venueName ≠ rogue := by
  rcases usedIndex_eq consolidated sec hindex with ⟨vs, hvs, hknown⟩
  have hvenues : rogue ∉ sortedSet ((keptIn p consolidated sec).map Trade.venueName) ↔
      ∀ t ∈ keptIn p consolidated sec, t.venueName ≠ rogue := by
    simp [mem_sortedSet]
  rw [hroll.sourcesMask, hvs]
  -- A venue outside the index has bit zero, and by `hknown` it has no print in the second.
  by_cases hrogue : rogue ∈ vs
  · rw [orMask_and_eq_zero_iff hrogue, hvenues]
  · have habsent : ∀ t ∈ keptIn p consolidated sec, t.venueName ≠ rogue := fun t ht hvenue =>
      hrogue (hknown t (keptIn_sublist.subset ht) hvenue)
    simpa [venueBitmaskIndex_getD_of_not_mem hrogue] using habsent

/-- Every bar of the second is intact. -/
def TapeIntactIn (p : AggParams) (nowNs : Int) (consolidated : List Trade) (sec : Int)
    (rogue : String) (a b : ℚ) : Prop :=
  ∀ bar ∈ (buildAggBars p nowNs consolidated).1, bar.tsNs = sec →
    TapeIntact ((usedIndex p consolidated).getD rogue 0) a b bar

/-- The bars of the second are intact exactly when the filter drops every rogue print. -/
lemma tapeIntact_iff (hindex : p.venuesIndex = none ∨
      ∃ vs, rogue ∈ vs ∧ p.venuesIndex = some (venueBitmaskIndex vs))
    (hhonest : ∀ t ∈ secondTrades p consolidated sec, t.venueName ≠ rogue →
      a ≤ t.price ∧ t.price ≤ b) :
    TapeIntactIn p nowNs consolidated sec rogue a b ↔
      ∀ t ∈ keptIn p consolidated sec, t.venueName ≠ rogue := by
  constructor
  · intro hbars t ht
    -- A survivor gives the second a bar, whose mask is built from the survivors.
    rcases exists_bar_of_keptIn nowNs (List.ne_nil_of_mem ht) with ⟨bar, hbar, hsec⟩
    have hroll := (rollsUp_of_mem hbar).2
    rw [hsec] at hroll
    exact (mask_and_eq_zero_iff hindex hroll).1 (hbars bar hbar hsec).1 t ht
  · intro hkept bar hbar hsec
    have hroll := (rollsUp_of_mem hbar).2
    rw [hsec] at hroll
    refine ⟨(mask_and_eq_zero_iff hindex hroll).2 hkept, ?_⟩
    apply hroll.pricedIn (fun t ht => qty_pos_of_mem_keptIn ht)
    intro t ht
    exact hhonest t (keptIn_sublist.subset ht) (hkept t ht)

/-- As many distinct venues as distinct venue names. -/
lemma length_dedup_venueName_le (trades : List Trade) :
    (trades.map Trade.venueName).dedup.length ≤ (trades.map Trade.venue).dedup.length := by
  have hmap : (trades.map Trade.venueName) =
      (trades.map Trade.venue).map fun v => v.getD "" := by
    simp [Trade.venueName, Function.comp_def]
  have hsub : (trades.map Trade.venueName).dedup ⊆
      ((trades.map Trade.venue).dedup.map fun v => v.getD "") := by
    intro v hv
    rw [hmap] at hv
    rcases List.mem_map.1 (List.mem_dedup.1 hv) with ⟨w, hw, rfl⟩
    exact List.mem_map.2 ⟨w, List.mem_dedup.2 hw, rfl⟩
  have hle := (List.subperm_of_subset (List.nodup_dedup _) hsub).length_le
  simpa using hle

/-- The honest prints of the second outnumber those of the rogue venue. -/
def Outprinted (trades : List Trade) (rogue : String) : Prop :=
  trades.countP (fun t => decide (t.venueName = rogue)) <
    trades.countP fun t => !decide (t.venueName = rogue)

instance (trades : List Trade) (rogue : String) : Decidable (Outprinted trades rogue) :=
  inferInstanceAs (Decidable (_ < _))

lemma outprinted_iff (trades : List Trade) (rogue : String) :
    Outprinted trades rogue ↔
      trades.length < 2 * trades.countP fun t => !decide (t.venueName = rogue) := by
  have hsplit : trades.length = trades.countP (fun t => decide (t.venueName = rogue)) +
      trades.countP fun t => !decide (t.venueName = rogue) := by
    simpa using List.length_eq_countP_add_countP (fun t : Trade => decide (t.venueName = rogue))
  unfold Outprinted
  omega

/-- Survivors without the venue are among the prints of the others. -/
lemma length_le_countP_others {venue : String}
    (hnone : ∀ t ∈ keptIn p consolidated sec, t.venueName ≠ venue) :
    (keptIn p consolidated sec).length ≤
      (secondTrades p consolidated sec).countP fun t => !decide (t.venueName = venue) := by
  have hall : (keptIn p consolidated sec).countP (fun t => !decide (t.venueName = venue)) =
      (keptIn p consolidated sec).length :=
    List.countP_eq_length.2 fun t ht => by simpa using hnone t ht
  rw [← hall]
  exact keptIn_sublist.countP_le

/-- Outprinted honestly, a rogue venue is beyond the threshold of the filter. -/
lemma not_kept_of_outprinted (hK : 0 ≤ p.madK) (hab : a ≤ b)
    (hengage : Engages (secondTrades p consolidated sec) p.minVenuesForFilter)
    (hhonest : ∀ t ∈ secondTrades p consolidated sec, t.venueName ≠ rogue →
      a ≤ t.price ∧ t.price ≤ b)
    (hfar : ∀ t ∈ secondTrades p consolidated sec, t.venueName = rogue →
      rogueMargin p.madK a b < distanceTo a b t.price)
    (hout : Outprinted (secondTrades p consolidated sec) rogue) :
    ∀ t ∈ keptIn p consolidated sec, t.venueName ≠ rogue := by
  -- The honest prints alone are a majority inside `[a, b]`.
  have hmajority : Majority (secondTrades p consolidated sec) a b := by
    have hcount : (secondTrades p consolidated sec).countP
        (fun t => !decide (t.venueName = rogue)) ≤
        (secondTrades p consolidated sec).countP
          fun t => decide (a ≤ t.price ∧ t.price ≤ b) := by
      apply List.countP_mono_left
      intro t ht hvenue
      simpa using hhonest t ht (by simpa using hvenue)
    exact lt_of_lt_of_le ((outprinted_iff _ _).1 hout) (Nat.mul_le_mul_left 2 hcount)
  intro t ht hvenue
  have hmem := (mem_robustFilter_iff hengage).1 ht
  have hmed := median_mem_of_majority hmajority.prices
  have hdev : distanceTo a b t.price ≤ rogueMargin p.madK a b := by
    calc
      distanceTo a b t.price ≤ deviation (secondTrades p consolidated sec) t :=
        distanceTo_le_abs_sub hmed.1 hmed.2
      _ ≤ filterThresh (secondTrades p consolidated sec) p.madK := hmem.2
      _ ≤ breakdownBound p.madK a b := filterThresh_le hK hmajority
      _ ≤ rogueMargin p.madK a b := breakdownBound_le_rogueMargin hK hab
  exact absurd (hfar t hmem.1 hvenue) (not_lt.2 hdev)

/-- As many prints as the other venues together, each farther from the middle price than every
print of the others, by a factor of `k / (2 - k)`; for `k` of two or more there is no such venue. -/
def EvenlyMatched (trades : List Trade) (rogue : String) (k : ℚ) : Prop :=
  trades.countP (fun t => decide (t.venueName = rogue)) =
      trades.countP (fun t => !decide (t.venueName = rogue)) ∧
    ∀ t ∈ trades, t.venueName = rogue → ∀ u ∈ trades, u.venueName ≠ rogue →
      k * deviation trades u < (2 - k) * deviation trades t

lemma length_eq_two_mul_of_tie {trades : List Trade}
    (htie : trades.countP (fun t => decide (t.venueName = rogue)) =
      trades.countP fun t => !decide (t.venueName = rogue)) :
    trades.length = 2 * trades.countP fun t => !decide (t.venueName = rogue) := by
  have hsplit : trades.length = trades.countP (fun t => decide (t.venueName = rogue)) +
      trades.countP fun t => !decide (t.venueName = rogue) := by
    simpa using List.length_eq_countP_add_countP (fun t : Trade => decide (t.venueName = rogue))
  omega

lemma countP_absDevs (trades : List Trade) (q : ℚ → Bool) :
    (absDevs trades).countP q = trades.countP fun t => q (deviation trades t) := by
  rw [absDevs, List.map_map, List.countP_map]
  rfl

/-- A MAD of zero is the degenerate spread: one price has a strict majority. -/
lemma majority_of_mad_le_zero {trades : List Trade} (hne : trades ≠ [])
    (hmad : mad (trades.map Trade.price) ≤ 0) :
    Majority trades (median (trades.map Trade.price)) (median (trades.map Trade.price)) := by
  have hzero : mad (trades.map Trade.price) = 0 :=
    le_antisymm hmad (mad_nonneg (by simpa using hne))
  have hcount := length_lt_two_mul_countP_le_two_mul_median (absDevs_ne_nil hne)
    (absDevs_nonneg trades)
  rw [median_absDevs, hzero, mul_zero, length_absDevs, countP_absDevs] at hcount
  refine lt_of_lt_of_le hcount (Nat.mul_le_mul_left 2 (List.countP_mono_left ?_))
  intro t _ ht
  have hdev : deviation trades t ≤ 0 := by simpa using ht
  have hequal : t.price = median (trades.map Trade.price) :=
    sub_eq_zero.1 (abs_nonpos_iff.1 hdev)
  simp [hequal]

/-- A majority at one price makes the spread degenerate. -/
lemma filterThresh_of_majority {trades : List Trade} {madK c : ℚ} (h : Majority trades c c) :
    median (trades.map Trade.price) = c ∧ filterThresh trades madK = relThresh c := by
  have hmed := median_mem_of_majority h.prices
  have hmedian : median (trades.map Trade.price) = c := le_antisymm hmed.2 hmed.1
  have hmad : mad (trades.map Trade.price) ≤ 0 := by
    have hwidth := mad_le_of_majority h.prices
    rwa [sub_self] at hwidth
  refine ⟨hmedian, ?_⟩
  rw [filterThresh, if_pos hmad, hmedian]

/-- With half of the prints off the middle price, it has no majority. -/
lemma mad_pos_of_tie {trades : List Trade} (hne : trades ≠ [])
    (htie : trades.countP (fun t => decide (t.venueName = rogue)) =
      trades.countP fun t => !decide (t.venueName = rogue))
    (hoff : ∀ t ∈ trades, t.venueName = rogue → 0 < deviation trades t) :
    0 < mad (trades.map Trade.price) := by
  by_contra hmad
  have hmajority := majority_of_mad_le_zero hne (not_lt.1 hmad)
  have hothers : trades.countP (fun t => decide (median (trades.map Trade.price) ≤ t.price ∧
      t.price ≤ median (trades.map Trade.price))) ≤
        trades.countP fun t => !decide (t.venueName = rogue) := by
    refine List.countP_mono_left fun t ht hmid => ?_
    have hequal : t.price = median (trades.map Trade.price) := by
      have hmid' : median (trades.map Trade.price) ≤ t.price ∧
          t.price ≤ median (trades.map Trade.price) := by simpa using hmid
      exact le_antisymm hmid'.2 hmid'.1
    by_contra hvenue
    have hdev := hoff t ht (by simpa using hvenue)
    rw [deviation, hequal, sub_self, abs_zero] at hdev
    exact lt_irrefl _ hdev
  have hlen := length_eq_two_mul_of_tie htie
  unfold Majority at hmajority
  omega

/-- An evenly matched print is off the middle price. -/
lemma EvenlyMatched.deviation_pos {trades : List Trade} {k : ℚ} (hk : 0 < k)
    (h : EvenlyMatched trades rogue k) {t : Trade} (ht : t ∈ trades)
    (hvenue : t.venueName = rogue) : 0 < deviation trades t := by
  have hsome : 0 < trades.countP fun u => !decide (u.venueName = rogue) := by
    rw [← h.1]
    exact List.countP_pos_iff.2 ⟨t, ht, by simp [hvenue]⟩
  rcases List.countP_pos_iff.1 hsome with ⟨u, hu, hother⟩
  have hlt := h.2 t ht hvenue u hu (by simpa using hother)
  refine lt_of_le_of_ne (abs_nonneg _) ?_
  intro hzero
  rw [deviation, ← hzero, mul_zero] at hlt
  exact absurd hlt (not_lt.2 (mul_nonneg hk.le (abs_nonneg _)))

/-- In an even match the MAD is below the mean of the distance of a rogue print and that of the
farthest other print. -/
lemma EvenlyMatched.mul_mad_lt {trades : List Trade} {k : ℚ} (hk : 1 ≤ k)
    (h : EvenlyMatched trades rogue k) {t : Trade} (ht : t ∈ trades)
    (hvenue : t.venueName = rogue) :
    k * mad (trades.map Trade.price) < deviation trades t := by
  have hlen := length_eq_two_mul_of_tie h.1
  have hkpos : 0 < k := lt_of_lt_of_le one_pos hk
  have hnear : ∀ u ∈ trades, u.venueName ≠ rogue →
      deviation trades u < (2 - k) / k * deviation trades t := by
    intro u hu hother
    rw [div_mul_eq_mul_div, lt_div_iff₀ hkpos, mul_comm]
    exact h.2 t ht hvenue u hu hother
  have hfactor : (2 - k) / k * deviation trades t ≤ deviation trades t := by
    refine mul_le_of_le_one_left (abs_nonneg _) ((div_le_one hkpos).2 ?_)
    linarith
  -- The other prints are the nearer half, and `t` is one more at or below its own distance.
  have hhalf : trades.countP (fun u => !decide (u.venueName = rogue)) ≤
      (absDevs trades).countP (· < (2 - k) / k * deviation trades t) := by
    rw [countP_absDevs]
    refine List.countP_mono_left fun u hu hother => ?_
    simpa using hnear u hu (by simpa using hother)
  have hmore : trades.countP (fun u => !decide (u.venueName = rogue)) <
      (absDevs trades).countP (· ≤ deviation trades t) := by
    rw [countP_absDevs]
    refine countP_lt_countP ?_ ht (by simp [hvenue]) (by simp)
    intro u hu hother
    simpa using (lt_of_lt_of_le (hnear u hu (by simpa using hother)) hfactor).le
  have hmad : mad (trades.map Trade.price) <
      ((2 - k) / k * deviation trades t + deviation trades t) / 2 := by
    rw [← length_absDevs] at hlen
    rw [← median_absDevs]
    refine median_lt_mean ?_ ?_ ?_
    · omega
    · omega
    · omega
  calc
    k * mad (trades.map Trade.price)
        < k * (((2 - k) / k * deviation trades t + deviation trades t) / 2) :=
          mul_lt_mul_of_pos_left hmad hkpos
    _ = deviation trades t := by
        field_simp
        ring

/-- An evenly matched venue is beyond the threshold. -/
lemma not_kept_of_evenlyMatched (hK : 1 ≤ p.madK * madToSigma)
    (hengage : Engages (secondTrades p consolidated sec) p.minVenuesForFilter)
    (heven : EvenlyMatched (secondTrades p consolidated sec) rogue (p.madK * madToSigma)) :
    ∀ t ∈ keptIn p consolidated sec, t.venueName ≠ rogue := by
  intro t ht hvenue
  rcases (mem_robustFilter_iff hengage).1 ht with ⟨hmem, hkept⟩
  have hmad : 0 < mad ((secondTrades p consolidated sec).map Trade.price) :=
    mad_pos_of_tie (List.ne_nil_of_mem hmem) heven.1 fun s hs hrogue =>
      heven.deviation_pos (lt_of_lt_of_le one_pos hK) hs hrogue
  have hlt := heven.mul_mad_lt hK hmem hvenue
  rw [← filterThresh_of_mad_pos hmad] at hlt
  exact absurd hkept (not_le.2 hlt)

/-- At least half of the prints survive, so where the prints of a venue that makes up half of them
do not, all others do. -/
lemma others_kept (hK : 1 ≤ p.madK * madToSigma)
    (hengage : Engages (secondTrades p consolidated sec) p.minVenuesForFilter)
    (htie : (secondTrades p consolidated sec).countP (fun t => decide (t.venueName = rogue)) =
      (secondTrades p consolidated sec).countP fun t => !decide (t.venueName = rogue))
    (hdropped : ∀ t ∈ secondTrades p consolidated sec, t.venueName = rogue →
      filterThresh (secondTrades p consolidated sec) p.madK <
        deviation (secondTrades p consolidated sec) t) :
    ∀ u ∈ secondTrades p consolidated sec, u.venueName ≠ rogue →
      deviation (secondTrades p consolidated sec) u ≤
        filterThresh (secondTrades p consolidated sec) p.madK := by
  intro u hu hother
  by_contra hfar
  have hlen := length_eq_two_mul_of_tie htie
  have hhalf : (secondTrades p consolidated sec).length ≤
      2 * (keptIn p consolidated sec).length := length_le_two_mul_kept _ hK
  have hlt : (keptIn p consolidated sec).length <
      (secondTrades p consolidated sec).countP fun t => !decide (t.venueName = rogue) := by
    rw [keptIn, length_robustFilter hengage, countP_absDevs]
    refine countP_lt_countP ?_ hu (by simpa using hfar) (by simpa using hother)
    intro t ht hin
    by_contra hvenue
    have hout := hdropped t ht (by simpa using hvenue)
    exact absurd hout (not_lt.2 (by simpa using hin))
  omega

/-- With half of the prints beyond the threshold, the MAD is at least the mean of the threshold and
the distance of any other print. -/
lemma mean_le_mad {trades : List Trade} {madK : ℚ}
    (htie : trades.countP (fun t => decide (t.venueName = rogue)) =
      trades.countP fun t => !decide (t.venueName = rogue))
    (hdropped : ∀ t ∈ trades, t.venueName = rogue → filterThresh trades madK < deviation trades t)
    {u : Trade} (hu : u ∈ trades) (hother : u.venueName ≠ rogue)
    (hkept : deviation trades u ≤ filterThresh trades madK) :
    (deviation trades u + filterThresh trades madK) / 2 ≤ mad (trades.map Trade.price) := by
  have hlen := length_eq_two_mul_of_tie htie
  -- The venue's prints are the farther half, and `u` is one more at or above its own distance.
  have hhalf : trades.countP (fun s => decide (s.venueName = rogue)) ≤
      (absDevs trades).countP (filterThresh trades madK ≤ ·) := by
    rw [countP_absDevs]
    refine List.countP_mono_left fun s hs hrogue => ?_
    simpa using (hdropped s hs (by simpa using hrogue)).le
  have hmore : trades.countP (fun s => decide (s.venueName = rogue)) <
      (absDevs trades).countP (deviation trades u ≤ ·) := by
    rw [countP_absDevs]
    refine countP_lt_countP ?_ hu (by simpa using hother) (by simp)
    intro s hs hrogue
    simpa using le_trans hkept (hdropped s hs (by simpa using hrogue)).le
  rw [← length_absDevs] at hlen
  rw [← median_absDevs]
  refine mean_le_median ?_ ?_ ?_
  · omega
  · omega
  · omega

/-- A venue that prints as often as all others and is dropped is evenly matched. -/
lemma evenlyMatched_of_not_kept (hK : 1 ≤ p.madK * madToSigma)
    (hengage : Engages (secondTrades p consolidated sec) p.minVenuesForFilter)
    (htie : (secondTrades p consolidated sec).countP (fun t => decide (t.venueName = rogue)) =
      (secondTrades p consolidated sec).countP fun t => !decide (t.venueName = rogue))
    (hnone : ∀ t ∈ keptIn p consolidated sec, t.venueName ≠ rogue) :
    EvenlyMatched (secondTrades p consolidated sec) rogue (p.madK * madToSigma) := by
  have hdropped : ∀ t ∈ secondTrades p consolidated sec, t.venueName = rogue →
      filterThresh (secondTrades p consolidated sec) p.madK <
        deviation (secondTrades p consolidated sec) t := by
    intro t ht hvenue
    by_contra hnear
    exact hnone t ((mem_robustFilter_iff hengage).2 ⟨ht, not_lt.1 hnear⟩) hvenue
  refine ⟨htie, ?_⟩
  intro t ht hvenue u hu hother
  -- A multiplier of two would keep more than half.
  have htwo : p.madK * madToSigma < 2 := by
    by_contra hK2
    have hlen := length_eq_two_mul_of_tie htie
    have hmajority := length_lt_two_mul_kept (List.ne_nil_of_mem ht) hengage (not_lt.1 hK2)
    have hothers : (keptIn p consolidated sec).length ≤ _ := length_le_countP_others hnone
    unfold keptIn at hothers
    omega
  have hkept := others_kept hK hengage htie hdropped u hu hother
  have hmad : 0 < mad ((secondTrades p consolidated sec).map Trade.price) :=
    mad_pos_of_tie (List.ne_nil_of_mem ht) htie fun s hs hrogue =>
      lt_of_le_of_lt (le_trans (abs_nonneg _) hkept) (hdropped s hs hrogue)
  have hbound : p.madK * madToSigma * deviation (secondTrades p consolidated sec) u ≤
      (2 - p.madK * madToSigma) * filterThresh (secondTrades p consolidated sec) p.madK := by
    have hscaled := mul_le_mul_of_nonneg_left (mean_le_mad htie hdropped hu hother hkept)
      (le_trans zero_le_one hK)
    rw [← filterThresh_of_mad_pos hmad] at hscaled
    linarith
  refine lt_of_le_of_lt hbound ?_
  exact mul_lt_mul_of_pos_left (hdropped t ht hvenue) (by linarith)

end Rogue

/-- When the tape of a second withstands one rogue venue.  Being outprinted excludes the venue under
every multiplier that is not negative; from one on it is excluded exactly if it is outprinted or
evenly matched; and a negative multiplier drops all prints unless most of them share one price. -/
theorem rogue_excluded_iff (p : AggParams) (nowNs : Int) (consolidated : List Trade) (sec : Int)
    (rogue : String) (a b : ℚ)
    (hindex : p.venuesIndex = none ∨
      ∃ vs, rogue ∈ vs ∧ p.venuesIndex = some (venueBitmaskIndex vs))
    (hvenues : max 3 p.minVenuesForFilter ≤
      (((secondTrades p consolidated sec).map Trade.venueName).dedup.length : Int))
    (hab : a ≤ b)
    (hhonest : ∀ t ∈ secondTrades p consolidated sec, t.venueName ≠ rogue →
      a ≤ t.price ∧ t.price ≤ b)
    (hfar : ∀ t ∈ secondTrades p consolidated sec, t.venueName = rogue →
      rogueMargin p.madK a b < distanceTo a b t.price) :
    (0 ≤ p.madK → Outprinted (secondTrades p consolidated sec) rogue →
        TapeIntactIn p nowNs consolidated sec rogue a b) ∧
      (1 ≤ p.madK * madToSigma →
        (TapeIntactIn p nowNs consolidated sec rogue a b ↔
          Outprinted (secondTrades p consolidated sec) rogue ∨
            EvenlyMatched (secondTrades p consolidated sec) rogue (p.madK * madToSigma))) ∧
      (p.madK < 0 →
        (TapeIntactIn p nowNs consolidated sec rogue a b ↔
          ∀ c, Majority (secondTrades p consolidated sec) c c →
            ∀ t ∈ secondTrades p consolidated sec, t.venueName = rogue →
              relThresh c < |t.price - c|)) := by
  have hengage : Engages (secondTrades p consolidated sec) p.minVenuesForFilter := by
    have hnames := length_dedup_venueName_le (secondTrades p consolidated sec)
    exact le_trans (le_trans (le_max_right _ _) hvenues) (by exact_mod_cast hnames)
  have hne : secondTrades p consolidated sec ≠ [] := by
    intro hnil
    rw [hnil] at hvenues
    exact absurd (le_trans (le_max_left _ _) hvenues) (by simp)
  rw [tapeIntact_iff hindex hhonest]
  refine ⟨?_, ?_, ?_⟩
  · intro hK hout
    exact not_kept_of_outprinted hK hab hengage hhonest hfar hout
  · intro hK
    have hK' : 0 ≤ p.madK := (pos_of_mul_pos_left (lt_of_lt_of_le one_pos hK) madToSigma_pos.le).le
    constructor
    · intro hnone
      -- At least half of the prints survive, all of other venues.
      have hhalf : (secondTrades p consolidated sec).length ≤
          2 * (keptIn p consolidated sec).length := length_le_two_mul_kept _ hK
      have hothers := length_le_countP_others hnone
      by_cases hout : Outprinted (secondTrades p consolidated sec) rogue
      · exact Or.inl hout
      · refine Or.inr (evenlyMatched_of_not_kept hK hengage ?_ hnone)
        have hsplit : (secondTrades p consolidated sec).length = _ :=
          List.length_eq_countP_add_countP (fun t : Trade => decide (t.venueName = rogue))
        simp only [Bool.decide_eq_true, decide_not] at hsplit
        unfold Outprinted at hout
        omega
    · rintro (hout | heven)
      · exact not_kept_of_outprinted hK' hab hengage hhonest hfar hout
      · exact not_kept_of_evenlyMatched hK hengage heven
  · intro hK
    constructor
    · intro hnone c hmajority t ht hvenue
      by_contra hnear
      rcases filterThresh_of_majority hmajority with ⟨hmed, hthresh⟩
      refine hnone t ((mem_robustFilter_iff hengage).2 ⟨ht, ?_⟩) hvenue
      rw [deviation, hmed, hthresh]
      exact not_lt.1 hnear
    · intro hcond t ht hvenue
      rcases (mem_robustFilter_iff hengage).1 ht with ⟨hmem, hkept⟩
      by_cases hmad : mad ((secondTrades p consolidated sec).map Trade.price) ≤ 0
      · have hfar' := hcond _ (majority_of_mad_le_zero hne hmad) t hmem hvenue
        rw [filterThresh, if_pos hmad] at hkept
        exact absurd hkept (not_le.2 hfar')
      · -- The threshold is negative.
        have hneg : filterThresh (secondTrades p consolidated sec) p.madK < 0 := by
          rw [filterThresh_of_mad_pos (not_le.1 hmad)]
          exact mul_neg_of_neg_of_pos (mul_neg_of_neg_of_pos hK madToSigma_pos) (not_le.1 hmad)
        exact absurd (le_trans (abs_nonneg _) hkept) (not_le.2 hneg)

/-- One print each from two honest venues at 100, and `n` prints at 200 from a third venue. -/
def rogueSecond (n : ℕ) : List Trade :=
  { tsNs := 0, venue := some "kraken", price := 100, size := some 1 } ::
    { tsNs := 1, venue := some "okx", price := 100, size := some 1 } ::
      List.replicate n { tsNs := 2, venue := some "gemini", price := 200, size := some 1 }

theorem rogue_excluded_single :
    ∃ bar ∈ (buildAggBars { symbol := "BTC-USD" } 0 (rogueSecond 1)).1, bar.tsNs = 0 ∧
      TapeIntact ((usedIndex { symbol := "BTC-USD" } (rogueSecond 1)).getD "gemini" 0) 100 100
        bar := by
  have hintact := (rogue_excluded_iff { symbol := "BTC-USD" } 0 (rogueSecond 1) 0 "gemini" 100 100
    (Or.inl rfl) (by decide +kernel) (le_refl _) (by decide +kernel) (by decide +kernel)).1
    (by decide +kernel) (by decide +kernel)
  have hbar : ∃ bar ∈ (buildAggBars { symbol := "BTC-USD" } 0 (rogueSecond 1)).1,
      bar.tsNs = 0 := by
    decide +kernel
  rcases hbar with ⟨bar, hmem, hts⟩
  exact ⟨bar, hmem, hts, hintact bar hmem hts⟩

/-- Three prints are enough: the two honest venues are dropped and the rogue one makes the bar. -/
theorem rogue_captures_tape :
    max 3 3 ≤ (((secondTrades { symbol := "BTC-USD" } (rogueSecond 3) 0).map
        Trade.venueName).dedup.length : Int) ∧
      (∀ t ∈ secondTrades { symbol := "BTC-USD" } (rogueSecond 3) 0, t.venueName ≠ "gemini" →
        100 ≤ t.price ∧ t.price ≤ 100) ∧
      (∀ t ∈ secondTrades { symbol := "BTC-USD" } (rogueSecond 3) 0, t.venueName = "gemini" →
        rogueMargin 5 100 100 < distanceTo 100 100 t.price) ∧
      ∃ bar ∈ (buildAggBars { symbol := "BTC-USD" } 0 (rogueSecond 3)).1, bar.tsNs = 0 ∧
        bar.sourcesMask &&&
          (usedIndex { symbol := "BTC-USD" } (rogueSecond 3)).getD "gemini" 0 ≠ 0 ∧
        100 < bar.open ∧ 100 < bar.high ∧ 100 < bar.low ∧ 100 < bar.close ∧ 100 < bar.vwap := by
  decide +kernel

end CryptoData
