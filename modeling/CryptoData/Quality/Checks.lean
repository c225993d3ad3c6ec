import CryptoData.Core.Summary

/-!
# Checks — the bar checks of the quality report

Each check counts the rows that break a rule, and yields an `Issue` for a count that is not zero.
`checkBarOhlcInvariants_eq_nil_iff` and `checkBarTimestamps_eq_nil_iff` say which bars pass; the
bars of both builders do (`builders_satisfy_checkers`).
-/

namespace CryptoData

open Foundation

/-! ## Issues -/

inductive Severity
  | info
  | minor
  | major
  | critical
  deriving DecidableEq, Repr

structure Issue where
  check : String
  severity : Severity
  count : ℕ
  detail : String
  sample : List ℚ := []
  deriving DecidableEq, Repr

/-- `if n: yield Issue(check, severity, n, detail)`. -/
def issueIf (check : String) (severity : Severity) (n : ℕ) (detail : String) : List Issue :=
  if n = 0 then [] else [⟨check, severity, n, detail, []⟩]

/-- An issue that such a line yields. -/
lemma eq_of_mem_issueIf {check : String} {severity : Severity} {n : ℕ} {detail : String}
    {issue : Issue} (h : issue ∈ issueIf check severity n detail) :
    issue = ⟨check, severity, n, detail, []⟩ := by
  by_cases hn : n = 0
  · rw [issueIf, if_pos hn] at h
    cases h
  · rw [issueIf, if_neg hn] at h
    exact List.mem_singleton.1 h

lemma exists_mem_issueIf {check : String} {severity : Severity} {n : ℕ} {detail : String}
    (hn : n ≠ 0) : ∃ issue ∈ issueIf check severity n detail, issue.check = check := by
  rw [issueIf, if_neg hn]
  exact ⟨_, List.mem_singleton_self _, rfl⟩

@[simp] lemma issueIf_eq_nil_iff {check : String} {severity : Severity} {n : ℕ} {detail : String} :
    issueIf check severity n detail = [] ↔ n = 0 := by
  by_cases h : n = 0 <;> simp [issueIf, h]

/-! ## Prices, volume and vwap -/

/-- The slack `1e-9` of the comparisons of prices. -/
def priceTol : ℚ := 1 / 1000000000

/-- The slack `1e-6` of the comparison of vwap. -/
def vwapTol : ℚ := 1 / 1000000

/-- `check_bar_ohlc_invariants(bars)`. -/
def checkBarOhlcInvariants (bars : List Bar) : List Issue :=
  if bars.isEmpty then
    []
  else
    let badHi := bars.countP fun b => !decide (b.high ≥ max b.open b.close - priceTol)
    let badLo := bars.countP fun b => !decide (b.low ≤ min b.open b.close + priceTol)
    let badHl := bars.countP fun b => !decide (b.high ≥ b.low - priceTol)
    let negV := bars.countP fun b => decide (b.volume < 0)
    let badVwap := bars.countP fun b =>
      decide (b.vwap < b.low - vwapTol) || decide (b.vwap > b.high + vwapTol)
    let nonposPx := bars.countP fun b =>
      [b.open, b.high, b.low, b.close].any fun px => decide (px ≤ 0)
    issueIf "bar.high_below_body" .major badHi "high < max(open, close) — impossible OHLC" ++
    issueIf "bar.low_above_body" .major badLo "low > min(open, close) — impossible OHLC" ++
    issueIf "bar.high_below_low" .critical badHl "high < low — impossible OHLC" ++
    issueIf "bar.negative_volume" .critical negV "volume < 0" ++
    issueIf "bar.vwap_outside_hl" .major badVwap
      "vwap outside [low, high] — bad weighting or corrupt bar" ++
    issueIf "bar.nonpositive_price" .critical nonposPx "price <= 0 in a bar"

/-- What the first check wants of a bar. -/
structure Bar.InvariantsOk (b : Bar) : Prop where
  body_le_high : max b.open b.close - priceTol ≤ b.high
  low_le_body : b.low ≤ min b.open b.close + priceTol
  low_le_high : b.low - priceTol ≤ b.high
  volume : 0 ≤ b.volume
  low_le_vwap : b.low - vwapTol ≤ b.vwap
  vwap_le_high : b.vwap ≤ b.high + vwapTol
  positive : 0 < b.open ∧ 0 < b.high ∧ 0 < b.low ∧ 0 < b.close

/-- The check is silent exactly on bars that all meet the invariants. -/
theorem checkBarOhlcInvariants_eq_nil_iff {bars : List Bar} :
    checkBarOhlcInvariants bars = [] ↔ ∀ b ∈ bars, b.InvariantsOk := by
  cases bars with
  | nil => simp [checkBarOhlcInvariants]
  | cons first rest =>
      simp only [checkBarOhlcInvariants, List.isEmpty_cons, Bool.false_eq_true, if_false,
        List.append_eq_nil_iff, issueIf_eq_nil_iff, List.countP_eq_zero]
      constructor
      · rintro ⟨⟨⟨⟨⟨hhigh, hlow⟩, hrange⟩, hvolume⟩, hvwap⟩, hprice⟩ b hb
        have hv := hvwap b hb
        have hp := hprice b hb
        simp only [List.any_cons, List.any_nil, Bool.or_eq_true, decide_eq_true_eq, not_or,
          not_lt, not_le, Bool.false_eq_true, not_false_iff, and_true] at hv hp
        exact
          { body_le_high := by simpa using hhigh b hb
            low_le_body := by simpa using hlow b hb
            low_le_high := by simpa using hrange b hb
            volume := by simpa using hvolume b hb
            low_le_vwap := hv.1
            vwap_le_high := hv.2
            positive := hp }
      · intro h
        refine ⟨⟨⟨⟨⟨?_, ?_⟩, ?_⟩, ?_⟩, ?_⟩, ?_⟩
        · intro b hb
          simpa using (h b hb).body_le_high
        · intro b hb
          simpa using (h b hb).low_le_body
        · intro b hb
          simpa using (h b hb).low_le_high
        · intro b hb
          simpa using (h b hb).volume
        · intro b hb
          simpa using And.intro (h b hb).low_le_vwap (h b hb).vwap_le_high
        · intro b hb
          simpa using (h b hb).positive

/-! ## Timestamps -/

/-- `np.diff(ts)`. -/
def diffs (ts : List Int) : List Int :=
  List.zipWith (fun next prev => next - prev) ts.tail ts

/-- `check_bar_timestamps(bars)`. -/
def checkBarTimestamps (bars : List Bar) : List Issue :=
  let ts := bars.map Bar.tsNs
  -- Also the branch for an empty frame.
  if ts.length < 2 then
    []
  else
    let nNonmono := (diffs ts).countP fun d => decide (d < 0)
    let nDups := (diffs ts).countP fun d => decide (d = 0)
    let offGrid := ts.countP fun t => decide (t % nsPerSec ≠ 0)
    issueIf "bar.timestamps_out_of_order" .major nNonmono
      "bar ts_ns not monotonically increasing" ++
    issueIf "bar.duplicate_timestamps" .major nDups "two bars share the same ts_ns" ++
    issueIf "bar.timestamp_off_second_grid" .minor offGrid
      "bar ts_ns not aligned to a whole second"

/-- What holds of all differences holds of all neighbours. -/
lemma forall_mem_diffs_iff {p : Int → Prop} :
    ∀ ts : List Int, (∀ d ∈ diffs ts, p d) ↔ ts.IsChain fun s t => p (t - s)
  | [] => by simp [diffs]
  | [t] => by simp [diffs]
  | t :: u :: ts => by
      have hcons : diffs (t :: u :: ts) = (u - t) :: diffs (u :: ts) := rfl
      rw [hcons, List.forall_mem_cons, forall_mem_diffs_iff (u :: ts), List.isChain_cons_cons]

/-- All differences are positive exactly if the list increases. -/
lemma diffs_pos_iff (ts : List Int) : (∀ d ∈ diffs ts, 0 < d) ↔ ts.Pairwise (· < ·) := by
  rw [forall_mem_diffs_iff, ← List.isChain_iff_pairwise]
  simp only [sub_pos]

/-- No difference is negative exactly if the list does not fall anywhere. -/
lemma diffs_nonneg_iff (ts : List Int) : (∀ d ∈ diffs ts, 0 ≤ d) ↔ ts.Pairwise (· ≤ ·) := by
  rw [forall_mem_diffs_iff, ← List.isChain_iff_pairwise]
  simp only [sub_nonneg]

lemma countP_falls_eq_zero {ts : List Int} (h : ts.Pairwise (· ≤ ·)) :
    (diffs ts).countP (fun d => decide (d < 0)) = 0 := by
  refine List.countP_eq_zero.2 ?_
  intro d hd hneg
  exact absurd ((diffs_nonneg_iff ts).2 h d hd) (not_le.2 (of_decide_eq_true hneg))

/-- With two bars or more, the check is silent exactly on increasing, whole seconds. -/
theorem checkBarTimestamps_eq_nil_iff {bars : List Bar} (hlen : 2 ≤ bars.length) :
    checkBarTimestamps bars = [] ↔
      (bars.map Bar.tsNs).Pairwise (· < ·) ∧ ∀ b ∈ bars, b.tsNs % nsPerSec = 0 := by
  have hmany : ¬ (bars.map Bar.tsNs).length < 2 := by
    rw [List.length_map]
    omega
  simp only [checkBarTimestamps, hmany, if_false, List.append_eq_nil_iff, issueIf_eq_nil_iff,
    List.countP_eq_zero, decide_eq_true_eq, not_not]
  rw [← diffs_pos_iff, List.forall_mem_map]
  constructor
  · rintro ⟨⟨hmono, hdup⟩, hgrid⟩
    refine ⟨?_, hgrid⟩
    intro d hd
    have hne := hdup d hd
    have hnonneg := hmono d hd
    omega
  · rintro ⟨hpos, hgrid⟩
    refine ⟨⟨?_, ?_⟩, hgrid⟩
    · intro d hd
      exact not_lt.2 (hpos d hd).le
    · intro d hd
      exact (hpos d hd).ne'

/-! ## The builders -/

/-- The rules behind the two checks, without their slack. -/
structure SoundBars (bars : List Bar) : Prop where
  within : ∀ b ∈ bars, (b.low ≤ b.open ∧ b.open ≤ b.high) ∧ (b.low ≤ b.close ∧ b.close ≤ b.high) ∧
    (b.low ≤ b.vwap ∧ b.vwap ≤ b.high)
  positive : ∀ b ∈ bars, 0 < b.open ∧ 0 < b.high ∧ 0 < b.low ∧ 0 < b.close
  volume : ∀ b ∈ bars, 0 ≤ b.volume
  increasing : (bars.map Bar.tsNs).Pairwise (· < ·)
  onGrid : ∀ b ∈ bars, b.tsNs % nsPerSec = 0

namespace SoundBars

variable {bars : List Bar}

theorem checkBarOhlcInvariants_eq_nil (h : SoundBars bars) : checkBarOhlcInvariants bars = [] := by
  have hprice : 0 ≤ priceTol := by decide +kernel
  have hvwap : 0 ≤ vwapTol := by decide +kernel
  refine checkBarOhlcInvariants_eq_nil_iff.2 ?_
  intro b hb
  rcases h.within b hb with ⟨⟨hlo, hoh⟩, ⟨hlc, hch⟩, hlv, hvh⟩
  exact
    { body_le_high := le_trans (sub_le_self _ hprice) (max_le hoh hch)
      low_le_body := le_trans (le_min hlo hlc) (le_add_of_nonneg_right hprice)
      low_le_high := le_trans (sub_le_self _ hprice) (le_trans hlo hoh)
      volume := h.volume b hb
      low_le_vwap := le_trans (sub_le_self _ hvwap) hlv
      vwap_le_high := le_trans hvh (le_add_of_nonneg_right hvwap)
      positive := h.positive b hb }

theorem checkBarTimestamps_eq_nil (h : SoundBars bars) : checkBarTimestamps bars = [] := by
  by_cases hlen : 2 ≤ bars.length
  · exact (checkBarTimestamps_eq_nil_iff hlen).2 ⟨h.increasing, h.onGrid⟩
  · have hfew : (bars.map Bar.tsNs).length < 2 := by
      rw [List.length_map]
      omega
    simp only [checkBarTimestamps, hfew, if_true]

/-- Bars that summarise trades with positive prices and sizes are sound. -/
theorem of_summarises {part : Bar → List Trade}
    (hpart : ∀ b ∈ bars, Summarises Trade.price Trade.qty b.candle (part b))
    (hpos : ∀ b ∈ bars, ∀ t ∈ part b, 0 < t.price ∧ 0 < t.qty)
    (hsorted : (bars.map Bar.tsNs).Pairwise (· < ·))
    (hgrid : ∀ b ∈ bars, b.tsNs % nsPerSec = 0) : SoundBars bars where
  within := fun b hb => (hpart b hb).within fun t ht => (hpos b hb t ht).2.le
  positive := by
    intro b hb
    rcases (hpart b hb).within fun t ht => (hpos b hb t ht).2.le with
      ⟨⟨hlo, hoh⟩, ⟨hlc, _⟩, _⟩
    -- The low is the price of a trade, and everything else is at least the low.
    have hlow : 0 < b.low := by
      rcases (hpart b hb).low with ⟨t, ht, heq⟩
      have hprice := (hpos b hb t ht).1
      rw [← heq] at hprice
      exact hprice
    have hopen : 0 < b.open := lt_of_lt_of_le hlow hlo
    exact ⟨hopen, lt_of_lt_of_le hopen hoh, hlow, lt_of_lt_of_le hlow hlc⟩
  volume := by
    intro b hb
    have hvolume : b.volume = ((part b).map Trade.qty).sum := (hpart b hb).volume
    rw [hvolume]
    refine List.sum_nonneg ?_
    intro q hq
    rcases List.mem_map.1 hq with ⟨t, ht, rfl⟩
    exact (hpos b hb t ht).2.le
  increasing := hsorted
  onGrid := hgrid

theorem barsFromTrades (symbol venue : String) (nowNs : Int) {trades : List Trade}
    (hsorted : trades.Pairwise fun x y => x.tsNs ≤ y.tsNs)
    (hpos : ∀ t ∈ trades, 0 < t.price ∧ 0 < t.qty) :
    SoundBars (barsFromTrades symbol venue nowNs trades) := by
  refine of_summarises (summarises_of_mem_barsFromTrades symbol venue nowNs trades hsorted) ?_
    (barsFromTrades_sorted symbol venue nowNs trades hsorted) ?_
  · intro b _ t ht
    exact hpos t (List.mem_filter.1 ht).1
  · intro b hb
    rcases labels_of_mem_barsFromTrades symbol venue nowNs trades b hb with ⟨_, _, t, _, hts⟩
    rw [hts]
    exact secondOf_emod t.tsNs

theorem buildAggBars (p : AggParams) (nowNs : Int) {consolidated : List Trade}
    (hpos : ∀ t ∈ consolidated, 0 < t.price ∧ 0 < t.qty) :
    SoundBars (buildAggBars p nowNs consolidated).1 := by
  refine of_summarises (fun b hb => summarises_of_mem_buildAggBars hb) ?_ ?_ ?_
  · intro b _ t ht
    exact hpos t (mem_secondTrades_iff.1 (keptIn_sublist.subset ht)).1
  · exact (Dict.sortedKeys_sortedLT _).pairwise.sublist buildAggBars_tsNs_sublist
  · intro b hb
    rcases labels_of_mem_buildAggBars hb with ⟨_, _, t, _, hts⟩
    rw [hts]
    exact secondOf_emod t.tsNs

end SoundBars

/-- A frame of bars that both checks pass, and that is sound without their slack. -/
structure PassesChecks (bars : List Bar) : Prop where
  ohlc : checkBarOhlcInvariants bars = []
  timestamps : checkBarTimestamps bars = []
  sound : SoundBars bars

/-- The bars of both builders pass both checks. -/
theorem builders_satisfy_checkers (symbol venue : String) (p : AggParams) (nowNs : Int)
    (trades consolidated : List Trade) (hsorted : trades.Pairwise fun x y => x.tsNs ≤ y.tsNs)
    (hpos : ∀ t ∈ trades, 0 < t.price ∧ 0 < t.qty)
    (hcons : ∀ t ∈ consolidated, 0 < t.price ∧ 0 < t.qty) :
    PassesChecks (barsFromTrades symbol venue nowNs trades) ∧
      PassesChecks (buildAggBars p nowNs consolidated).1 := by
  have hbars := SoundBars.barsFromTrades symbol venue nowNs hsorted hpos
  have hagg := SoundBars.buildAggBars p nowNs hcons
  exact ⟨⟨hbars.checkBarOhlcInvariants_eq_nil, hbars.checkBarTimestamps_eq_nil, hbars⟩,
    hagg.checkBarOhlcInvariants_eq_nil, hagg.checkBarTimestamps_eq_nil, hagg⟩

theorem builders_satisfy_checkers_okx :
    PassesChecks (barsFromTrades "BTC-USD" "okx" 0
      [{ tsNs := 5, venue := some "okx", price := 100, size := some 2 },
        { tsNs := 9, venue := some "okx", price := 101, size := some 1 }]) ∧
    PassesChecks (buildAggBars { symbol := "BTC-USD" } 0
      [{ tsNs := 5, venue := some "okx", price := 100, size := some 2 },
        { tsNs := 9, venue := some "okx", price := 101, size := some 1 }]).1 := by
  have hsorted : [({ tsNs := 5, venue := some "okx", price := 100, size := some 2 } : Trade),
      { tsNs := 9, venue := some "okx", price := 101, size := some 1 }].Pairwise
        fun x y => x.tsNs ≤ y.tsNs := by decide
  have hpos : ∀ t ∈ [({ tsNs := 5, venue := some "okx", price := 100, size := some 2 } : Trade),
      { tsNs := 9, venue := some "okx", price := 101, size := some 1 }],
        0 < t.price ∧ 0 < t.qty := by decide +kernel
  exact builders_satisfy_checkers "BTC-USD" "okx" { symbol := "BTC-USD" } 0 _ _ hsorted hpos hpos

end CryptoData
