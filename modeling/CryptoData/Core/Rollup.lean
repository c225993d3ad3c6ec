import CryptoData.Core.Resample
import CryptoData.Core.Summary

/-!
# Rollup — trades to seconds to timeframes

`DirectRollUp` is the one-level specification of bars of width `T`: one bar for each window
`[kT, (k+1)T)` with a trade, and it summarises the trades of its window.  Resampling the one-second
bars of either builder meets it (`rollup_eq_direct`), with respect to all trades for the bars of a
venue, and with respect to the survivors for the bars of the tape.  Windows are counted from the
epoch; for a width that divides a day they are those counted from midnight
(`windowLabel_anchored`).
-/

namespace CryptoData

open Foundation

/-! ## The specification -/

/-- The width of the windows; the copy branch keeps the seconds. -/
def Timeframe.widthNs : Timeframe → ℕ
  | .oneSecond => 1000000000
  | .windows widthNs _ => widthNs

lemma Timeframe.widthNs_pos (timeframe : Timeframe) : 0 < timeframe.widthNs := by
  cases timeframe with
  | oneSecond => decide
  | windows widthNs pos => exact pos

/-- The trades of `[k * widthNs, (k + 1) * widthNs)`, in their order. -/
def window (widthNs : ℕ) (k : Int) (trades : List Trade) : List Trade :=
  trades.filter fun t => decide (k * widthNs ≤ t.tsNs) && decide (t.tsNs < (k + 1) * widthNs)

structure DirectRollUp (widthNs : ℕ) (trades : List Trade) (bars : List Bar) : Prop where
  increasing : (bars.map Bar.tsNs).Pairwise (· < ·)
  covers : ∀ k : Int, (∃ b ∈ bars, b.tsNs = k * widthNs) ↔ window widthNs k trades ≠ []
  summarises : ∀ b ∈ bars, ∃ k : Int, b.tsNs = k * widthNs ∧
    Summarises Trade.price Trade.qty b.candle (window widthNs k trades)

/-- The trades that `build_agg_bars` lets into a bar: admitted, and kept by the filter of their
second. -/
def survivors (p : AggParams) (consolidated : List Trade) : List Trade :=
  consolidated.filter fun t => decide (t ∈ keptIn p consolidated t.second)

/-! ## Windows -/

lemma windowLabel_eq_iff {widthNs : ℕ} (hpos : 0 < widthNs) {k ts : Int} :
    windowLabel widthNs ts = k * widthNs ↔ k * widthNs ≤ ts ∧ ts < (k + 1) * widthNs := by
  have hwidth : (0 : Int) < widthNs := by exact_mod_cast hpos
  have hlabel : windowLabel widthNs ts = k * widthNs ↔ ts / widthNs = k := by
    unfold windowLabel
    exact mul_left_inj' hwidth.ne'
  rw [hlabel]
  constructor
  · rintro rfl
    exact ⟨Int.ediv_mul_le ts hwidth.ne', Int.lt_ediv_add_one_mul_self ts hwidth⟩
  · rintro ⟨hle, hlt⟩
    refine le_antisymm ?_ ?_
    · exact Int.lt_add_one_iff.1 (Int.ediv_lt_of_lt_mul hwidth hlt)
    · exact Int.le_ediv_of_mul_le hwidth hle

lemma windowLabel_eq_label_iff {widthNs : ℕ} (hpos : 0 < widthNs) {label ts b : Int}
    (hlabel : windowLabel widthNs b = label) :
    windowLabel widthNs ts = label ↔ label ≤ ts ∧ ts < label + widthNs := by
  have hk : label = b / widthNs * widthNs := hlabel.symm
  rw [hk, windowLabel_eq_iff hpos, add_mul, one_mul]

lemma window_eq_filter {widthNs : ℕ} (hpos : 0 < widthNs) (k : Int) (trades : List Trade) :
    window widthNs k trades =
      trades.filter fun t => decide (windowLabel widthNs t.tsNs = k * widthNs) := by
  refine List.filter_congr ?_
  intro t _
  rw [← Bool.decide_and]
  exact decide_eq_decide.2 (windowLabel_eq_iff hpos).symm

/-- A window holds a finer window or does not meet it. -/
lemma windowLabel_windowLabel {fine coarse : ℕ} (hfine : 0 < fine) (hdvd : fine ∣ coarse)
    (ts : Int) : windowLabel coarse (windowLabel fine ts) = windowLabel coarse ts := by
  rcases hdvd with ⟨n, rfl⟩
  have hne : (fine : Int) ≠ 0 := by exact_mod_cast hfine.ne'
  have hnonneg : (0 : Int) ≤ fine := Int.natCast_nonneg fine
  have hdiv : windowLabel fine ts / ((fine * n : ℕ) : Int) = ts / ((fine * n : ℕ) : Int) := by
    rw [Nat.cast_mul, ← Int.ediv_ediv_of_nonneg hnonneg, ← Int.ediv_ediv_of_nonneg hnonneg]
    exact congrArg (· / (n : Int)) (Int.mul_ediv_cancel _ hne)
  unfold windowLabel at hdiv ⊢
  rw [hdiv]

lemma windowLabel_mono {widthNs : ℕ} (hpos : 0 < widthNs) {a b : Int} (h : a ≤ b) :
    windowLabel widthNs a ≤ windowLabel widthNs b := by
  have hwidth : (0 : Int) < widthNs := by exact_mod_cast hpos
  exact mul_le_mul_of_nonneg_right (Int.ediv_le_ediv hwidth h) hwidth.le

/-- A window of whole seconds holds a second or does not meet it. -/
lemma windowLabel_secondOf {widthNs T : ℕ} (hT : widthNs = T * 1000000000) (ts : Int) :
    windowLabel widthNs (secondOf ts) = windowLabel widthNs ts :=
  windowLabel_windowLabel (by decide) ⟨T, hT.trans (Nat.mul_comm T 1000000000)⟩ ts

/-- A width that divides a day has the same windows whatever UTC midnight they are anchored at. -/
theorem windowLabel_anchored {widthNs T : ℕ} (hT : widthNs = T * 1000000000) (hday : T ∣ 86400)
    (day ts : Int) :
    windowLabel widthNs ts =
      day * (86400 * nsPerSec) + windowLabel widthNs (ts - day * (86400 * nsPerSec)) := by
  rcases hday with ⟨n, hn⟩
  have hpos : (0 : Int) < widthNs := by
    have hne : T ≠ 0 := by
      rintro rfl
      rw [zero_mul] at hn
      exact absurd hn (by decide)
    omega
  -- A day is `n` windows.
  have hwindows : day * (86400 * nsPerSec) = day * n * widthNs := by
    have hcast : (86400 : Int) = T * n := by exact_mod_cast hn
    rw [hT, hcast]
    simp only [nsPerSec]
    push_cast
    ring
  unfold windowLabel
  rw [hwindows, Int.sub_mul_ediv_right _ _ hpos.ne']
  ring

/-! ## Rolling up a group of bars -/

lemma exists_rollWindow (label : Int) {group : List Bar} (hne : group ≠ []) :
    ∃ c, rollWindow label group = some c := by
  cases group with
  | nil => exact absurd rfl hne
  | cons first rest => exact ⟨_, rfl⟩

lemma rollWindow_tsNs {label : Int} {group : List Bar} {c : Bar}
    (h : rollWindow label group = some c) : c.tsNs = label := by
  cases group with
  | nil => exact absurd h (Option.some_ne_none c).symm
  | cons first rest =>
      rw [← Option.some.inj h]

/-- `_AGG` on a group is the roll-up of its candles. -/
theorem rollWindow_spec (label : Int) {group : List Bar} (hne : group ≠ [])
    (hvolume : ∀ b ∈ group, 0 ≤ b.volume) :
    ∃ c, rollWindow label group = some c ∧ c.tsNs = label ∧
      RollsCandles Bar.candle c.candle group := by
  cases group with
  | nil => exact absurd rfl hne
  | cons first rest =>
      refine ⟨_, rfl, rfl, ⟨first, rfl, rfl⟩,
        ⟨_, List.getLast?_eq_some_getLast (List.cons_ne_nil first rest), rfl⟩, ?_, ?_⟩
      · exact
          { high := exists_max_map Bar.high (by simp)
            le_high := fun b hb => List.le_max_of_mem (List.mem_map_of_mem (f := Bar.high) hb)
            low := exists_min_map Bar.low (by simp)
            low_le := fun b hb => List.min_le_of_mem (List.mem_map_of_mem (f := Bar.low) hb)
            volume := rfl
            notional := by
              simp only [Candle.totals, Bar.candle]
              by_cases hpos : ((first :: rest).map Bar.volume).sum > 0
              · rw [if_pos hpos, div_mul_cancel₀ _ hpos.ne']
              · -- Without volume every bar is empty, and both sides are zero.
                have hsum : ((first :: rest).map Bar.volume).sum = 0 := by
                  refine le_antisymm (not_lt.1 hpos) (List.sum_nonneg ?_)
                  intro v hv
                  rcases List.mem_map.1 hv with ⟨b, hb, rfl⟩
                  exact hvolume b hb
                have hzero : ((first :: rest).map fun b => b.vwap * b.volume).sum = 0 :=
                  notional_eq_zero hvolume (not_lt.1 hpos)
                rw [hzero, hsum, mul_zero]
            count := rfl }
      · intro hle
        have hle' : ¬ ((first :: rest).map Bar.volume).sum > 0 := not_lt.2 hle
        exact if_neg hle'

/-- The one-second bars of some trades: increasing, and one for each second with a trade. -/
structure SecondBars (trades : List Trade) (bars : List Bar) : Prop where
  increasing : (bars.map Bar.tsNs).Pairwise (· < ·)
  covers : ∀ t ∈ trades, ∃ b ∈ bars, b.tsNs = t.second
  summarises : ∀ b ∈ bars, Summarises Trade.price Trade.qty b.candle
    (trades.filter fun t => decide (t.second = b.tsNs))

section Resample

variable {trades : List Trade} {bars : List Bar}

lemma SecondBars.volume_nonneg (h : SecondBars trades bars) (hqty : ∀ t ∈ trades, 0 ≤ t.qty) :
    ∀ b ∈ bars, 0 ≤ b.volume := by
  intro b hb
  have hvolume : b.volume = _ := (h.summarises b hb).volume
  rw [hvolume]
  refine List.sum_nonneg ?_
  intro q hq
  rcases List.mem_map.1 hq with ⟨t, ht, rfl⟩
  exact hqty t (List.mem_filter.1 ht).1

/-- The label of a bar is the second of a trade. -/
lemma SecondBars.label (h : SecondBars trades bars) {b : Bar} (hb : b ∈ bars) :
    ∃ t ∈ trades, t.second = b.tsNs := by
  rcases (h.summarises b hb).open with ⟨t, ht, _⟩
  have hmem := List.mem_filter.1 (List.mem_of_mem_head? ht)
  exact ⟨t, hmem.1, of_decide_eq_true hmem.2⟩

lemma map_filterMap_eq_self {α β : Type*} {f : β → Option α} {g : α → β} :
    ∀ {ks : List β}, (∀ k ∈ ks, ∃ a, f k = some a ∧ g a = k) → (ks.filterMap f).map g = ks
  | [], _ => rfl
  | k :: ks, h => by
      rcases h k List.mem_cons_self with ⟨a, ha, hk⟩
      have htail := map_filterMap_eq_self fun j hj => h j (List.mem_cons_of_mem k hj)
      rw [List.filterMap_cons_some ha, List.map_cons, hk, htail]

/-- The trades behind the bars of a window are the trades of the window. -/
lemma SecondBars.flatMap_window (h : SecondBars trades bars)
    (hsorted : trades.Pairwise fun x y => x.tsNs ≤ y.tsNs) {widthNs T : ℕ}
    (hT : widthNs = T * 1000000000) (label : Int) :
    ((bars.filter fun b => decide (windowLabel widthNs b.tsNs = label)).flatMap fun b =>
        trades.filter fun t => decide (t.second = b.tsNs)) =
      trades.filter fun t => decide (windowLabel widthNs t.tsNs = label) := by
  have hseconds : trades.Pairwise fun x y => x.second ≤ y.second :=
    hsorted.imp fun hle => secondOf_mono hle
  have hkeys : ((bars.filter fun b => decide (windowLabel widthNs b.tsNs = label)).map
      Bar.tsNs).Pairwise (· < ·) :=
    h.increasing.sublist (List.filter_sublist.map Bar.tsNs)
  have hflat := flatMap_filter_eq (f := Trade.second) hseconds hkeys
  rw [List.flatMap_map] at hflat
  rw [hflat]
  refine List.filter_congr ?_
  intro t ht
  refine decide_eq_decide.2 ?_
  rw [List.mem_map]
  constructor
  · rintro ⟨b, hb, hts⟩
    have hlabel := of_decide_eq_true (List.mem_filter.1 hb).2
    rw [hts] at hlabel
    rw [← windowLabel_secondOf hT]
    exact hlabel
  · intro hlabel
    rcases h.covers t ht with ⟨b, hb, hts⟩
    refine ⟨b, List.mem_filter.2 ⟨hb, decide_eq_true ?_⟩, hts⟩
    rw [hts]
    exact (windowLabel_secondOf hT t.tsNs).trans hlabel

/-- The copy branch: a window is a second. -/
lemma SecondBars.resample_oneSecond (h : SecondBars trades bars) :
    DirectRollUp 1000000000 trades bars where
  increasing := h.increasing
  covers := by
    intro k
    rw [window_eq_filter (by decide)]
    constructor
    · rintro ⟨b, hb, hts⟩
      rcases h.label hb with ⟨t, ht, hsec⟩
      have hlabel : windowLabel 1000000000 t.tsNs = t.second := rfl
      refine List.ne_nil_of_mem (List.mem_filter.2 ⟨ht, decide_eq_true ?_⟩)
      exact hlabel.trans (hsec.trans hts)
    · intro hne
      rcases List.exists_mem_of_ne_nil _ hne with ⟨t, ht⟩
      have hmem := List.mem_filter.1 ht
      rcases h.covers t hmem.1 with ⟨b, hb, hts⟩
      exact ⟨b, hb, hts.trans (of_decide_eq_true hmem.2)⟩
  summarises := by
    intro b hb
    rcases h.label hb with ⟨t, _, hsec⟩
    have hsummary := h.summarises b hb
    rw [← hsec] at hsummary
    refine ⟨t.tsNs / nsPerSec, hsec.symm, ?_⟩
    rw [window_eq_filter (by decide)]
    exact hsummary

lemma resampleBars_windows (bars : List Bar) {widthNs : ℕ} (pos : 0 < widthNs) :
    resampleBars bars (.windows widthNs pos) =
      (bucket (fun b : Bar => windowLabel widthNs b.tsNs) bars).sortedKeys.filterMap
        fun label => rollWindow label
          (bars.filter fun b => decide (windowLabel widthNs b.tsNs = label)) := by
  simp only [resampleBars, getD_bucket]

/-- The labels of the resampled bars are those of the rows. -/
lemma resampleBars_windows_tsNs (bars : List Bar) {widthNs : ℕ} (pos : 0 < widthNs) :
    (resampleBars bars (.windows widthNs pos)).map Bar.tsNs =
      (bucket (fun b : Bar => windowLabel widthNs b.tsNs) bars).sortedKeys := by
  rw [resampleBars_windows]
  refine map_filterMap_eq_self ?_
  intro label hlabel
  rcases mem_keys_bucket.1 (Dict.mem_sortedKeys.1 hlabel) with ⟨b, hb, hbl⟩
  have hne : (bars.filter fun b => decide (windowLabel widthNs b.tsNs = label)) ≠ [] :=
    List.ne_nil_of_mem (List.mem_filter.2 ⟨hb, decide_eq_true hbl⟩)
  rcases exists_rollWindow label hne with ⟨c, hc⟩
  exact ⟨c, hc, rollWindow_tsNs hc⟩

/-- What `resample_bars` delivers: for each window with a bar, the roll-up of its bars. -/
lemma resampleBars_windows_spec {widthNs : ℕ} (pos : 0 < widthNs)
    (hvolume : ∀ b ∈ bars, 0 ≤ b.volume) :
    ∀ c ∈ resampleBars bars (.windows widthNs pos),
      RollsCandles Bar.candle c.candle
        (bars.filter fun b => decide (windowLabel widthNs b.tsNs = c.tsNs)) := by
  rw [resampleBars_windows]
  intro c hc
  rcases List.mem_filterMap.1 hc with ⟨label, hlabel, hsome⟩
  rcases mem_keys_bucket.1 (Dict.mem_sortedKeys.1 hlabel) with ⟨b, hb, hbl⟩
  have hne : (bars.filter fun b => decide (windowLabel widthNs b.tsNs = label)) ≠ [] :=
    List.ne_nil_of_mem (List.mem_filter.2 ⟨hb, decide_eq_true hbl⟩)
  rcases rollWindow_spec label hne fun b hb => hvolume b (List.mem_filter.1 hb).1 with
    ⟨c', hc', hts, hrolls⟩
  have hcc : c' = c := Option.some.inj (hc'.symm.trans hsome)
  subst hcc
  rw [hts]
  exact hrolls

lemma SecondBars.resample_windows (h : SecondBars trades bars)
    (hsorted : trades.Pairwise fun x y => x.tsNs ≤ y.tsNs) (hqty : ∀ t ∈ trades, 0 ≤ t.qty)
    {widthNs T : ℕ} (pos : 0 < widthNs) (hT : widthNs = T * 1000000000) :
    DirectRollUp widthNs trades (resampleBars bars (.windows widthNs pos)) := by
  have hlabels := resampleBars_windows_tsNs bars pos
  have hrolls := resampleBars_windows_spec pos (h.volume_nonneg hqty)
  have hmem : ∀ label, (∃ c ∈ resampleBars bars (.windows widthNs pos), c.tsNs = label) ↔
      ∃ b ∈ bars, windowLabel widthNs b.tsNs = label := by
    intro label
    rw [← List.mem_map, hlabels, Dict.mem_sortedKeys, mem_keys_bucket]
  refine ⟨?_, ?_, ?_⟩
  · rw [hlabels]
    exact (Dict.sortedKeys_sortedLT _).pairwise
  · intro k
    rw [hmem, window_eq_filter pos]
    constructor
    · rintro ⟨b, hb, hlabel⟩
      rcases h.label hb with ⟨t, ht, hsec⟩
      rw [← hsec] at hlabel
      refine List.ne_nil_of_mem (List.mem_filter.2 ⟨ht, decide_eq_true ?_⟩)
      exact (windowLabel_secondOf hT t.tsNs).symm.trans hlabel
    · intro hne
      rcases List.exists_mem_of_ne_nil _ hne with ⟨t, ht⟩
      have ht' := List.mem_filter.1 ht
      rcases h.covers t ht'.1 with ⟨b, hb, hts⟩
      refine ⟨b, hb, ?_⟩
      rw [hts]
      exact (windowLabel_secondOf hT t.tsNs).trans (of_decide_eq_true ht'.2)
  · intro c hc
    rcases (hmem c.tsNs).1 ⟨c, hc, rfl⟩ with ⟨b, _, hbl⟩
    have hlabel : c.tsNs = b.tsNs / widthNs * widthNs := hbl.symm
    refine ⟨b.tsNs / widthNs, hlabel, ?_⟩
    rw [window_eq_filter pos, ← hlabel, ← h.flatMap_window hsorted hT c.tsNs]
    refine Summarises.roll (hrolls c hc) ?_ ?_
    · intro b' hb'
      exact h.summarises b' (List.mem_filter.1 hb').1
    · intro b' _ t ht
      exact hqty t (List.mem_filter.1 ht).1

/-- Resampling the bars of the seconds is the direct roll-up. -/
theorem SecondBars.resample (h : SecondBars trades bars)
    (hsorted : trades.Pairwise fun x y => x.tsNs ≤ y.tsNs) (hqty : ∀ t ∈ trades, 0 ≤ t.qty)
    (timeframe : Timeframe) {T : ℕ} (hT : timeframe.widthNs = T * 1000000000) :
    DirectRollUp timeframe.widthNs trades (resampleBars bars timeframe) := by
  cases timeframe with
  | oneSecond => exact h.resample_oneSecond
  | windows widthNs pos => exact h.resample_windows hsorted hqty pos hT

end Resample

/-! ## The two builders -/

lemma secondBars_barsFromTrades (symbol venue : String) (nowNs : Int) {trades : List Trade}
    (hsorted : trades.Pairwise fun x y => x.tsNs ≤ y.tsNs) :
    SecondBars trades (barsFromTrades symbol venue nowNs trades) where
  increasing := barsFromTrades_sorted symbol venue nowNs trades hsorted
  covers := fun t ht =>
    (exists_mem_barsFromTrades_iff symbol venue nowNs hsorted).2 ⟨t, ht, rfl⟩
  summarises := summarises_of_mem_barsFromTrades symbol venue nowNs trades hsorted

/-- The survivors of a second, as a part of all survivors. -/
lemma filter_survivors (p : AggParams) (consolidated : List Trade) (sec : Int) :
    ((survivors p consolidated).filter fun t => decide (t.second = sec)) =
      keptIn p consolidated sec := by
  rw [survivors, keptIn, robustFilter_eq_filter_mem, secondTrades, List.filter_filter,
    List.filter_filter]
  refine List.filter_congr ?_
  intro t _
  by_cases hsec : t.second = sec
  · subst hsec
    by_cases hkept : t ∈ keptIn p consolidated t.second
    · have hadmits := (mem_secondTrades_iff.1 (keptIn_sublist.subset hkept)).2.1
      have hkept' := hkept
      unfold keptIn secondTrades at hkept'
      simp [hkept, hkept', hadmits]
    · have hkept' := hkept
      unfold keptIn secondTrades at hkept'
      simp [hkept, hkept']
  · simp [hsec]

lemma secondBars_buildAggBars (p : AggParams) (nowNs : Int) (consolidated : List Trade) :
    SecondBars (survivors p consolidated) (buildAggBars p nowNs consolidated).1 where
  increasing := (Dict.sortedKeys_sortedLT _).pairwise.sublist buildAggBars_tsNs_sublist
  covers := by
    intro t ht
    have hkept : t ∈ keptIn p consolidated t.second :=
      of_decide_eq_true (List.mem_filter.1 ht).2
    exact exists_bar_of_keptIn nowNs (List.ne_nil_of_mem hkept)
  summarises := by
    intro b hb
    rw [filter_survivors]
    exact summarises_of_mem_buildAggBars hb

/-- Trades to seconds to a timeframe is the direct roll-up, for the bars of a venue and for the
bars of the tape. -/
theorem rollup_eq_direct (symbol venue : String) (p : AggParams) (nowNs : Int)
    (timeframe : Timeframe) (T : ℕ) (hT : timeframe.widthNs = T * 1000000000)
    (trades : List Trade) (hsorted : trades.Pairwise fun x y => x.tsNs ≤ y.tsNs)
    (hqty : ∀ t ∈ trades, 0 ≤ t.qty) :
    DirectRollUp timeframe.widthNs trades
        (resampleBars (barsFromTrades symbol venue nowNs trades) timeframe) ∧
      DirectRollUp timeframe.widthNs (survivors p trades)
        (resampleBars (buildAggBars p nowNs trades).1 timeframe) := by
  refine ⟨?_, ?_⟩
  · exact (secondBars_barsFromTrades symbol venue nowNs hsorted).resample hsorted hqty timeframe hT
  · refine (secondBars_buildAggBars p nowNs trades).resample
      (hsorted.sublist List.filter_sublist) ?_ timeframe hT
    intro t ht
    exact hqty t (List.mem_filter.1 ht).1

theorem rollup_eq_direct_minute :
    DirectRollUp 60000000000
      [{ tsNs := 5000000000, venue := some "okx", price := 100, size := some 2 },
        { tsNs := 61000000000, venue := some "okx", price := 101, size := some 0 }]
      (resampleBars (barsFromTrades "BTC-USD" "okx" 0
        [{ tsNs := 5000000000, venue := some "okx", price := 100, size := some 2 },
          { tsNs := 61000000000, venue := some "okx", price := 101, size := some 0 }])
        (.windows 60000000000 (by decide))) := by
  have hsorted :
      [({ tsNs := 5000000000, venue := some "okx", price := 100, size := some 2 } : Trade),
      { tsNs := 61000000000, venue := some "okx", price := 101, size := some 0 }].Pairwise
        fun x y => x.tsNs ≤ y.tsNs := by decide
  have hqty : ∀ t ∈
      [({ tsNs := 5000000000, venue := some "okx", price := 100, size := some 2 } : Trade),
      { tsNs := 61000000000, venue := some "okx", price := 101, size := some 0 }],
        0 ≤ t.qty := by decide +kernel
  exact (rollup_eq_direct "BTC-USD" "okx" { symbol := "BTC-USD" } 0
    (.windows 60000000000 (by decide)) 60 rfl _ hsorted hqty).1

end CryptoData
