import CryptoData.Core.Consolidated.Tape
import CryptoData.Core.Summary

/-!
# Legacy — the per-second combiner of finished bars

`aggregateSecond` blends the bars that the venues made for one second; the tape is rolled up from
their trades.  Where neither path filters anything, the two differ at most in the open and the
close, which the combiner weights by volume (`legacy_agrees`).
-/

namespace CryptoData

open Foundation

/-! ## The combiner -/

/-- The outlier filter on the closes, which wants three venues. -/
def closeFilter (bars : List Bar) (outlierSigma : ℚ) : List Bar :=
  let closes := bars.map Bar.close
  if closes.length ≥ 3 then
    let med := median closes
    let mad := median (closes.map fun c => |c - med|)
    if mad > 0 then
      let thresh := outlierSigma * mad * madToSigma
      bars.filter fun b => decide (|b.close - med| ≤ thresh)
    else
      let rel := max (med * (1 / 1000)) (1 / 1000000000000)
      bars.filter fun b => decide (|b.close - med| ≤ rel)
  else
    bars

lemma map_bars_ne_nil {α : Type} (f : Bar → α) (sample : Bar) (rest : List Bar) :
    (sample :: rest).map f ≠ [] :=
  List.cons_ne_nil _ _

/-- The blended bar of the venues that are left. -/
def blend (venuesIndex : Dict String ℕ) (nowNs : Int) : List Bar → Option Bar
  | [] => none
  | sample :: rest =>
      let kept := sample :: rest
      let totalVolume := (kept.map Bar.volume).sum
      if totalVolume ≤ 0 then
        none
      else
        some
          { tsNs := sample.tsNs
            symbol := sample.symbol
            venue := "agg"
            -- Open and close are means, not prices of a trade.
            «open» := weightedMean Bar.open Bar.volume kept
            high := (kept.map Bar.high).max (map_bars_ne_nil Bar.high sample rest)
            low := (kept.map Bar.low).min (map_bars_ne_nil Bar.low sample rest)
            close := weightedMean Bar.close Bar.volume kept
            volume := totalVolume
            vwap := weightedMean Bar.vwap Bar.volume kept
            trades := (kept.map Bar.trades).sum
            sourcesMask := orMask venuesIndex (kept.map Bar.venue)
            ingestedAtNs := some nowNs }

/-- `[b for b in per_venue_bars if b["volume"] > 0 and b["venue"] not in excluded]`. -/
def usableBars (perVenueBars : List Bar) (excludedVenues : List String) : List Bar :=
  perVenueBars.filter fun b => decide (b.volume > 0) && !excludedVenues.contains b.venue

/-- `aggregate_second(per_venue_bars, ...)` at the clock reading `nowNs`. -/
def aggregateSecond (perVenueBars : List Bar) (outlierSigma : ℚ)
    (venuesIndex : Option (Dict String ℕ)) (excludedVenues : List String) (nowNs : Int) :
    Option Bar :=
  let bars := usableBars perVenueBars excludedVenues
  blend (venuesIndex.getD (venueBitmaskIndex (bars.map Bar.venue))) nowNs
    (closeFilter bars outlierSigma)

lemma closeFilter_of_few {bars : List Bar} (h : bars.length ≤ 2) (outlierSigma : ℚ) :
    closeFilter bars outlierSigma = bars := by
  have hfew : ¬ (bars.map Bar.close).length ≥ 3 := by
    rw [List.length_map]
    omega
  simp only [closeFilter, hfew, if_false]

/-- What the combiner says about bars with volume. -/
theorem blend_spec (venuesIndex : Dict String ℕ) (nowNs : Int) {kept : List Bar} (hne : kept ≠ [])
    (hvolume : ∀ b ∈ kept, 0 < b.volume) :
    ∃ a, blend venuesIndex nowNs kept = some a ∧ (∃ b ∈ kept, a.tsNs = b.tsNs) ∧
      TotalOf (fun b : Bar => b.candle.totals) a.candle.totals kept ∧ 0 < a.volume ∧
      a.sourcesMask = orMask venuesIndex (kept.map Bar.venue) ∧
      a.open = weightedMean Bar.open Bar.volume kept ∧
      a.close = weightedMean Bar.close Bar.volume kept := by
  cases kept with
  | nil => exact absurd rfl hne
  | cons sample rest =>
      have hpos : 0 < ((sample :: rest).map Bar.volume).sum := by
        refine List.sum_pos _ ?_ (by simp)
        intro v hv
        rcases List.mem_map.1 hv with ⟨b, hb, rfl⟩
        exact hvolume b hb
      refine ⟨_, if_neg (not_le.2 hpos), ⟨sample, List.mem_cons_self, rfl⟩, ?_, hpos, rfl, rfl,
        rfl⟩
      exact
        { high := exists_max_map Bar.high (by simp)
          le_high := fun b hb => List.le_max_of_mem (List.mem_map_of_mem (f := Bar.high) hb)
          low := exists_min_map Bar.low (by simp)
          low_le := fun b hb => List.min_le_of_mem (List.mem_map_of_mem (f := Bar.low) hb)
          volume := rfl
          notional := by
            simp only [Candle.totals, Bar.candle, weightedMean]
            rw [div_mul_cancel₀ _ hpos.ne']
          count := rfl }

/-! ## The bars of one second -/

/-- The bar of a second, if there is one. -/
def barAt (bars : List Bar) (sec : Int) : Option Bar :=
  bars.find? fun b => decide (b.tsNs = sec)

/-- The bars that the venues make for a second, each at its own clock reading. -/
def barsOfSecond (symbol : String) (clock : String → Int) (perVenue : Dict String (List Trade))
    (sec : Int) : List Bar :=
  perVenue.entries.filterMap fun e =>
    barAt (barsFromTrades symbol e.1 (clock e.1) e.2) sec

/-- The venues that trade in a second. -/
def tradingVenues (perVenue : Dict String (List Trade)) (sec : Int) : List String :=
  (perVenue.entries.filter fun e => e.2.any fun t => decide (t.second = sec)).map Prod.fst

lemma barAt_barsFromTrades (symbol venue : String) (nowNs : Int) {trades : List Trade}
    (hsorted : trades.Pairwise fun x y => x.tsNs ≤ y.tsNs) (sec : Int) :
    (trades.filter (fun t => decide (t.second = sec)) = [] ∧
        barAt (barsFromTrades symbol venue nowNs trades) sec = none) ∨
      ∃ b, barAt (barsFromTrades symbol venue nowNs trades) sec = some b ∧ b.tsNs = sec ∧
        b.venue = venue ∧ Summarises Trade.price Trade.qty b.candle
          (trades.filter fun t => decide (t.second = sec)) := by
  cases hfind : barAt (barsFromTrades symbol venue nowNs trades) sec with
  | none =>
      refine Or.inl ⟨List.filter_eq_nil_iff.2 ?_, rfl⟩
      intro t ht hsec
      rcases (exists_mem_barsFromTrades_iff symbol venue nowNs hsorted).2
        ⟨t, ht, of_decide_eq_true hsec⟩ with ⟨b, hb, hts⟩
      exact List.find?_eq_none.1 hfind b hb (decide_eq_true hts)
  | some b =>
      have hmem := List.mem_of_find?_eq_some hfind
      have hts : b.tsNs = sec := by simpa using List.find?_some hfind
      refine Or.inr ⟨b, rfl, hts, ?_, ?_⟩
      · exact (labels_of_mem_barsFromTrades symbol venue nowNs trades b hmem).2.1
      · have hsummary := summarises_of_mem_barsFromTrades symbol venue nowNs trades hsorted b hmem
        rw [hts] at hsummary
        exact hsummary

lemma barAt_buildAggBars (p : AggParams) (nowNs : Int) (consolidated : List Trade) (sec : Int) :
    (keptIn p consolidated sec = [] ∧ barAt (buildAggBars p nowNs consolidated).1 sec = none) ∨
      ∃ b, barAt (buildAggBars p nowNs consolidated).1 sec = some b ∧ b.tsNs = sec ∧
        Summarises Trade.price Trade.qty b.candle (keptIn p consolidated sec) ∧
        b.sourcesMask = orMask (usedIndex p consolidated)
          (sortedSet ((keptIn p consolidated sec).map Trade.venueName)) := by
  cases hfind : barAt (buildAggBars p nowNs consolidated).1 sec with
  | none =>
      refine Or.inl ⟨?_, rfl⟩
      by_contra hne
      rcases exists_bar_of_keptIn nowNs hne with ⟨b, hb, hts⟩
      exact List.find?_eq_none.1 hfind b hb (decide_eq_true hts)
  | some b =>
      have hmem := List.mem_of_find?_eq_some hfind
      have hts : b.tsNs = sec := by simpa using List.find?_some hfind
      have hsummary := summarises_of_mem_buildAggBars hmem
      have hmask := (rollsUp_of_mem hmem).2.sourcesMask
      rw [hts] at hsummary hmask
      exact Or.inr ⟨b, rfl, hts, hsummary, hmask⟩

lemma flatMap_filterMap {ε α β : Type*} {f : ε → Option β} {part : β → List α}
    {g : ε → List α} :
    ∀ {es : List ε}, (∀ e ∈ es, (g e = [] ∧ f e = none) ∨ ∃ b, f e = some b ∧ part b = g e) →
      (es.filterMap f).flatMap part = es.flatMap g
  | [], _ => rfl
  | e :: es, h => by
      have htail := flatMap_filterMap fun e' he' => h e' (List.mem_cons_of_mem e he')
      rcases h e List.mem_cons_self with ⟨hnil, hnone⟩ | ⟨b, hsome, hpart⟩
      · rw [List.filterMap_cons_none hnone, List.flatMap_cons, hnil, List.nil_append, htail]
      · rw [List.filterMap_cons_some hsome, List.flatMap_cons, List.flatMap_cons, hpart, htail]

/-- Each trading venue has one bar, under its own name. -/
lemma map_venue_barsOfSecond (symbol : String) (clock : String → Int)
    {perVenue : Dict String (List Trade)}
    (hsorted : ∀ e ∈ perVenue.entries, e.2.Pairwise fun x y => x.tsNs ≤ y.tsNs) (sec : Int) :
    (barsOfSecond symbol clock perVenue sec).map Bar.venue = tradingVenues perVenue sec := by
  unfold barsOfSecond tradingVenues
  revert hsorted
  induction perVenue.entries with
  | nil =>
      intro _
      rfl
  | cons e es ih =>
      intro hsorted
      have htail := ih fun f hf => hsorted f (List.mem_cons_of_mem e hf)
      rcases barAt_barsFromTrades symbol e.1 (clock e.1) (hsorted e List.mem_cons_self) sec with
        ⟨hnil, hnone⟩ | ⟨b, hsome, _, hvenue, hsummary⟩
      · have hidle : (e.2.any fun t => decide (t.second = sec)) = false := by
          refine List.any_eq_false.2 ?_
          intro t ht
          exact List.filter_eq_nil_iff.1 hnil t ht
        simp only [List.filterMap_cons, hnone]
        rw [htail, List.filter_cons_of_neg (by simp [hidle])]
      · have htrades : (e.2.any fun t => decide (t.second = sec)) = true := by
          rcases hsummary.open with ⟨t, ht, _⟩
          have hmem := List.mem_filter.1 (List.mem_of_mem_head? ht)
          exact List.any_eq_true.2 ⟨t, hmem.1, hmem.2⟩
        simp only [List.filterMap_cons, hsome, List.filter_cons, htrades, if_true, List.map_cons]
        rw [htail, hvenue]

/-! ## One second on both paths -/

/-- What the two paths have in common. -/
structure BarsAgree (a b : Bar) : Prop where
  tsNs : a.tsNs = b.tsNs
  high : a.high = b.high
  low : a.low = b.low
  volume : a.volume = b.volume
  vwap : a.vwap = b.vwap
  trades : a.trades = b.trades
  sourcesMask : a.sourcesMask = b.sourcesMask

/-- Neither path drops anything in the second: no trade of the tape, no bar of a venue. -/
structure FiltersNothing (p : AggParams) (consolidated : List Trade) (sec : Int)
    (outlierSigma : ℚ) (bars : List Bar) : Prop where
  trades : keptIn p consolidated sec = secondTrades p consolidated sec
  venues : closeFilter (usableBars bars []) outlierSigma = usableBars bars []

/-- The prints of one second, and the bars that partition them by venue. -/
structure SplitByVenue (raw : List Trade) (bars : List Bar) (sec : Int) : Prop where
  positive : ∀ t ∈ raw, 0 < t.qty
  tsNs : ∀ b ∈ bars, b.tsNs = sec
  summarises : ∀ b ∈ bars, Summarises Trade.price Trade.qty b.candle
    (raw.filter fun t => decide (t.venueName = b.venue))
  perm : (bars.flatMap fun b => raw.filter fun t => decide (t.venueName = b.venue)).Perm raw

section Split

variable {raw : List Trade} {bars : List Bar} {sec : Int}

lemma SplitByVenue.volume_pos (h : SplitByVenue raw bars sec) : ∀ b ∈ bars, 0 < b.volume := by
  intro b hb
  have hsummary := h.summarises b hb
  have hvolume : b.volume = _ := hsummary.volume
  rw [hvolume]
  refine List.sum_pos _ ?_ ?_
  · intro q hq
    rcases List.mem_map.1 hq with ⟨t, ht, rfl⟩
    exact h.positive t (List.mem_filter.1 ht).1
  · rcases hsummary.open with ⟨t, ht, _⟩
    exact List.ne_nil_of_mem (List.mem_map_of_mem (List.mem_of_mem_head? ht))

lemma SplitByVenue.usableBars (h : SplitByVenue raw bars sec) : usableBars bars [] = bars := by
  refine List.filter_eq_self.2 ?_
  intro b hb
  simpa using h.volume_pos b hb

lemma SplitByVenue.mem_venues_iff (h : SplitByVenue raw bars sec) (v : String) :
    v ∈ bars.map Bar.venue ↔ v ∈ raw.map Trade.venueName := by
  simp only [List.mem_map]
  constructor
  · rintro ⟨b, hb, rfl⟩
    rcases (h.summarises b hb).open with ⟨t, ht, _⟩
    have hmem := List.mem_filter.1 (List.mem_of_mem_head? ht)
    exact ⟨t, hmem.1, of_decide_eq_true hmem.2⟩
  · rintro ⟨t, ht, rfl⟩
    rcases List.mem_flatMap.1 (h.perm.mem_iff.2 ht) with ⟨b, hb, htb⟩
    exact ⟨b, hb, (of_decide_eq_true (List.mem_filter.1 htb).2).symm⟩

lemma SplitByVenue.perm_bars {bars' : List Bar} (h : SplitByVenue raw bars sec)
    (hperm : bars'.Perm bars) : SplitByVenue raw bars' sec where
  positive := h.positive
  tsNs := fun b hb => h.tsNs b (hperm.mem_iff.1 hb)
  summarises := fun b hb => h.summarises b (hperm.mem_iff.1 hb)
  perm := (hperm.flatMap_right _).trans h.perm

/-- The totals of the bars of the venues are the totals of all prints. -/
theorem SplitByVenue.totals (h : SplitByVenue raw bars sec) {t : Totals ℚ}
    (htotal : TotalOf (fun b : Bar => b.candle.totals) t bars) :
    TotalOf (tick Trade.price Trade.qty) t raw := by
  refine (htotal.flatMap fun b hb => (h.summarises b hb).totals ?_).perm h.perm
  intro t ht
  exact (h.positive t (List.mem_filter.1 ht).1).le

/-- Blending the bars of the venues gives the totals of rolling up the prints. -/
theorem SplitByVenue.blend_agrees (h : SplitByVenue raw bars sec) (venuesIndex : Dict String ℕ)
    (nowNs : Int) {b : Bar} (hsec : b.tsNs = sec)
    (hb : Summarises Trade.price Trade.qty b.candle raw)
    (hmask : b.sourcesMask = orMask venuesIndex (sortedSet (raw.map Trade.venueName))) :
    ∃ a, blend venuesIndex nowNs bars = some a ∧ BarsAgree a b ∧
      (bars.length = 1 → a.open = b.open ∧ a.close = b.close) := by
  have hne : bars ≠ [] := by
    rintro rfl
    rcases hb.open with ⟨t, ht, _⟩
    have hmem := h.perm.mem_iff.2 (List.mem_of_mem_head? ht)
    cases hmem
  rcases blend_spec venuesIndex nowNs hne h.volume_pos with
    ⟨a, ha, ⟨b', hb', hts⟩, htotals, hpos, hmask', hopen, hclose⟩
  have hsame := (h.totals htotals).unique (hb.totals fun t ht => (h.positive t ht).le)
  have hhigh : a.high = b.high := congrArg Totals.high hsame
  have hlow : a.low = b.low := congrArg Totals.low hsame
  have hvolume : a.volume = b.volume := congrArg Totals.volume hsame
  have hnotional : a.vwap * a.volume = b.vwap * b.volume := congrArg Totals.notional hsame
  have hcount : a.trades = b.trades := congrArg Totals.count hsame
  refine ⟨a, ha, ⟨?_, hhigh, hlow, hvolume, ?_, hcount, ?_⟩, ?_⟩
  · rw [hts, h.tsNs b' hb', hsec]
  · rw [← hvolume] at hnotional
    exact mul_right_cancel₀ hpos.ne' hnotional
  · rw [hmask', hmask]
    refine orMask_eq_of_mem_iff venuesIndex ?_
    intro v
    rw [h.mem_venues_iff, mem_sortedSet]
  · -- One venue: a mean of one value is that value, and the venue's prints are all prints.
    intro hone
    rcases List.length_eq_one_iff.1 hone with ⟨c, hc⟩
    subst hc
    have hmean : ∀ f : Bar → ℚ, weightedMean f Bar.volume [c] = f c := by
      intro f
      have hcpos := h.volume_pos c List.mem_cons_self
      simp only [weightedMean, List.map_cons, List.map_nil, List.sum_singleton]
      exact mul_div_cancel_right₀ _ hcpos.ne'
    have hall : (raw.filter fun t => decide (t.venueName = c.venue)) = raw := by
      refine List.filter_eq_self.2 ?_
      intro t ht
      have hvenue := (h.mem_venues_iff t.venueName).2 (List.mem_map_of_mem ht)
      exact decide_eq_true (by simpa using hvenue)
    have hcandle := h.summarises c List.mem_cons_self
    rw [hall] at hcandle
    constructor
    · rcases hcandle.open with ⟨t, ht, hct⟩
      rcases hb.open with ⟨u, hu, hbu⟩
      have htu : t = u := Option.mem_unique ht hu
      rw [hopen, hmean]
      exact hct.trans ((congrArg Trade.price htu).trans hbu.symm)
    · rcases hcandle.close with ⟨t, ht, hct⟩
      rcases hb.close with ⟨u, hu, hbu⟩
      have htu : t = u := Option.mem_unique ht hu
      rw [hclose, hmean]
      exact hct.trans ((congrArg Trade.price htu).trans hbu.symm)

end Split

/-! ## The two paths -/

/-- The bars of the venues partition the prints of the second in the merged stream. -/
theorem splitByVenue_barsOfSecond (symbol : String) (clock : String → Int)
    {perVenue : Dict String (List Trade)} {consolidated : List Trade}
    (hrun : mergeTrades perVenue = some consolidated)
    (hsorted : ∀ e ∈ perVenue.entries, e.2.Pairwise fun x y => x.tsNs ≤ y.tsNs)
    (hqty : ∀ e ∈ perVenue.entries, ∀ t ∈ e.2, 0 < t.qty)
    (hvenue : ∀ e ∈ perVenue.entries, ∀ t ∈ e.2, t.venueName = e.1) (sec : Int) :
    SplitByVenue (consolidated.filter fun t => decide (t.second = sec))
      (barsOfSecond symbol clock perVenue sec) sec := by
  have hpart : ∀ e ∈ perVenue.entries,
      ((consolidated.filter fun t => decide (t.second = sec)).filter
        fun t => decide (t.venueName = e.1)) = e.2.filter fun t => decide (t.second = sec) := by
    intro e he
    rw [← filter_venueName_mergeTrades hrun hvenue he, List.filter_filter, List.filter_filter]
    exact List.filter_congr fun t _ => Bool.and_comm _ _
  have hbar : ∀ e ∈ perVenue.entries, _ := fun e he =>
    barAt_barsFromTrades symbol e.1 (clock e.1) (hsorted e he) sec
  have hmem : ∀ b ∈ barsOfSecond symbol clock perVenue sec, b.tsNs = sec ∧
      Summarises Trade.price Trade.qty b.candle
        ((consolidated.filter fun t => decide (t.second = sec)).filter
          fun t => decide (t.venueName = b.venue)) := by
    intro b hb
    rcases List.mem_filterMap.1 hb with ⟨e, he, hsome⟩
    rcases hbar e he with ⟨_, hnone⟩ | ⟨b', hsome', hts, hv, hsummary⟩
    · rw [hnone] at hsome
      cases hsome
    · have hbb : b' = b := Option.some.inj (hsome'.symm.trans hsome)
      subst hbb
      rw [hv, hpart e he]
      exact ⟨hts, hsummary⟩
  refine ⟨?_, fun b hb => (hmem b hb).1, fun b hb => (hmem b hb).2, ?_⟩
  · intro t ht
    rcases (mem_mergeTrades_iff hrun).1 (List.mem_filter.1 ht).1 with ⟨e, he, hte⟩
    exact hqty e he t hte
  · -- Venue by venue the prints are those of its stream, and the streams make up the merge.
    have hflat : ((barsOfSecond symbol clock perVenue sec).flatMap fun b =>
        (consolidated.filter fun t => decide (t.second = sec)).filter
          fun t => decide (t.venueName = b.venue)) =
        perVenue.entries.flatMap fun e => e.2.filter fun t => decide (t.second = sec) := by
      refine flatMap_filterMap ?_
      intro e he
      rcases hbar e he with hnone | ⟨b, hsome, _, hv, _⟩
      · exact Or.inl hnone
      · refine Or.inr ⟨b, hsome, ?_⟩
        rw [hv]
        exact hpart e he
    have hvalues : (perVenue.entries.flatMap fun e =>
        e.2.filter fun t => decide (t.second = sec)) =
        perVenue.values.flatten.filter fun t => decide (t.second = sec) := by
      rw [Dict.values, List.filter_flatten, List.map_map, List.flatMap_def]
      rfl
    rw [hflat, hvalues]
    exact ((merges_of_mergeTrades hrun).perm_flatten.filter _).symm

/-- With at most two venues neither filter has enough of them. -/
lemma filtersNothing_of_few {p : AggParams} {perVenue : Dict String (List Trade)}
    {consolidated : List Trade} {sec : Int} {bars : List Bar} (outlierSigma : ℚ)
    (hsource : ∀ t ∈ consolidated, ∃ e ∈ perVenue.entries, t ∈ e.2 ∧ t.venue = some e.1)
    (hfew : (tradingVenues perVenue sec).length ≤ 2) (hmin : 3 ≤ p.minVenuesForFilter)
    (hbars : bars.length ≤ 2) : FiltersNothing p consolidated sec outlierSigma bars where
  trades := by
    have hsub : ((secondTrades p consolidated sec).map Trade.venue).dedup ⊆
        (tradingVenues perVenue sec).map some := by
      intro v hv
      rcases List.mem_map.1 (List.mem_dedup.1 hv) with ⟨t, ht, rfl⟩
      have hmem := mem_secondTrades_iff.1 ht
      rcases hsource t hmem.1 with ⟨e, he, hte, hvenue⟩
      rw [hvenue]
      refine List.mem_map_of_mem (List.mem_map.2 ⟨e, List.mem_filter.2 ⟨he, ?_⟩, rfl⟩)
      exact List.any_eq_true.2 ⟨t, hte, decide_eq_true hmem.2.2⟩
    have hlen := ((List.nodup_dedup _).subperm hsub).length_le
    rw [List.length_map] at hlen
    have hidle : ¬ Engages (secondTrades p consolidated sec) p.minVenuesForFilter := by
      unfold Engages
      omega
    rw [keptIn, robustFilter_fst, if_neg hidle]
  venues := by
    refine closeFilter_of_few ?_ outlierSigma
    exact le_trans List.filter_sublist.length_le hbars

/-- A second in which neither path filters anything, and the tape admits every print. -/
theorem FiltersNothing.agree {p : AggParams} {consolidated : List Trade} {sec : Int}
    {outlierSigma : ℚ} {bars : List Bar} {venuesIndex : Dict String ℕ}
    (h : FiltersNothing p consolidated sec outlierSigma bars)
    (hindex : p.venuesIndex = some venuesIndex)
    (hraw : secondTrades p consolidated sec =
      consolidated.filter fun t => decide (t.second = sec))
    (hsplit : SplitByVenue (consolidated.filter fun t => decide (t.second = sec)) bars sec)
    (nowNs legacyNow : Int) :
    Option.Rel BarsAgree (aggregateSecond bars outlierSigma (some venuesIndex) [] legacyNow)
        (barAt (buildAggBars p nowNs consolidated).1 sec) ∧
      (bars.length = 1 → Option.Rel (fun a b => a.open = b.open ∧ a.close = b.close)
        (aggregateSecond bars outlierSigma (some venuesIndex) [] legacyNow)
        (barAt (buildAggBars p nowNs consolidated).1 sec)) := by
  have hblend : aggregateSecond bars outlierSigma (some venuesIndex) [] legacyNow =
      blend venuesIndex legacyNow bars := by
    simp only [aggregateSecond, Option.getD_some]
    rw [h.venues, hsplit.usableBars]
  have hkept : keptIn p consolidated sec =
      consolidated.filter fun t => decide (t.second = sec) := h.trades.trans hraw
  have hused : usedIndex p consolidated = venuesIndex := by
    rw [usedIndex, hindex, Option.getD_some]
  rcases barAt_buildAggBars p nowNs consolidated sec with
    ⟨hnil, hnone⟩ | ⟨b, hsome, hts, hsummary, hmask⟩
  · -- Nothing is printed in the second, so there is no bar on either path.
    have hidle : bars = [] := by
      refine List.eq_nil_iff_forall_not_mem.2 ?_
      intro c hc
      rcases (hsplit.summarises c hc).open with ⟨t, ht, _⟩
      have hmem := (List.mem_filter.1 (List.mem_of_mem_head? ht)).1
      rw [← hkept, hnil] at hmem
      cases hmem
    subst hidle
    rw [hblend, hnone]
    exact ⟨Option.Rel.none, fun _ => Option.Rel.none⟩
  · rw [hkept] at hsummary hmask
    rw [hused] at hmask
    rcases hsplit.blend_agrees venuesIndex legacyNow hts hsummary hmask with
      ⟨a, ha, hagree, hone⟩
    rw [hblend, ha, hsome]
    exact ⟨Option.Rel.some hagree, fun hsingle => Option.Rel.some (hone hsingle)⟩

/-- Where neither path filters anything, the blended bar and the bar of the tape agree; with one
trading venue they agree on the open and the close as well. -/
theorem legacy_agrees (p : AggParams) (outlierSigma : ℚ) (venuesIndex : Dict String ℕ)
    (hindex : p.venuesIndex = some venuesIndex) (hexcl : p.excludedVenues = [])
    (nowNs legacyNow : Int) (clock : String → Int) (perVenue : Dict String (List Trade))
    (hsorted : ∀ e ∈ perVenue.entries, e.2.Pairwise fun x y => x.tsNs ≤ y.tsNs)
    (hqty : ∀ e ∈ perVenue.entries, ∀ t ∈ e.2, 0 < t.qty)
    (hvenue : ∀ e ∈ perVenue.entries, ∀ t ∈ e.2, t.venue = some e.1)
    (hlag : ∀ e ∈ perVenue.entries, ∀ t ∈ e.2, ∀ lagNs ∈ staleLagNs p.staleRecvLagMs,
      t.recv - t.tsNs ≤ lagNs) :
    ∃ consolidated, mergeTrades perVenue = some consolidated ∧
      ∀ sec bars, bars.Perm (barsOfSecond p.symbol clock perVenue sec) →
        (FiltersNothing p consolidated sec outlierSigma bars →
          Option.Rel BarsAgree
            (aggregateSecond bars outlierSigma (some venuesIndex) [] legacyNow)
            (barAt (buildAggBars p nowNs consolidated).1 sec) ∧
          ((tradingVenues perVenue sec).length = 1 →
            Option.Rel (fun a b => a.open = b.open ∧ a.close = b.close)
              (aggregateSecond bars outlierSigma (some venuesIndex) [] legacyNow)
              (barAt (buildAggBars p nowNs consolidated).1 sec))) ∧
        ((tradingVenues perVenue sec).length ≤ 2 → 3 ≤ p.minVenuesForFilter →
          FiltersNothing p consolidated sec outlierSigma bars) := by
  rcases exists_mergeTrades perVenue with ⟨consolidated, hrun⟩
  have hname : ∀ e ∈ perVenue.entries, ∀ t ∈ e.2, t.venueName = e.1 := by
    intro e he t ht
    rw [Trade.venueName, hvenue e he t ht, Option.getD_some]
  have hsource : ∀ t ∈ consolidated, ∃ e ∈ perVenue.entries, t ∈ e.2 ∧ t.venue = some e.1 := by
    intro t ht
    rcases (mem_mergeTrades_iff hrun).1 ht with ⟨e, he, hte⟩
    exact ⟨e, he, hte, hvenue e he t hte⟩
  -- Nothing is excluded and nothing is stale, so the second holds all its prints.
  have hraw : ∀ sec, secondTrades p consolidated sec =
      consolidated.filter fun t => decide (t.second = sec) := by
    intro sec
    refine List.filter_congr ?_
    intro t ht
    rw [admits_of_mem_mergeTrades hrun hqty hlag t ht (by simp [hexcl]), Bool.true_and]
  refine ⟨consolidated, hrun, ?_⟩
  intro sec bars hbars
  have hsplit := (splitByVenue_barsOfSecond p.symbol clock hrun hsorted hqty hname sec).perm_bars
    hbars
  have hvenues : bars.length = (tradingVenues perVenue sec).length := by
    rw [hbars.length_eq, ← map_venue_barsOfSecond p.symbol clock hsorted sec, List.length_map]
  refine ⟨?_, ?_⟩
  · intro hnothing
    rcases hnothing.agree hindex (hraw sec) hsplit nowNs legacyNow with ⟨hagree, hone⟩
    exact ⟨hagree, fun hsingle => hone (hvenues.trans hsingle)⟩
  · intro hfew hmin
    exact filtersNothing_of_few outlierSigma hsource hfew hmin (hvenues.trans_le hfew)

theorem legacy_agrees_twoVenues :
    ∃ consolidated, mergeTrades ⟨[("kraken",
          [{ tsNs := 5, venue := some "kraken", price := 100, size := some 2 }]),
        ("okx", [{ tsNs := 5, venue := some "okx", price := 101, size := some 1 }])],
        by decide⟩ = some consolidated ∧
      Option.Rel BarsAgree
        (aggregateSecond
          (barsOfSecond "BTC-USD" (fun _ => 0) ⟨[("kraken",
              [{ tsNs := 5, venue := some "kraken", price := 100, size := some 2 }]),
            ("okx", [{ tsNs := 5, venue := some "okx", price := 101, size := some 1 }])],
            by decide⟩ 0)
          5 (some (venueBitmaskIndex allSources)) [] 0)
        (barAt (buildAggBars
          { symbol := "BTC-USD", venuesIndex := some (venueBitmaskIndex allSources),
            staleRecvLagMs := some 5000 } 0 consolidated).1 0) := by
  rcases legacy_agrees
    { symbol := "BTC-USD", venuesIndex := some (venueBitmaskIndex allSources),
      staleRecvLagMs := some 5000 } 5 (venueBitmaskIndex allSources) rfl rfl 0 0 (fun _ => 0)
    ⟨[("kraken", [{ tsNs := 5, venue := some "kraken", price := 100, size := some 2 }]),
      ("okx", [{ tsNs := 5, venue := some "okx", price := 101, size := some 1 }])], by decide⟩
    (by decide) (by decide +kernel) (by decide) (by decide +kernel) with ⟨consolidated, hrun, hall⟩
  refine ⟨consolidated, hrun, ?_⟩
  rcases hall 0 _ (List.Perm.refl _) with ⟨hagree, hfew⟩
  exact (hagree (hfew (by decide) (by decide))).1

end CryptoData
