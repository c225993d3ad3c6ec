import CryptoData.Core.Consolidated.Tape
import CryptoData.Quality.Checks

/-!
# VenueRange — the tape's close against the closes of the venues

`checkAggWithinVenueRange` flags the seconds in which the close of the tape is not between the
lowest and the highest close of the venues.  A correct tape can be flagged: its close is the last
print that survives the filter, the close of a venue is its last print of all.

Where the two can part, a second is left behind by its tape (`LeftBehind`,
`checkAggWithinVenueRange_eq_nil_iff`): its last survivor is not the last print of its venue.  On
the trades themselves (`checkAggWithinVenueRange_outcome`): there is no false alarm if in every
second the last print within reach of the filter is the last one of its venue, as it is when the
filter abstains or reaches the last print of the second; and there is one when the venues of a
second all end out of its reach on one side.
-/

namespace CryptoData

open Foundation

/-! ## The check -/

/-- `df.set_index("ts_ns")["close"]`; the labels of a frame of bars are distinct. -/
def closeSeries (bars : List Bar) : Dict Int ℚ :=
  bars.foldl (fun closes b => closes.set b.tsNs b.close) Dict.empty

/-- The variables `lo` and `hi` of the loop over the venues. -/
structure RangeFold where
  lo : Option (Dict Int ℚ)
  hi : Option (Dict Int ℚ)

/-- The loop body; the row-wise `min` and `max` skip what is missing. -/
def rangeStep (s : RangeFold) (df : List Bar) : RangeFold :=
  if df.isEmpty then
    s
  else
    let closes := closeSeries df
    { lo := some ((s.lo.map fun lo => lo.mergeWith min closes).getD closes)
      hi := some ((s.hi.map fun hi => hi.mergeWith max closes).getD closes) }

/-- `x.abs() * 1e-6 + 1e-9`. -/
def rangeSlack (x : ℚ) : ℚ :=
  |x| * (1 / 1000000) + 1 / 1000000000

/-- `check_agg_within_venue_range(agg_bars, per_venue)`. -/
def checkAggWithinVenueRange (aggBars : List Bar) (perVenue : Dict String (List Bar)) :
    List Issue :=
  if aggBars.isEmpty ∨ perVenue.entries.length < 2 then
    []
  else
    let agg := closeSeries aggBars
    let range := perVenue.values.foldl rangeStep ⟨none, none⟩
    match range.lo, range.hi with
    | some lo, some hi =>
        let common := agg.keys.filter fun ts => decide (ts ∈ lo.keys)
        let breach := common.countP fun ts =>
          decide (agg.getD ts 0 < lo.getD ts 0 - rangeSlack (lo.getD ts 0)) ||
          decide (agg.getD ts 0 > hi.getD ts 0 + rangeSlack (hi.getD ts 0))
        issueIf "agg.outside_venue_range" .major breach
          "consolidated close fell outside [min, max] of contributing venue closes"
    -- No venue has a bar.
    | _, _ => []

/-! ## What the loop computes -/

/-- The closes of the venues at one label. -/
def closesAt (perVenue : Dict String (List Bar)) (ts : Int) : List ℚ :=
  perVenue.values.filterMap fun df => (closeSeries df).get? ts

lemma foldl_merge_some {α : Type*} (f : ℚ → ℚ → ℚ) (look : α → Option ℚ) :
    ∀ (xs : List α) (a : ℚ),
      xs.foldl (fun acc x => Option.merge f acc (look x)) (some a) =
        some ((xs.filterMap look).foldl f a)
  | [], a => rfl
  | x :: xs, a => by
      cases hx : look x with
      | none => simp [hx, foldl_merge_some f look xs]
      | some b => simp [hx, foldl_merge_some f look xs]

lemma foldl_merge_none {α : Type*} (f : ℚ → ℚ → ℚ) (look : α → Option ℚ) :
    ∀ xs : List α,
      xs.foldl (fun acc x => Option.merge f acc (look x)) none =
        (xs.filterMap look).head?.map fun a => (xs.filterMap look).tail.foldl f a
  | [] => rfl
  | x :: xs => by
      cases hx : look x with
      | none => simp [hx, foldl_merge_none f look xs]
      | some b => simp [hx, foldl_merge_some f look xs]

/-- Reading a label off both series after one more venue. -/
lemma rangeStep_get? (s : RangeFold) (df : List Bar) (ts : Int) :
    ((rangeStep s df).lo.getD Dict.empty).get? ts =
        Option.merge min ((s.lo.getD Dict.empty).get? ts) ((closeSeries df).get? ts) ∧
      ((rangeStep s df).hi.getD Dict.empty).get? ts =
        Option.merge max ((s.hi.getD Dict.empty).get? ts) ((closeSeries df).get? ts) := by
  cases df with
  | nil => simp [rangeStep, closeSeries]
  | cons b bars =>
      constructor
      · cases hlo : s.lo with
        | none => simp [rangeStep, hlo]
        | some lo => simp [rangeStep, hlo, Dict.get?_mergeWith]
      · cases hhi : s.hi with
        | none => simp [rangeStep, hhi]
        | some hi => simp [rangeStep, hhi, Dict.get?_mergeWith]

lemma foldl_rangeStep_get? (ts : Int) :
    ∀ (dfs : List (List Bar)) (s : RangeFold),
      ((dfs.foldl rangeStep s).lo.getD Dict.empty).get? ts =
          dfs.foldl (fun acc df => Option.merge min acc ((closeSeries df).get? ts))
            ((s.lo.getD Dict.empty).get? ts) ∧
        ((dfs.foldl rangeStep s).hi.getD Dict.empty).get? ts =
          dfs.foldl (fun acc df => Option.merge max acc ((closeSeries df).get? ts))
            ((s.hi.getD Dict.empty).get? ts)
  | [], s => ⟨rfl, rfl⟩
  | df :: dfs, s => by
      have htail := foldl_rangeStep_get? ts dfs (rangeStep s df)
      have hhead := rangeStep_get? s df ts
      rw [hhead.1, hhead.2] at htail
      exact htail

/-- The two series hold the least and the greatest close of each label. -/
theorem range_get? (perVenue : Dict String (List Bar)) (ts : Int) :
    ((perVenue.values.foldl rangeStep ⟨none, none⟩).lo.getD Dict.empty).get? ts =
        (closesAt perVenue ts).min? ∧
      ((perVenue.values.foldl rangeStep ⟨none, none⟩).hi.getD Dict.empty).get? ts =
        (closesAt perVenue ts).max? := by
  have hfold := foldl_rangeStep_get? ts perVenue.values ⟨none, none⟩
  have hmin := foldl_merge_none min (fun df => (closeSeries df).get? ts) perVenue.values
  have hmax := foldl_merge_none max (fun df => (closeSeries df).get? ts) perVenue.values
  constructor
  · refine hfold.1.trans (hmin.trans ?_)
    unfold closesAt
    cases perVenue.values.filterMap fun df => (closeSeries df).get? ts with
    | nil => rfl
    | cons c cs => rfl
  · refine hfold.2.trans (hmax.trans ?_)
    unfold closesAt
    cases perVenue.values.filterMap fun df => (closeSeries df).get? ts with
    | nil => rfl
    | cons c cs => rfl

lemma foldl_rangeStep_isSome :
    ∀ (dfs : List (List Bar)) (s : RangeFold), (s.lo.isSome = s.hi.isSome) →
      (dfs.foldl rangeStep s).lo.isSome = (dfs.foldl rangeStep s).hi.isSome
  | [], _, h => h
  | df :: dfs, s, h => by
      refine foldl_rangeStep_isSome dfs (rangeStep s df) ?_
      cases df with
      | nil => exact h
      | cons b bars => rfl

/-! ## When the check is silent -/

/-- `x - slack x` and `x + slack x` grow with `x`, so the extreme close decides. -/
lemma rangeSlack_mono {x y : ℚ} (h : x ≤ y) :
    x - rangeSlack x ≤ y - rangeSlack y ∧ x + rangeSlack x ≤ y + rangeSlack y := by
  have habs : |y| - |x| ≤ y - x ∧ |x| - |y| ≤ y - x := by
    have hyx := abs_sub_abs_le_abs_sub y x
    have hxy := abs_sub_abs_le_abs_sub x y
    rw [abs_of_nonneg (sub_nonneg.2 h)] at hyx
    rw [abs_sub_comm, abs_of_nonneg (sub_nonneg.2 h)] at hxy
    exact ⟨hyx, hxy⟩
  unfold rangeSlack
  constructor
  · linarith [habs.1]
  · linarith [habs.2]

/-- All closes lie beyond `a` on one side, by more than the slack. -/
def OneSided (closes : List ℚ) (a : ℚ) : Prop :=
  (∀ c ∈ closes, a < c - rangeSlack c) ∨ ∀ c ∈ closes, c + rangeSlack c < a

instance (closes : List ℚ) (a : ℚ) : Decidable (OneSided closes a) :=
  inferInstanceAs (Decidable (_ ∨ _))

lemma oneSided_iff {closes : List ℚ} {lo hi a : ℚ} (hlo : closes.min? = some lo)
    (hhi : closes.max? = some hi) :
    OneSided closes a ↔ a < lo - rangeSlack lo ∨ hi + rangeSlack hi < a := by
  rcases List.min?_eq_some_iff.1 hlo with ⟨hlomem, hlole⟩
  rcases List.max?_eq_some_iff.1 hhi with ⟨hhimem, hhile⟩
  constructor
  · rintro (habove | hbelow)
    · exact Or.inl (habove lo hlomem)
    · exact Or.inr (hbelow hi hhimem)
  · rintro (habove | hbelow)
    · refine Or.inl ?_
      intro c hc
      exact lt_of_lt_of_le habove (rangeSlack_mono (hlole c hc)).1
    · refine Or.inr ?_
      intro c hc
      exact lt_of_le_of_lt (rangeSlack_mono (hhile c hc)).2 hbelow

/-- With two venues, the check is silent exactly if no close of the tape at a label of the venues
has all closes on one side. -/
theorem checkAggWithinVenueRange_eq_nil_iff_oneSided {aggBars : List Bar}
    {perVenue : Dict String (List Bar)} (hlen : 2 ≤ perVenue.entries.length) :
    checkAggWithinVenueRange aggBars perVenue = [] ↔
      ∀ ts a, (closeSeries aggBars).get? ts = some a → closesAt perVenue ts ≠ [] →
        ¬ OneSided (closesAt perVenue ts) a := by
  have hrange := range_get? perVenue
  have hsome := foldl_rangeStep_isSome perVenue.values ⟨none, none⟩ rfl
  by_cases hempty : aggBars.isEmpty
  · have hnil : aggBars = [] := List.isEmpty_iff.1 hempty
    subst hnil
    simp [checkAggWithinVenueRange, closeSeries]
  · have hguard : ¬ (aggBars.isEmpty ∨ perVenue.entries.length < 2) := by
      simp only [hempty, Bool.false_eq_true, false_or, not_lt]
      exact hlen
    unfold checkAggWithinVenueRange
    rw [if_neg hguard]
    revert hrange hsome
    generalize perVenue.values.foldl rangeStep ⟨none, none⟩ = range
    rcases range with ⟨lo, hi⟩
    intro hrange hsome
    cases lo with
    | none =>
        -- Without a bar of a venue there is no close to compare with.
        refine iff_of_true rfl ?_
        intro ts a _ hne
        have hmin : (closesAt perVenue ts).min? = none := (hrange ts).1.symm
        exact absurd (List.min?_eq_none_iff.1 hmin) hne
    | some lo =>
        cases hi with
        | none => cases hsome
        | some hi =>
            simp only [Option.getD_some] at hrange
            simp only [issueIf_eq_nil_iff, List.countP_eq_zero, List.mem_filter,
              Bool.or_eq_true, decide_eq_true_eq]
            constructor
            · intro h ts a hget hne hside
              rcases Option.ne_none_iff_exists'.1 (mt List.min?_eq_none_iff.1 hne) with ⟨l, hl⟩
              rcases Option.ne_none_iff_exists'.1 (mt List.max?_eq_none_iff.1 hne) with ⟨u, hu⟩
              have hlget : lo.get? ts = some l := (hrange ts).1.trans hl
              have huget : hi.get? ts = some u := (hrange ts).2.trans hu
              refine h ts ⟨Dict.mem_keys_iff.2 ⟨a, hget⟩, Dict.mem_keys_iff.2 ⟨l, hlget⟩⟩ ?_
              simpa [Dict.getD, hget, hlget, huget] using (oneSided_iff hl hu).1 hside
            · rintro h ts ⟨hagg, hlokey⟩ hbreach
              rcases Dict.mem_keys_iff.1 hagg with ⟨a, hget⟩
              rcases Dict.mem_keys_iff.1 hlokey with ⟨l, hlget⟩
              have hl : (closesAt perVenue ts).min? = some l := (hrange ts).1.symm.trans hlget
              have hne : closesAt perVenue ts ≠ [] := by
                intro hnil
                rw [hnil] at hl
                cases hl
              rcases Option.ne_none_iff_exists'.1 (mt List.max?_eq_none_iff.1 hne) with ⟨u, hu⟩
              have huget : hi.get? ts = some u := (hrange ts).2.trans hu
              refine h ts a hget hne ((oneSided_iff hl hu).2 ?_)
              simpa [Dict.getD, hget, hlget, huget] using hbreach

/-! ## The closes of the builders -/

lemma get?_closeSeries {bars : List Bar} (hnodup : (bars.map Bar.tsNs).Nodup) (ts : Int) :
    (closeSeries bars).get? ts = (bars.find? fun b => decide (b.tsNs = ts)).map Bar.close := by
  have hfold := Dict.get?_foldl_set Bar.tsNs Bar.close ts bars Dict.empty hnodup
  rw [Dict.get?_empty, Option.or_none] at hfold
  exact hfold

/-- The close of a label, read off the bars or off the trades that they summarise. -/
lemma get?_closeSeries_of_summarises {bars : List Bar} (part : Int → List Trade)
    (hnodup : (bars.map Bar.tsNs).Nodup)
    (hpart : ∀ b ∈ bars, Summarises Trade.price Trade.qty b.candle (part b.tsNs))
    (hall : ∀ ts, part ts ≠ [] → ∃ b ∈ bars, b.tsNs = ts) (ts : Int) :
    (closeSeries bars).get? ts = (part ts).getLast?.map Trade.price := by
  rw [get?_closeSeries hnodup]
  cases hfind : bars.find? fun b => decide (b.tsNs = ts) with
  | none =>
      have hnil : part ts = [] := by
        by_contra hne
        rcases hall ts hne with ⟨b, hb, hts⟩
        exact List.find?_eq_none.1 hfind b hb (by simpa using hts)
      rw [hnil]
      rfl
  | some b =>
      have hts : b.tsNs = ts := by simpa using List.find?_some hfind
      rcases (hpart b (List.mem_of_find?_eq_some hfind)).close with ⟨t, ht, heq⟩
      have hclose : b.close = t.price := heq
      rw [hts] at ht
      rw [Option.mem_def.1 ht, Option.map_some, Option.map_some, hclose]

lemma get?_closeSeries_barsFromTrades (symbol venue : String) (nowNs : Int) {trades : List Trade}
    (hsorted : trades.Pairwise fun x y => x.tsNs ≤ y.tsNs) (ts : Int) :
    (closeSeries (barsFromTrades symbol venue nowNs trades)).get? ts =
      (trades.filter fun t => decide (t.second = ts)).getLast?.map Trade.price := by
  refine get?_closeSeries_of_summarises (fun sec => trades.filter fun t => decide (t.second = sec))
    (barsFromTrades_sorted symbol venue nowNs trades hsorted).nodup
    (summarises_of_mem_barsFromTrades symbol venue nowNs trades hsorted) ?_ ts
  intro sec hne
  rcases List.exists_mem_of_ne_nil _ hne with ⟨t, ht⟩
  have hmem := List.mem_filter.1 ht
  exact (exists_mem_barsFromTrades_iff symbol venue nowNs hsorted).2
    ⟨t, hmem.1, of_decide_eq_true hmem.2⟩

lemma get?_closeSeries_buildAggBars (p : AggParams) (nowNs : Int) (consolidated : List Trade)
    (ts : Int) :
    (closeSeries (buildAggBars p nowNs consolidated).1).get? ts =
      (keptIn p consolidated ts).getLast?.map Trade.price := by
  refine get?_closeSeries_of_summarises (keptIn p consolidated) ?_
    (fun b hb => summarises_of_mem_buildAggBars hb)
    (fun sec hne => exists_bar_of_keptIn nowNs hne) ts
  exact ((Dict.sortedKeys_sortedLT _).pairwise.sublist buildAggBars_tsNs_sublist).nodup

/-! ## The exact condition -/

/-- The prices of the last print of each venue in a second. -/
def closingPrices (perVenue : Dict String (List Trade)) (sec : Int) : List ℚ :=
  perVenue.values.filterMap fun trades =>
    (trades.filter fun t => decide (t.second = sec)).getLast?.map Trade.price

/-- Among the admitted prints `raw` of a second, `t` survives the filter and nothing after it does,
although the venue of `t` prints again; and all venues close on one side of `t`. -/
structure LeftBehind (p : AggParams) (perVenue : Dict String (List Trade)) (raw : List Trade)
    (t : Trade) : Prop where
  dropsTail : ∃ before after, raw = before ++ t :: after ∧
    t ∈ (robustFilter raw p.madK p.minVenuesForFilter).1 ∧
    (∀ u ∈ after, u ∉ (robustFilter raw p.madK p.minVenuesForFilter).1) ∧
    ∃ u ∈ after, u.venueName = t.venueName
  oneSided : OneSided (closingPrices perVenue t.second) t.price

/-- The last survivor of a filter: it survives, and nothing behind it does. -/
lemma getLast?_filter_eq_some_iff {α : Type*} {q : α → Bool} {l : List α} {t : α} :
    (l.filter q).getLast? = some t ↔
      ∃ before after, l = before ++ t :: after ∧ q t = true ∧ ∀ u ∈ after, q u = false := by
  constructor
  · intro h
    rw [← List.head?_reverse, ← List.filter_reverse, List.head?_filter] at h
    rcases List.find?_eq_some_iff_append.1 h with ⟨hq, after, before, hsplit, hafter⟩
    refine ⟨before.reverse, after.reverse, ?_, hq, ?_⟩
    · rw [← List.reverse_reverse l, hsplit]
      simp
    · intro u hu
      simpa using hafter u (List.mem_reverse.1 hu)
  · rintro ⟨before, after, rfl, hq, hafter⟩
    have hnone : after.filter q = [] :=
      List.filter_eq_nil_iff.2 fun u hu => by simp [hafter u hu]
    simp [hq, hnone]

/-! ## The whole tape -/

/-- The per-venue bars of a family of streams, each built at its own clock reading. -/
def venueBars (symbol : String) (clock : String → Int) (perVenue : Dict String (List Trade)) :
    Dict String (List Bar) :=
  perVenue.mapValues fun venue trades => barsFromTrades symbol venue (clock venue) trades

section Tape

variable {perVenue : Dict String (List Trade)}

lemma closesAt_venueBars (symbol : String) (clock : String → Int)
    (hsorted : ∀ e ∈ perVenue.entries, e.2.Pairwise fun x y => x.tsNs ≤ y.tsNs) (sec : Int) :
    closesAt (venueBars symbol clock perVenue) sec = closingPrices perVenue sec := by
  simp only [closesAt, closingPrices, venueBars, Dict.mapValues, Dict.values, List.map_map,
    List.filterMap_map]
  refine List.filterMap_congr ?_
  intro e he
  exact get?_closeSeries_barsFromTrades symbol e.1 (clock e.1) (hsorted e he) sec

/-- A price with one of the closes on it has the closes on both sides. -/
lemma OneSided.ne {closes : List ℚ} {a c : ℚ} (h : OneSided closes a) (hc : c ∈ closes) :
    c ≠ a := by
  have hpos : 0 < rangeSlack c := by
    have habs := abs_nonneg c
    unfold rangeSlack
    linarith
  rintro rfl
  rcases h with habove | hbelow
  · exact absurd (habove c hc) (not_lt.2 (sub_le_self c hpos.le))
  · exact absurd (hbelow c hc) (not_lt.2 (le_add_of_nonneg_right hpos.le))

section Streams

variable {p : AggParams} {perVenue : Dict String (List Trade)} {consolidated : List Trade}
variable {sec : Int} {t : Trade} {e : String × List Trade}

/-- The last survivor of a second among its admitted prints. -/
lemma getLast?_keptIn_eq_some_iff :
    (keptIn p consolidated sec).getLast? = some t ↔
      ∃ before after, secondTrades p consolidated sec = before ++ t :: after ∧
        t ∈ (robustFilter (secondTrades p consolidated sec) p.madK p.minVenuesForFilter).1 ∧
        ∀ u ∈ after,
          u ∉ (robustFilter (secondTrades p consolidated sec) p.madK p.minVenuesForFilter).1 := by
  have hkept : keptIn p consolidated sec = (secondTrades p consolidated sec).filter fun u =>
      decide (u ∈
        (robustFilter (secondTrades p consolidated sec) p.madK p.minVenuesForFilter).1) :=
    robustFilter_eq_filter_mem _ _ _
  rw [hkept]
  simp only [getLast?_filter_eq_some_iff, decide_eq_true_eq, decide_eq_false_iff_not]

lemma price_mem_closingPrices (he : e ∈ perVenue.entries)
    (hlast : (e.2.filter fun u => decide (u.second = sec)).getLast? = some t) :
    t.price ∈ closingPrices perVenue sec := by
  refine List.mem_filterMap.2 ⟨e.2, List.mem_map.2 ⟨e, he, rfl⟩, ?_⟩
  rw [hlast, Option.map_some]

variable (hrun : mergeTrades perVenue = some consolidated)
variable (hname : ∀ e ∈ perVenue.entries, ∀ t ∈ e.2, t.venueName = e.1)
variable (hadmits : ∀ t ∈ consolidated, t.venueName ∉ p.excludedVenues → admits p t = true)

include hrun hname hadmits

/-- A print of the tape comes from a venue that is not excluded, and so all prints of that venue
are admitted. -/
lemma exists_stream_of_mem_secondTrades (ht : t ∈ secondTrades p consolidated sec) :
    ∃ e ∈ perVenue.entries,
      ((secondTrades p consolidated sec).filter fun u => decide (u.venueName = t.venueName)) =
        e.2.filter fun u => decide (u.second = sec) := by
  have hmem := mem_secondTrades_iff.1 ht
  rcases (mem_mergeTrades_iff hrun).1 hmem.1 with ⟨e, he, hte⟩
  have hexcl : t.venueName ∉ p.excludedVenues := by
    intro hexcl
    have hno : admits p t = false := by simp [admits, hexcl]
    rw [hmem.2.1] at hno
    cases hno
  refine ⟨e, he, ?_⟩
  rw [hname e he t hte, ← filter_venueName_mergeTrades hrun hname he, secondTrades,
    List.filter_filter, List.filter_filter]
  refine List.filter_congr ?_
  intro u hu
  by_cases hv : u.venueName = e.1
  · have hok : admits p u = true := by
      refine hadmits u hu ?_
      rw [hv, ← hname e he t hte]
      exact hexcl
    simp [hv, hok]
  · simp [hv]

lemma closingPrices_ne_nil (ht : t ∈ secondTrades p consolidated sec) :
    closingPrices perVenue sec ≠ [] := by
  rcases exists_stream_of_mem_secondTrades hrun hname hadmits ht with ⟨e, he, hstream⟩
  have hte : t ∈ e.2.filter fun u => decide (u.second = sec) := by
    rw [← hstream]
    exact List.mem_filter.2 ⟨ht, decide_eq_true rfl⟩
  exact List.ne_nil_of_mem
    (price_mem_closingPrices he (List.getLast?_eq_some_getLast (List.ne_nil_of_mem hte)))

/-- A last survivor that all venues close above, or all below, is left behind. -/
lemma leftBehind_of_oneSided (hlast : (keptIn p consolidated sec).getLast? = some t)
    (hside : OneSided (closingPrices perVenue sec) t.price) :
    LeftBehind p perVenue (secondTrades p consolidated sec) t := by
  have ht := keptIn_sublist.subset (List.mem_of_getLast? hlast)
  rcases getLast?_keptIn_eq_some_iff.1 hlast with ⟨before, after, hsplit, hkept, hafter⟩
  refine ⟨⟨before, after, hsplit, hkept, hafter, ?_⟩, ?_⟩
  · -- Otherwise `t` is the last print of its venue, and so one of the closes.
    by_contra hnone
    rcases exists_stream_of_mem_secondTrades hrun hname hadmits ht with ⟨e, he, hstream⟩
    have hown : (e.2.filter fun u => decide (u.second = sec)).getLast? = some t := by
      rw [← hstream]
      refine getLast?_filter_eq_some_iff.2 ⟨before, after, hsplit, decide_eq_true rfl, ?_⟩
      intro u hu
      exact decide_eq_false fun huv => hnone ⟨u, hu, huv⟩
    exact hside.ne (price_mem_closingPrices he hown) rfl
  · rw [(mem_secondTrades_iff.1 ht).2.2]
    exact hside

end Streams

/-- The check is silent exactly if no second leaves its last surviving print behind. -/
theorem checkAggWithinVenueRange_eq_nil_iff (p : AggParams) (nowNs : Int)
    (clock : String → Int) (perVenue : Dict String (List Trade))
    (hlen : 2 ≤ perVenue.entries.length)
    (hsorted : ∀ e ∈ perVenue.entries, e.2.Pairwise fun x y => x.tsNs ≤ y.tsNs)
    (hpos : ∀ e ∈ perVenue.entries, ∀ t ∈ e.2, 0 < t.price ∧ 0 < t.qty)
    (hvenue : ∀ e ∈ perVenue.entries, ∀ t ∈ e.2, t.venue = some e.1)
    (hlag : ∀ e ∈ perVenue.entries, ∀ t ∈ e.2, ∀ lagNs ∈ staleLagNs p.staleRecvLagMs,
      t.recv - t.tsNs ≤ lagNs) :
    ∃ consolidated, mergeTrades perVenue = some consolidated ∧
      (checkAggWithinVenueRange (buildAggBars p nowNs consolidated).1
          (venueBars p.symbol clock perVenue) = [] ↔
        ∀ sec t, ¬ LeftBehind p perVenue (secondTrades p consolidated sec) t) := by
  rcases exists_mergeTrades perVenue with ⟨consolidated, hrun⟩
  have hname : ∀ e ∈ perVenue.entries, ∀ t ∈ e.2, t.venueName = e.1 := by
    intro e he t ht
    rw [Trade.venueName, hvenue e he t ht, Option.getD_some]
  have hadmits := admits_of_mem_mergeTrades (p := p) hrun (fun e he t ht => (hpos e he t ht).2) hlag
  refine ⟨consolidated, hrun, ?_⟩
  have hlen' : 2 ≤ (venueBars p.symbol clock perVenue).entries.length := by
    simpa [venueBars, Dict.mapValues] using hlen
  rw [checkAggWithinVenueRange_eq_nil_iff_oneSided hlen']
  simp only [closesAt_venueBars p.symbol clock hsorted, get?_closeSeries_buildAggBars]
  constructor
  · intro h sec t hleft
    rcases hleft.dropsTail with ⟨before, after, hsplit, hkept, hafter, _⟩
    have hlast : (keptIn p consolidated sec).getLast? = some t :=
      getLast?_keptIn_eq_some_iff.2 ⟨before, after, hsplit, hkept, hafter⟩
    have ht := keptIn_sublist.subset (List.mem_of_getLast? hlast)
    have hside := hleft.oneSided
    rw [(mem_secondTrades_iff.1 ht).2.2] at hside
    refine h sec t.price ?_ (closingPrices_ne_nil hrun hname hadmits ht) hside
    rw [hlast, Option.map_some]
  · intro h sec a ha _ hside
    rcases Option.map_eq_some_iff.1 ha with ⟨t, hlast, rfl⟩
    exact h sec t (leftBehind_of_oneSided hrun hname hadmits hlast hside)

/-! ## The condition on the trades -/

/-- A filter that engages on the prints `raw` of a second keeps what is within its threshold of
their median price, a filter that abstains keeps everything. -/
def WithinReach (p : AggParams) (raw : List Trade) (t : Trade) : Prop :=
  Engages raw p.minVenuesForFilter → deviation raw t ≤ filterThresh raw p.madK

instance (p : AggParams) (raw : List Trade) (t : Trade) : Decidable (WithinReach p raw t) :=
  inferInstanceAs (Decidable (_ → _))

/-- The last print within reach is the last print of its venue. -/
def EndsItsVenue (p : AggParams) (raw : List Trade) : Prop :=
  ∀ before t after, raw = before ++ t :: after → WithinReach p raw t →
    (∀ u ∈ after, ¬ WithinReach p raw u) → ∀ u ∈ after, u.venueName ≠ t.venueName

/-- Some print is within reach of an engaged filter, and the last prints of all venues are beyond
its reach on one side, by more than the slack of the check. -/
structure Surges (p : AggParams) (perVenue : Dict String (List Trade)) (raw : List Trade)
    (sec : Int) : Prop where
  engages : Engages raw p.minVenuesForFilter
  reached : ∃ t ∈ raw, deviation raw t ≤ filterThresh raw p.madK
  oneSided :
    (∀ c ∈ closingPrices perVenue sec,
        median (raw.map Trade.price) + filterThresh raw p.madK < c - rangeSlack c) ∨
      ∀ c ∈ closingPrices perVenue sec,
        c + rangeSlack c < median (raw.map Trade.price) - filterThresh raw p.madK

/-- It is enough that the last print of the second is within reach. -/
lemma endsItsVenue_of_last {p : AggParams} {raw : List Trade} {last : Trade}
    (hlast : raw.getLast? = some last) (hreach : WithinReach p raw last) : EndsItsVenue p raw := by
  rintro before t after hsplit _ hout u hu
  have hmem : last ∈ after := by
    have hne : after ≠ [] := List.ne_nil_of_mem hu
    rw [hsplit, List.getLast?_append_of_ne_nil _ (List.cons_ne_nil t after),
      List.getLast?_cons_of_ne_nil hne] at hlast
    exact List.mem_of_getLast? hlast
  exact absurd hreach (hout last hmem)

lemma mem_robustFilter_iff_withinReach {p : AggParams} {raw : List Trade} {t : Trade}
    (ht : t ∈ raw) :
    t ∈ (robustFilter raw p.madK p.minVenuesForFilter).1 ↔ WithinReach p raw t := by
  by_cases hengage : Engages raw p.minVenuesForFilter
  · simp [mem_robustFilter_iff hengage, WithinReach, hengage, ht]
  · simp [robustFilter_fst, WithinReach, hengage, ht]

/-- A second that is left behind does not end in the last print of a venue. -/
lemma LeftBehind.not_endsItsVenue {p : AggParams} {raw : List Trade} {t : Trade}
    (h : LeftBehind p perVenue raw t) : ¬ EndsItsVenue p raw := by
  rintro hends
  rcases h.dropsTail with ⟨before, after, hsplit, hkept, hafter, u, hu, hvenue⟩
  have hmem : ∀ v ∈ after, v ∈ raw := fun v hv => by simp [hsplit, hv]
  refine hends before t after hsplit ?_ ?_ u hu hvenue
  · exact (mem_robustFilter_iff_withinReach (by simp [hsplit])).1 hkept
  · intro v hv hreach
    exact hafter v hv ((mem_robustFilter_iff_withinReach (hmem v hv)).2 hreach)

/-- What survives lies between the venues' last prints of a surge and the other side. -/
lemma Surges.oneSided_of_kept {p : AggParams} {raw : List Trade} {sec : Int} {t : Trade}
    (h : Surges p perVenue raw sec)
    (ht : t ∈ (robustFilter raw p.madK p.minVenuesForFilter).1) :
    OneSided (closingPrices perVenue sec) t.price := by
  have hdev := abs_le.1 ((mem_robustFilter_iff h.engages).1 ht).2
  rcases h.oneSided with habove | hbelow
  · refine Or.inl fun c hc => lt_of_le_of_lt ?_ (habove c hc)
    linarith
  · refine Or.inr fun c hc => lt_of_lt_of_le (hbelow c hc) ?_
    linarith

/-- The check is silent if every second ends its venue within reach of the filter, and raises its
issue if one second surges. -/
theorem checkAggWithinVenueRange_outcome (p : AggParams) (nowNs : Int)
    (clock : String → Int) (perVenue : Dict String (List Trade))
    (hlen : 2 ≤ perVenue.entries.length)
    (hsorted : ∀ e ∈ perVenue.entries, e.2.Pairwise fun x y => x.tsNs ≤ y.tsNs)
    (hpos : ∀ e ∈ perVenue.entries, ∀ t ∈ e.2, 0 < t.price ∧ 0 < t.qty)
    (hvenue : ∀ e ∈ perVenue.entries, ∀ t ∈ e.2, t.venue = some e.1)
    (hlag : ∀ e ∈ perVenue.entries, ∀ t ∈ e.2, ∀ lagNs ∈ staleLagNs p.staleRecvLagMs,
      t.recv - t.tsNs ≤ lagNs) :
    ∃ consolidated, mergeTrades perVenue = some consolidated ∧
      ((∀ sec, EndsItsVenue p (secondTrades p consolidated sec)) →
        checkAggWithinVenueRange (buildAggBars p nowNs consolidated).1
          (venueBars p.symbol clock perVenue) = []) ∧
      ((∃ sec, Surges p perVenue (secondTrades p consolidated sec) sec) →
        checkAggWithinVenueRange (buildAggBars p nowNs consolidated).1
          (venueBars p.symbol clock perVenue) ≠ []) := by
  rcases checkAggWithinVenueRange_eq_nil_iff p nowNs clock perVenue hlen hsorted hpos hvenue hlag
    with ⟨consolidated, hrun, hiff⟩
  refine ⟨consolidated, hrun, ?_, ?_⟩
  · intro hends
    exact hiff.2 fun sec t hleft => hleft.not_endsItsVenue (hends sec)
  · rintro ⟨sec, hsurge⟩ hsilent
    have hname : ∀ e ∈ perVenue.entries, ∀ t ∈ e.2, t.venueName = e.1 := by
      intro e he t ht
      rw [Trade.venueName, hvenue e he t ht, Option.getD_some]
    have hadmits :=
      admits_of_mem_mergeTrades (p := p) hrun (fun e he t ht => (hpos e he t ht).2) hlag
    -- Something survives, and the last survivor is left behind.
    rcases hsurge.reached with ⟨s, hs, hreach⟩
    have hkept : s ∈ keptIn p consolidated sec :=
      (mem_robustFilter_iff hsurge.engages).2 ⟨hs, hreach⟩
    have hlast := List.getLast?_eq_some_getLast (List.ne_nil_of_mem hkept)
    have hside := hsurge.oneSided_of_kept (List.mem_of_getLast? hlast)
    exact hiff.1 hsilent sec _ (leftBehind_of_oneSided hrun hname hadmits hlast hside)

/-- Three venues trade at 100 and all close the second at 105.  The deviation of four of the seven
prints is zero, so the degenerate guard drops every 105. -/
def surge : Dict String (List Trade) where
  entries :=
    [("binance",
        [{ tsNs := 1, venue := some "binance", price := 100, size := some 1 },
          { tsNs := 2, venue := some "binance", price := 100, size := some 1 },
          { tsNs := 5, venue := some "binance", price := 105, size := some 1 }]),
      ("coinbase",
        [{ tsNs := 3, venue := some "coinbase", price := 100, size := some 1 },
          { tsNs := 6, venue := some "coinbase", price := 105, size := some 1 }]),
      ("kraken",
        [{ tsNs := 4, venue := some "kraken", price := 100, size := some 1 },
          { tsNs := 7, venue := some "kraken", price := 105, size := some 1 }])]
  nodup := by decide

/-- A correct tape of sound spot trades can be flagged, at the default settings. -/
theorem agg_close_outside_venue_range :
    ¬ ∀ (p : AggParams) (nowNs : Int) (clock : String → Int)
        (perVenue : Dict String (List Trade)), 2 ≤ perVenue.entries.length →
      (∀ e ∈ perVenue.entries, e.1 ∈ spotVenues) →
      (∀ e ∈ perVenue.entries, e.2.Pairwise fun x y => x.tsNs ≤ y.tsNs) →
      (∀ e ∈ perVenue.entries, ∀ t ∈ e.2, 0 < t.price ∧ 0 < t.qty) →
      (∀ e ∈ perVenue.entries, ∀ t ∈ e.2, t.venue = some e.1) →
      (∀ e ∈ perVenue.entries, ∀ t ∈ e.2, ∀ lagNs ∈ staleLagNs p.staleRecvLagMs,
        t.recv - t.tsNs ≤ lagNs) →
      ∃ consolidated, mergeTrades perVenue = some consolidated ∧
        checkAggWithinVenueRange (buildAggBars p nowNs consolidated).1
          (venueBars p.symbol clock perVenue) = [] := by
  intro h
  rcases h { symbol := "BTC-USD", staleRecvLagMs := some 5000 } 0 (fun _ => 0) surge
    (by decide) (by decide) (by decide) (by decide +kernel) (by decide) (by decide +kernel) with
    ⟨consolidated, hrun, hcheck⟩
  have hissue : (mergeTrades surge).map (fun consolidated =>
      (checkAggWithinVenueRange
        (buildAggBars { symbol := "BTC-USD", staleRecvLagMs := some 5000 } 0 consolidated).1
        (venueBars "BTC-USD" (fun _ => 0) surge)).length) = some 1 := by decide +kernel
  rw [hrun, Option.map_some] at hissue
  rw [hcheck] at hissue
  exact absurd (Option.some.inj hissue) (by decide)

/-- Three venues, one of them with a wild print in the middle of the second, which the filter drops;
all go on to print near the others. -/
def wildPrint : Dict String (List Trade) where
  entries :=
    [("binance",
        [{ tsNs := 1, venue := some "binance", price := 100, size := some 1 },
          { tsNs := 4, venue := some "binance", price := 900, size := some 1 },
          { tsNs := 7, venue := some "binance", price := 102, size := some 1 }]),
      ("coinbase",
        [{ tsNs := 2, venue := some "coinbase", price := 101, size := some 1 },
          { tsNs := 5, venue := some "coinbase", price := 103, size := some 1 }]),
      ("kraken",
        [{ tsNs := 3, venue := some "kraken", price := 99, size := some 1 },
          { tsNs := 6, venue := some "kraken", price := 101, size := some 1 }])]
  nodup := by decide

theorem checkAggWithinVenueRange_outcome_wildPrint :
    ∃ consolidated, mergeTrades wildPrint = some consolidated ∧
      (keptIn { symbol := "BTC-USD" } consolidated 0).length = 6 ∧
      checkAggWithinVenueRange (buildAggBars { symbol := "BTC-USD" } 0 consolidated).1
        (venueBars "BTC-USD" (fun _ => 0) wildPrint) = [] := by
  rcases checkAggWithinVenueRange_outcome { symbol := "BTC-USD" } 0 (fun _ => 0) wildPrint
    (by decide) (by decide) (by decide +kernel) (by decide) (by decide +kernel) with
    ⟨consolidated, hrun, hsilent, _⟩
  have hsizes : (mergeTrades wildPrint).map (fun l => (l.all fun t => t.second == 0,
      (keptIn { symbol := "BTC-USD" } l 0).length,
      (secondTrades { symbol := "BTC-USD" } l 0).getLast?.all fun t =>
        decide (WithinReach { symbol := "BTC-USD" }
          (secondTrades { symbol := "BTC-USD" } l 0) t))) = some (true, 6, true) := by
    decide +kernel
  rw [hrun, Option.map_some, Option.some.injEq, Prod.mk.injEq, Prod.mk.injEq] at hsizes
  rcases hsizes with ⟨hsecond, hlen, hlast⟩
  refine ⟨consolidated, hrun, hlen, hsilent ?_⟩
  intro sec
  cases hend : (secondTrades { symbol := "BTC-USD" } consolidated sec).getLast? with
  | none =>
      rw [List.getLast?_eq_none_iff.1 hend]
      intro before t after hsplit
      simp at hsplit
  | some last =>
      -- The only second is the first one.
      have hmem := mem_secondTrades_iff.1 (List.mem_of_getLast? hend)
      have hzero : last.second = 0 := by simpa using List.all_eq_true.1 hsecond last hmem.1
      have hsec : sec = 0 := hmem.2.2.symm.trans hzero
      subst hsec
      rw [hend] at hlast
      exact endsItsVenue_of_last hend (of_decide_eq_true hlast)

end Tape

end CryptoData
