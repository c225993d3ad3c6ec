import CryptoData.Core.Consolidated.Build
import CryptoData.Core.Consolidated.Merge

/-!
# Tape — the cross-venue bars as a function of the spot trades

`consolidate` is the second half of the daily build: restrict the per-venue trades to the spot
venues, merge them, and roll the merged stream up with the global bit index.

The directory listing fixes the order of the dictionary, and with it the index that breaks ties in
the heap.  That index is never reached: trades of different venues differ in the venue component
of the merge key.  Hence `consolidate_eq_of_spot_eq`, a two-run statement: what the tape says
depends on the lists of the spot venues and on nothing else.
-/

namespace CryptoData

open Foundation

/-! ## The algorithm -/

/-- The `aggregate` section of the ingest configuration, with its defaults. -/
structure AggConfig where
  madK : ℚ := 5
  minVenuesForFilter : Int := 3
  staleRecvLagMs : ℚ := 5000

/-- `{v: rows for v, rows in per_venue_trades.items() if v in SPOT_VENUES}`. -/
def spotTrades (perVenueTrades : Dict String (List Trade)) : Dict String (List Trade) :=
  perVenueTrades.filter fun e => spotVenues.contains e.1

/-- The arguments that `build_for` passes to `build_agg_bars`. -/
def tapeParams (cfg : AggConfig) (symbol : String) : AggParams where
  symbol := symbol
  venuesIndex := some (venueBitmaskIndex allSources)
  madK := cfg.madK
  minVenuesForFilter := cfg.minVenuesForFilter
  staleRecvLagMs := some cfg.staleRecvLagMs

/-- The merged stream, and the bars and diagnostics built from it. -/
structure Tape where
  consolidated : List Trade
  aggBars : List Bar
  diags : List Diag

/-- The consolidated tape of one day; without spot trades there is none.  `none` is the error of
comparing two trades inside the heap. -/
def consolidate (cfg : AggConfig) (symbol : String) (nowNs : Int)
    (perVenueTrades : Dict String (List Trade)) : Option Tape :=
  if (spotTrades perVenueTrades).entries.isEmpty then
    some ⟨[], [], []⟩
  else do
    -- Only the spot lists go in; the bit index is the one of all sources.
    let consolidated ← mergeTrades (spotTrades perVenueTrades)
    let built := buildAggBars (tapeParams cfg symbol) nowNs consolidated
    some ⟨consolidated, built.1, built.2⟩

/-- Trades with a size and within the lag budget are only turned away for their venue. -/
lemma admits_of_mem_mergeTrades {p : AggParams} {perVenue : Dict String (List Trade)}
    {consolidated : List Trade} (hrun : mergeTrades perVenue = some consolidated)
    (hqty : ∀ e ∈ perVenue.entries, ∀ t ∈ e.2, 0 < t.qty)
    (hlag : ∀ e ∈ perVenue.entries, ∀ t ∈ e.2, ∀ lagNs ∈ staleLagNs p.staleRecvLagMs,
      t.recv - t.tsNs ≤ lagNs) :
    ∀ t ∈ consolidated, t.venueName ∉ p.excludedVenues → admits p t = true := by
  intro t ht hvenue
  rcases (mem_mergeTrades_iff hrun).1 ht with ⟨e, he, hte⟩
  exact admits_eq_true hvenue (hlag e he t hte) (hqty e he t hte)

/-- The tape is always built: from trades of the collected lists, by `build_agg_bars`. -/
theorem consolidate_spec (cfg : AggConfig) (symbol : String) (nowNs : Int)
    (perVenueTrades : Dict String (List Trade)) :
    ∃ tape, consolidate cfg symbol nowNs perVenueTrades = some tape ∧
      tape.aggBars = (buildAggBars (tapeParams cfg symbol) nowNs tape.consolidated).1 ∧
      ∀ t ∈ tape.consolidated, ∃ e ∈ perVenueTrades.entries, t ∈ e.2 := by
  cases hempty : (spotTrades perVenueTrades).entries.isEmpty with
  | true =>
      refine ⟨⟨[], [], []⟩, by simp [consolidate, hempty], rfl, ?_⟩
      intro t ht
      cases ht
  | false =>
      rcases exists_mergeTrades (spotTrades perVenueTrades) with ⟨out, hrun⟩
      refine ⟨⟨out, (buildAggBars (tapeParams cfg symbol) nowNs out).1,
        (buildAggBars (tapeParams cfg symbol) nowNs out).2⟩, ?_, rfl, ?_⟩
      · simp [consolidate, hempty, hrun]
      · intro t ht
        rcases (mem_mergeTrades_iff hrun).1 ht with ⟨e, he, hte⟩
        exact ⟨e, (List.mem_filter.1 he).1, hte⟩

/-- The merged stream holds the trades of the spot venues. -/
theorem mem_consolidated_iff {cfg : AggConfig} {symbol : String} {nowNs : Int}
    {perVenueTrades : Dict String (List Trade)} {tape : Tape}
    (h : consolidate cfg symbol nowNs perVenueTrades = some tape) {t : Trade} :
    t ∈ tape.consolidated ↔ ∃ v ∈ spotVenues, ∃ rows ∈ perVenueTrades.get? v, t ∈ rows := by
  have hspot : (∃ e ∈ (spotTrades perVenueTrades).entries, t ∈ e.2) ↔
      ∃ v ∈ spotVenues, ∃ rows ∈ perVenueTrades.get? v, t ∈ rows := by
    simp only [spotTrades, Dict.filter, List.mem_filter, List.contains_iff_mem]
    constructor
    · rintro ⟨e, ⟨he, hv⟩, ht⟩
      exact ⟨e.1, hv, e.2, Dict.get?_eq_some_iff.2 he, ht⟩
    · rintro ⟨v, hv, rows, hrows, ht⟩
      exact ⟨(v, rows), ⟨Dict.get?_eq_some_iff.1 hrows, hv⟩, ht⟩
  rw [← hspot]
  cases hempty : (spotTrades perVenueTrades).entries.isEmpty with
  | true =>
      have hnil := List.isEmpty_iff.1 hempty
      simp only [consolidate, hempty, if_true] at h
      cases h
      simp [hnil]
  | false =>
      rcases exists_mergeTrades (spotTrades perVenueTrades) with ⟨out, hrun⟩
      simp only [consolidate, hempty, hrun, Bool.false_eq_true, if_false, Option.bind_eq_bind,
        Option.bind_some] at h
      cases h
      exact mem_mergeTrades_iff hrun

/-! ## The merge does not see the directory order -/

lemma mergeKey_ne_of_venueName_ne {x y : Trade} (h : x.venueName ≠ y.venueName) :
    mergeKey x ≠ mergeKey y := by
  intro hkey
  have hrest := congrArg (fun k : MergeKey => (ofLex (ofLex k).2).2) hkey
  exact h hrest

/-- The lists of a dictionary whose trades carry their key as venue share no merge key. -/
lemma apart_values {d : Dict String (List Trade)}
    (hvenue : ∀ v rows, d.get? v = some rows → ∀ t ∈ rows, t.venueName = v) :
    Apart mergeKey (d.values : Multiset (List Trade)) := by
  -- Two entries have different keys, and each list carries its own key in the merge key.
  have hpair : d.entries.Pairwise fun e f => ApartStreams mergeKey e.2 f.2 := by
    have hkeys : d.entries.Pairwise fun e f => e.1 ≠ f.1 := List.pairwise_map.1 d.nodup
    refine hkeys.imp_of_mem ?_
    intro e f he hf hne x hx y hy
    have hxv : x.venueName = e.1 := hvenue e.1 e.2 (Dict.get?_eq_some_iff.2 he) x hx
    have hyv : y.venueName = f.1 := hvenue f.1 f.2 (Dict.get?_eq_some_iff.2 hf) y hy
    apply mergeKey_ne_of_venueName_ne
    rw [hxv, hyv]
    exact hne
  exact Multiset.pairwise_coe_iff_pairwise.2 (List.pairwise_map.2 hpair)

/-- Two dictionaries with the same lists merge to the same stream, whatever their order. -/
theorem mergeTrades_eq_of_get?_eq {d₁ d₂ : Dict String (List Trade)}
    (heq : ∀ v, d₁.get? v = d₂.get? v)
    (hvenue : ∀ v rows, d₁.get? v = some rows → ∀ t ∈ rows, t.venueName = v) :
    ∃ out, mergeTrades d₁ = some out ∧ mergeTrades d₂ = some out := by
  have hvalues : (d₁.values : Multiset (List Trade)) = d₂.values :=
    Multiset.coe_eq_coe.2 ((Dict.entries_perm_of_get?_eq heq).map Prod.snd)
  rcases mergeLists_merges d₁.values with ⟨out₁, hrun₁, hmerge₁⟩
  rcases mergeLists_merges d₂.values with ⟨out₂, hrun₂, hmerge₂⟩
  rw [← hvalues] at hmerge₂
  -- Both runs merge one multiset of streams, and apart streams have one merge.
  have hout : out₂ = out₁ := hmerge₁.unique (apart_values hvenue) hmerge₂
  exact ⟨out₁, hrun₁, by simpa [mergeTrades, hout] using hrun₂⟩

/-! ## The build time only shows in the stamp -/

/-- A bar without its build stamp. -/
def Bar.unstamped (b : Bar) : Bar :=
  { b with ingestedAtNs := none }

lemma rollUp_unstamped (p : AggParams) (venuesIndex : Dict String ℕ) (now₁ now₂ sec : Int)
    (kept : List Trade) :
    (rollUp p venuesIndex now₁ sec kept).map Bar.unstamped =
      (rollUp p venuesIndex now₂ sec kept).map Bar.unstamped := by
  cases kept with
  | nil => rfl
  | cons first rest =>
      by_cases hvolume : ((first :: rest).map Trade.qty).sum ≤ 0
      · simp only [rollUp, hvolume, if_true]
      · simp only [rollUp, hvolume, if_false, Option.map_some, Bar.unstamped]

theorem buildAggBars_unstamped (p : AggParams) (now₁ now₂ : Int) (consolidated : List Trade) :
    (buildAggBars p now₁ consolidated).1.map Bar.unstamped =
        (buildAggBars p now₂ consolidated).1.map Bar.unstamped ∧
      (buildAggBars p now₁ consolidated).2 = (buildAggBars p now₂ consolidated).2 := by
  rw [buildAggBars_eq, buildAggBars_eq]
  simp only [List.filterMap_map, List.map_filterMap, Function.comp_def, aggSecond]
  refine ⟨List.filterMap_congr fun sec _ => ?_, trivial⟩
  exact rollUp_unstamped _ _ _ _ _ _

/-! ## The tape as a function of the spot lists -/

/-- Two collections of trades that agree on the spot venues, each spot list carrying its venue,
give the same merged stream, the same diagnostics and the same bars up to their build stamp. -/
theorem consolidate_eq_of_spot_eq (cfg : AggConfig) (symbol : String) (now₁ now₂ : Int)
    (d₁ d₂ : Dict String (List Trade)) (hspot : ∀ v ∈ spotVenues, d₁.get? v = d₂.get? v)
    (hvenue : ∀ v ∈ spotVenues, ∀ rows ∈ d₁.get? v, ∀ t ∈ rows, t.venueName = v) :
    ∃ tape₁ tape₂, consolidate cfg symbol now₁ d₁ = some tape₁ ∧
      consolidate cfg symbol now₂ d₂ = some tape₂ ∧
      tape₁.aggBars.map Bar.unstamped = tape₂.aggBars.map Bar.unstamped ∧
      tape₁.diags = tape₂.diags ∧ tape₁.consolidated = tape₂.consolidated := by
  -- Outside the spot venues both restrictions are empty.
  have hlookup : ∀ v, (spotTrades d₁).get? v = (spotTrades d₂).get? v := by
    intro v
    simp only [spotTrades, Dict.get?_filter_key, List.contains_iff_mem]
    by_cases hv : v ∈ spotVenues
    · simp only [hv, if_true, hspot v hv]
    · simp only [hv, if_false]
  have hcarry : ∀ v rows, (spotTrades d₁).get? v = some rows → ∀ t ∈ rows, t.venueName = v := by
    intro v rows hrows
    simp only [spotTrades, Dict.get?_filter_key, List.contains_iff_mem] at hrows
    by_cases hv : v ∈ spotVenues
    · have hrows' : d₁.get? v = some rows := by simpa only [hv, if_true] using hrows
      exact hvenue v hv rows hrows'
    · simp only [hv, if_false] at hrows
      cases hrows
  have hperm := Dict.entries_perm_of_get?_eq hlookup
  cases hempty : (spotTrades d₁).entries.isEmpty with
  | true =>
      have hnil : (spotTrades d₁).entries = [] := List.isEmpty_iff.1 hempty
      have hempty₂ : (spotTrades d₂).entries.isEmpty = true := by
        rw [hnil] at hperm
        simp [List.nil_perm.1 hperm]
      refine ⟨⟨[], [], []⟩, ⟨[], [], []⟩, ?_, ?_, rfl, rfl, rfl⟩
      · simp [consolidate, hempty]
      · simp [consolidate, hempty₂]
  | false =>
      have hempty₂ : (spotTrades d₂).entries.isEmpty = false := by
        have hlen := hperm.length_eq
        cases h₁ : (spotTrades d₁).entries with
        | nil => simp [h₁] at hempty
        | cons e es =>
            cases h₂ : (spotTrades d₂).entries with
            | nil => simp [h₁, h₂] at hlen
            | cons f fs => rfl
      rcases mergeTrades_eq_of_get?_eq hlookup hcarry with ⟨out, hmerge₁, hmerge₂⟩
      have hbars := buildAggBars_unstamped (tapeParams cfg symbol) now₁ now₂ out
      refine ⟨⟨out, (buildAggBars (tapeParams cfg symbol) now₁ out).1,
          (buildAggBars (tapeParams cfg symbol) now₁ out).2⟩,
        ⟨out, (buildAggBars (tapeParams cfg symbol) now₂ out).1,
          (buildAggBars (tapeParams cfg symbol) now₂ out).2⟩, ?_, ?_, hbars.1, hbars.2, rfl⟩
      · simp [consolidate, hempty, hmerge₁]
      · simp [consolidate, hempty₂, hmerge₂]

/-- One print of a spot venue and one of a venue that may not contribute, in either order. -/
theorem consolidate_eq_of_spot_eq_sample :
    ∃ tape₁ tape₂,
      consolidate {} "BTC-USD" 7
          ⟨[("okx", [{ tsNs := 0, venue := some "okx", price := 100, size := some 1 }]),
            ("bybit", [{ tsNs := 0, venue := some "bybit", price := 900, size := some 9 }])],
            by decide⟩ = some tape₁ ∧
      consolidate {} "BTC-USD" 8
          ⟨[("bybit", []),
            ("okx", [{ tsNs := 0, venue := some "okx", price := 100, size := some 1 }])],
            by decide⟩ = some tape₂ ∧
      tape₁.aggBars.map Bar.unstamped = tape₂.aggBars.map Bar.unstamped ∧
      tape₁.diags = tape₂.diags ∧ tape₁.consolidated = tape₂.consolidated :=
  consolidate_eq_of_spot_eq {} "BTC-USD" 7 8 _ _ (by decide +kernel) (by decide +kernel)

end CryptoData
