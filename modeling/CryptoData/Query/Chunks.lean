import CryptoData.Core.Tower
import CryptoData.Foundation.StableSort
import CryptoData.Query.Bars

/-!
# Chunks — one query or several

A long history is read in chunks `[start, m)`, `[m, end)`.  The bins of each query are anchored at
the midnight of its own first row, so the chunks fit together when the width divides a day and `m`
is a multiple of it: the selected rows are cut at `m` (`selectBars_append`), no bin has rows on both
sides (`resampleBars_append`), and a query for one source is one resampled frame
(`getBarsOn_one_source`).

`getBarsOn` is `get_bars` over either way to count the bins; the one counted from the epoch is that
of the other queries (`getBarsOn_resampleBars`).
-/

namespace CryptoData

open Foundation

/-! ## The query, with its resampling -/

/-- `get_bars(symbol, start, end, timeframe, sources, asof=asof)` on a given `resample_bars`. -/
def getBarsOn (resample : List Bar → Timeframe → List Bar) (engine : QueryEngine) (s : Store Bar)
    (symbol : String) (startNs endNs : Int) (timeframe : Timeframe) (sources : List String)
    (asof : Option Int) : List Bar :=
  -- `sources or ["agg"]`
  let venues := if sources.isEmpty then ["agg"] else sources
  let df := selectBars engine s symbol venues startNs endNs asof
  let outFrames := (bucket Bar.venue df).entries.flatMap fun group =>
    (resample group.2 timeframe).map fun b => { b with venue := group.1, symbol := symbol }
  engine.sortIndex outFrames

/-- With bins counted from the epoch it is the query of before. -/
lemma getBarsOn_resampleBars : getBarsOn resampleBars = getBars := rfl

/-- What a bar of a timeframe is computed from. -/
def BuiltFrom : Timeframe → List Bar → Bar → Prop
  | .oneSecond, group, b => group = [b]
  | .windows _ _, group, b => rollWindow b.tsNs group = some b

/-! ## Frames -/

section Frames

variable {early late : List Bar} {m : Int}

lemma windowLabel_lt_iff {widthNs : ℕ} (hpos : 0 < widthNs) (hm : (widthNs : Int) ∣ m) (ts : Int) :
    windowLabel widthNs ts < m ↔ ts < m := by
  have hwidth : (0 : Int) < widthNs := by exact_mod_cast hpos
  rcases hm with ⟨n, rfl⟩
  unfold windowLabel
  rw [mul_comm (widthNs : Int) n, mul_lt_mul_iff_left₀ hwidth]
  exact Int.ediv_lt_iff_lt_mul hwidth

/-- No window has rows on both sides of a multiple of the width. -/
theorem resampleBars_append (timeframe : Timeframe) (hm : (timeframe.widthNs : Int) ∣ m)
    (hearly : ∀ b ∈ early, b.tsNs < m) (hlate : ∀ b ∈ late, m ≤ b.tsNs) :
    resampleBars (early ++ late) timeframe =
      resampleBars early timeframe ++ resampleBars late timeframe := by
  cases timeframe with
  | oneSecond => rfl
  | windows widthNs pos =>
      let label : Bar → Int := fun b => windowLabel widthNs b.tsNs
      have hbefore : ∀ b ∈ early, label b < m :=
        fun b hb => (windowLabel_lt_iff pos hm b.tsNs).2 (hearly b hb)
      have hafter : ∀ b ∈ late, m ≤ label b := by
        intro b hb
        have hlt := windowLabel_lt_iff pos hm b.tsNs
        exact not_lt.1 fun h => absurd (hlt.1 h) (not_lt.2 (hlate b hb))
      have hkeys : (bucket label (early ++ late)).sortedKeys =
          (bucket label early).sortedKeys ++ (bucket label late).sortedKeys := by
        refine List.Pairwise.eq_of_mem_iff (Dict.sortedKeys_sortedLT _).pairwise
          (List.pairwise_append.2 ⟨(Dict.sortedKeys_sortedLT _).pairwise,
            (Dict.sortedKeys_sortedLT _).pairwise, ?_⟩) ?_
        · intro j hj k hk
          rcases mem_keys_bucket.1 (Dict.mem_sortedKeys.1 hj) with ⟨b, hb, rfl⟩
          rcases mem_keys_bucket.1 (Dict.mem_sortedKeys.1 hk) with ⟨c, hc, rfl⟩
          exact lt_of_lt_of_le (hbefore b hb) (hafter c hc)
        · intro k
          simp only [List.mem_append, Dict.mem_sortedKeys, mem_keys_bucket, or_and_right,
            exists_or]
      have hone : ∀ k ∈ (bucket label early).sortedKeys,
          (late.filter fun b => decide (label b = k)) = [] := by
        intro k hk
        rcases mem_keys_bucket.1 (Dict.mem_sortedKeys.1 hk) with ⟨b, hb, rfl⟩
        refine List.filter_eq_nil_iff.2 ?_
        intro c hc heq
        have hlt := lt_of_lt_of_le (hbefore b hb) (hafter c hc)
        exact absurd (of_decide_eq_true heq) hlt.ne'
      have htwo : ∀ k ∈ (bucket label late).sortedKeys,
          (early.filter fun b => decide (label b = k)) = [] := by
        intro k hk
        rcases mem_keys_bucket.1 (Dict.mem_sortedKeys.1 hk) with ⟨c, hc, rfl⟩
        refine List.filter_eq_nil_iff.2 ?_
        intro b hb heq
        have hlt := lt_of_lt_of_le (hbefore b hb) (hafter c hc)
        exact absurd (of_decide_eq_true heq) hlt.ne
      rw [resampleBars_windows _ pos, resampleBars_windows _ pos, resampleBars_windows _ pos]
      change List.filterMap _ (bucket label (early ++ late)).sortedKeys = _
      rw [hkeys, List.filterMap_append]
      congr 1
      · refine List.filterMap_congr ?_
        intro k hk
        rw [List.filter_append, hone k hk, List.append_nil]
      · refine List.filterMap_congr ?_
        intro k hk
        rw [List.filter_append, htwo k hk, List.nil_append]

/-- A resampled bar is made of rows of its own window. -/
lemma builtFrom_of_mem_resampleBars {bars : List Bar} (timeframe : Timeframe) {b : Bar}
    (hb : b ∈ resampleBars bars timeframe) :
    ∃ group : List Bar, group.Sublist bars ∧ BuiltFrom timeframe group b ∧
      ∀ row ∈ group, b.tsNs ≤ row.tsNs ∧ row.tsNs < b.tsNs + timeframe.widthNs := by
  cases timeframe with
  | oneSecond =>
      refine ⟨[b], List.singleton_sublist.2 hb, rfl, ?_⟩
      intro row hrow
      rw [List.mem_singleton.1 hrow]
      exact ⟨le_refl _, lt_add_of_pos_right _ (by decide)⟩
  | windows widthNs pos =>
      rw [resampleBars_windows] at hb
      rcases List.mem_filterMap.1 hb with ⟨label, hlabel, hsome⟩
      have hts := rollWindow_tsNs hsome
      rcases mem_keys_bucket.1 (Dict.mem_sortedKeys.1 hlabel) with ⟨c, _, hc⟩
      refine ⟨bars.filter fun b => decide (windowLabel widthNs b.tsNs = label),
        List.filter_sublist, ?_, ?_⟩
      · change rollWindow b.tsNs _ = some b
        rw [hts]
        exact hsome
      · intro row hrow
        rw [hts]
        exact (windowLabel_eq_label_iff pos hc).1 (of_decide_eq_true (List.mem_filter.1 hrow).2)

end Frames

/-! ## One source -/

section Source

variable {engine : QueryEngine} {s : Store Bar} {symbol source : String} {startNs m endNs : Int}
  {asof : Option Int}

lemma selects_of_mem_selectBars {venues : List String} {b : Bar}
    (hb : b ∈ selectBars engine s symbol venues startNs endNs asof) :
    selects symbol venues startNs endNs asof b = true :=
  (List.mem_filter.1 ((selectBars_perm venues startNs endNs asof).mem_iff.1 hb)).2

lemma selects_range {venues : List String} {b : Bar}
    (h : selects symbol venues startNs endNs asof b = true) :
    startNs ≤ b.tsNs ∧ b.tsNs < endNs := by
  simp only [selects, Bool.and_eq_true, decide_eq_true_eq] at h
  exact ⟨h.1.1.2, h.1.2⟩

lemma source_of_mem_selectBars {b : Bar}
    (hb : b ∈ selectBars engine s symbol [source] startNs endNs asof) : b.venue = source :=
  List.mem_singleton.1 (selects_venue (selects_of_mem_selectBars hb))

/-- Among the rows of one venue, `ORDER BY venue, ts_ns` goes by time. -/
lemma venueTime_le_iff {a b : Bar} (h : a.venue = b.venue) :
    venueTime a ≤ venueTime b ↔ a.tsNs ≤ b.tsNs := by
  rw [Prod.Lex.le_iff]
  constructor
  · rintro (hlt | ⟨_, hle⟩)
    · exact absurd h hlt.ne
    · exact hle
  · intro hle
    exact Or.inr ⟨h, hle⟩

lemma selectBars_sorted_time :
    (selectBars engine s symbol [source] startNs endNs asof).Pairwise
      fun a b => a.tsNs ≤ b.tsNs := by
  refine (selectBars_sorted [source] startNs endNs asof).imp_of_mem ?_
  intro a b ha hb hle
  have hvenue : a.venue = b.venue :=
    (source_of_mem_selectBars ha).trans (source_of_mem_selectBars hb).symm
  exact (venueTime_le_iff hvenue).1 hle

/-- The rows of a range, cut at `m`. -/
theorem selectBars_append (hstart : startNs ≤ m) (hend : m ≤ endNs) :
    selectBars engine s symbol [source] startNs endNs asof =
      selectBars engine s symbol [source] startNs m asof ++
        selectBars engine s symbol [source] m endNs asof := by
  let before : Bar → Bool := fun b => decide (b.tsNs < m)
  let rows := (engine.scan s.allRows).filter (selects symbol [source] startNs endNs asof)
  have hselects : ∀ b ∈ rows, selects symbol [source] startNs endNs asof b = true :=
    fun b hb => (List.mem_filter.1 hb).2
  have happart : ∀ x ∈ rows, ∀ y ∈ rows, before x = true → before y = false →
      venueTime x ≤ venueTime y ∧ ¬ venueTime y ≤ venueTime x := by
    intro x hx y hy hbx hby
    have hlt : x.tsNs < y.tsNs :=
      lt_of_lt_of_le (of_decide_eq_true hbx) (not_lt.1 (of_decide_eq_false hby))
    have hvenue : x.venue = y.venue :=
      (List.mem_singleton.1 (selects_venue (hselects x hx))).trans
        (List.mem_singleton.1 (selects_venue (hselects y hy))).symm
    rw [venueTime_le_iff hvenue, venueTime_le_iff hvenue.symm]
    exact ⟨hlt.le, not_le.2 hlt⟩
  have hsplit :=
    insertionSort_eq_append (fun a b : Bar => venueTime a ≤ venueTime b) before rows happart
  have hearly : rows.filter before =
      (engine.scan s.allRows).filter (selects symbol [source] startNs m asof) := by
    rw [List.filter_filter]
    refine List.filter_congr ?_
    intro b _
    simp only [before, selects]
    by_cases hlt : b.tsNs < m
    · simp [hlt, lt_of_lt_of_le hlt hend]
    · simp [hlt]
  have hlate : (rows.filter fun b => !before b) =
      (engine.scan s.allRows).filter (selects symbol [source] m endNs asof) := by
    rw [List.filter_filter]
    refine List.filter_congr ?_
    intro b _
    simp only [before, selects]
    by_cases hle : m ≤ b.tsNs
    · simp [hle, le_trans hstart hle]
    · simp [hle, not_le.1 hle]
  rw [hearly, hlate] at hsplit
  exact hsplit

lemma rollWindow_names {label : Int} {group : List Bar} {c : Bar}
    (h : rollWindow label group = some c)
    (hnames : ∀ b ∈ group, b.symbol = symbol ∧ b.venue = source) :
    c.symbol = symbol ∧ c.venue = source := by
  cases group with
  | nil => exact absurd h (Option.some_ne_none c).symm
  | cons first rest =>
      rw [← Option.some.inj h]
      exact hnames first List.mem_cons_self

lemma resampleBars_names {bars : List Bar} (timeframe : Timeframe)
    (hnames : ∀ b ∈ bars, b.symbol = symbol ∧ b.venue = source) :
    ∀ c ∈ resampleBars bars timeframe, c.symbol = symbol ∧ c.venue = source := by
  cases timeframe with
  | oneSecond => exact hnames
  | windows widthNs pos =>
      rw [resampleBars_windows]
      intro c hc
      rcases List.mem_filterMap.1 hc with ⟨label, _, hsome⟩
      exact rollWindow_names hsome fun b hb => hnames b (List.mem_filter.1 hb).1

lemma resampleBars_sorted {bars : List Bar} (timeframe : Timeframe)
    (hsorted : bars.Pairwise fun a b => a.tsNs ≤ b.tsNs) :
    (resampleBars bars timeframe).Pairwise fun a b => a.tsNs ≤ b.tsNs := by
  cases timeframe with
  | oneSecond => exact hsorted
  | windows widthNs pos =>
      have hlabels := (Dict.sortedKeys_sortedLT
        (bucket (fun b : Bar => windowLabel widthNs b.tsNs) bars)).pairwise
      rw [← resampleBars_windows_tsNs bars pos] at hlabels
      exact (List.pairwise_map.1 hlabels).imp fun hlt => hlt.le

/-- At most one name is one source. -/
lemma exists_one_source {sources : List String} (hsources : sources.length ≤ 1) :
    ∃ source, (if sources.isEmpty then ["agg"] else sources) = [source] := by
  cases sources with
  | nil => exact ⟨"agg", rfl⟩
  | cons source rest =>
      have hrest : rest = [] := List.eq_nil_of_length_eq_zero (Nat.le_zero.1
        (Nat.le_of_succ_le_succ hsources))
      subst hrest
      exact ⟨source, rfl⟩

/-- A query for one source is one resampled frame. -/
theorem getBarsOn_one_source {sources : List String}
    (hsource : (if sources.isEmpty then ["agg"] else sources) = [source]) (timeframe : Timeframe)
    (hday : (timeframe.widthNs : Int) ∣ nsPerDay) :
    getBarsOn resampleStartDay engine s symbol startNs endNs timeframe sources asof =
      resampleBars (selectBars engine s symbol [source] startNs endNs asof) timeframe := by
  let df := selectBars engine s symbol [source] startNs endNs asof
  have hnames : ∀ b ∈ df, b.symbol = symbol ∧ b.venue = source := fun b hb =>
    ⟨selects_symbol (selects_of_mem_selectBars hb), source_of_mem_selectBars hb⟩
  have hframes : ((bucket Bar.venue df).entries.flatMap fun group =>
      (resampleStartDay group.2 timeframe).map fun b =>
        { b with venue := group.1, symbol := symbol }) = resampleBars df timeframe := by
    by_cases hdf : df = []
    · rw [hdf]
      cases timeframe <;> rfl
    · rw [entries_bucket_single hdf fun b hb => (hnames b hb).2, List.flatMap_singleton,
        resampleStartDay_eq df hday]
      have hid : ∀ b ∈ resampleBars df timeframe,
          ({ b with venue := source, symbol := symbol } : Bar) = b := by
        intro b hb
        rcases resampleBars_names timeframe hnames b hb with ⟨hsymbol, hvenue⟩
        rw [← hsymbol, ← hvenue]
      exact (List.map_congr_left hid).trans (List.map_id _)
  simp only [getBarsOn, hsource]
  rw [hframes]
  exact engine.sortIndex_of_sorted _ (resampleBars_sorted timeframe selectBars_sorted_time)

end Source

/-- A row on either side of a midnight. -/
def twoDays : Store Bar :=
  Dict.empty.set ⟨⟨"bars_1s", "BTC-USD", "agg", "1970-01-01"⟩, .part 0⟩
    [{ tsNs := 86399000000000, symbol := "BTC-USD", venue := "agg", «open» := 100, high := 103
       low := 99, close := 101, volume := 2, vwap := 101, trades := 4, sourcesMask := 3
       ingestedAtNs := none },
     { tsNs := 86401000000000, symbol := "BTC-USD", venue := "agg", «open» := 104, high := 104
       low := 104, close := 104, volume := 0, vwap := 104, trades := 1, sourcesMask := 4
       ingestedAtNs := some 7 }]

end CryptoData
