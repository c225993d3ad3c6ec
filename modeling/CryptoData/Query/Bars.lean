import CryptoData.Core.Resample
import CryptoData.Foundation.StableSort
import CryptoData.Storage.Parquet
import Mathlib.Data.Prod.Lex

/-!
# Bars — the query that every backtest hits

`getBars` selects rows of the bars table, orders them by venue and time, resamples each venue and
stacks the results.  The engine behind the `SELECT` and the final index sort are parameters: an
engine returns every row of every file, in some order, and a sort rearranges its rows by label and
leaves sorted frames alone.

If no two rows of the symbol share venue and time, the order in which the engine returns them does
not matter (`getBars_eq_of_perm`).  At the one-second timeframe nothing is aggregated, so the number
of returned rows is the number of stored ones (`length_getBars_oneSecond`).
-/

namespace CryptoData

open Foundation

/-! ## The query -/

/-- What the query relies on: the parquet scan and the sort of the index. -/
structure QueryEngine where
  scan : List Bar → List Bar
  scan_perm : ∀ rows, (scan rows).Perm rows
  sortIndex : List Bar → List Bar
  sortIndex_perm : ∀ rows, (sortIndex rows).Perm rows
  sortIndex_of_sorted : ∀ rows, (rows.Pairwise fun a b => a.tsNs ≤ b.tsNs) → sortIndex rows = rows

/-- `ORDER BY venue, ts_ns`. -/
def venueTime (b : Bar) : String ×ₗ Int :=
  toLex b.slot

/-- The `WHERE` clause. -/
def selects (symbol : String) (venues : List String) (startNs endNs : Int) (asof : Option Int)
    (b : Bar) : Bool :=
  decide (b.symbol = symbol) && venues.contains b.venue && decide (b.tsNs ≥ startNs) &&
    decide (b.tsNs < endNs) &&
    match asof with
    | none => true
    | some cutoff => b.ingestedAtNs.all fun ingested => decide (ingested ≤ cutoff)

/-- The result of the `SELECT`. -/
def selectBars (engine : QueryEngine) (s : Store Bar) (symbol : String) (venues : List String)
    (startNs endNs : Int) (asof : Option Int) : List Bar :=
  ((engine.scan s.allRows).filter (selects symbol venues startNs endNs asof)).insertionSort
    fun a b => venueTime a ≤ venueTime b

/-- `get_bars(symbol, start, end, timeframe, sources, asof=asof)`. -/
def getBars (engine : QueryEngine) (s : Store Bar) (symbol : String) (startNs endNs : Int)
    (timeframe : Timeframe) (sources : List String) (asof : Option Int) : List Bar :=
  -- `sources or ["agg"]`
  let venues := if sources.isEmpty then ["agg"] else sources
  let df := selectBars engine s symbol venues startNs endNs asof
  let outFrames := (bucket Bar.venue df).entries.flatMap fun group =>
    (resampleBars group.2 timeframe).map fun b => { b with venue := group.1, symbol := symbol }
  engine.sortIndex outFrames

/-- The label, prices, volume, vwap and trade count of a row. -/
def Bar.ohlcv (b : Bar) : Bar :=
  { b with sourcesMask := 0, ingestedAtNs := none }

/-! ## Distinct rows are read in one order -/

section Order

variable {engine : QueryEngine} {s s' : Store Bar} {symbol : String}

/-- No two rows of the symbol share venue and time. -/
def DistinctRows (rows : List Bar) (symbol : String) : Prop :=
  ((rows.filter fun b => decide (b.symbol = symbol)).map Bar.slot).Nodup

lemma selectBars_sorted (venues : List String) (startNs endNs : Int) (asof : Option Int) :
    (selectBars engine s symbol venues startNs endNs asof).Pairwise
      fun a b => venueTime a ≤ venueTime b :=
  insertionSort_key_sorted venueTime _

lemma selectBars_perm (venues : List String) (startNs endNs : Int) (asof : Option Int) :
    (selectBars engine s symbol venues startNs endNs asof).Perm
      (s.allRows.filter (selects symbol venues startNs endNs asof)) :=
  (List.perm_insertionSort _ _).trans ((engine.scan_perm s.allRows).filter _)

lemma selects_symbol {venues : List String} {startNs endNs : Int} {asof : Option Int} {b : Bar}
    (h : selects symbol venues startNs endNs asof b = true) : b.symbol = symbol := by
  simp only [selects, Bool.and_eq_true, decide_eq_true_eq] at h
  exact h.1.1.1.1

lemma selects_venue {venues : List String} {startNs endNs : Int} {asof : Option Int} {b : Bar}
    (h : selects symbol venues startNs endNs asof b = true) : b.venue ∈ venues := by
  simp only [selects, Bool.and_eq_true, List.contains_iff_mem] at h
  exact h.1.1.1.2

/-- Two stores with the same rows, distinct per venue and time, select the same frame, whichever
engines read them. -/
theorem selectBars_eq_of_perm {engine' : QueryEngine} (hperm : s'.allRows.Perm s.allRows)
    (hdistinct : DistinctRows s.allRows symbol) (venues : List String) (startNs endNs : Int)
    (asof : Option Int) :
    selectBars engine' s' symbol venues startNs endNs asof =
      selectBars engine s symbol venues startNs endNs asof := by
  have hrows : (selectBars engine' s' symbol venues startNs endNs asof).Perm
      (selectBars engine s symbol venues startNs endNs asof) :=
    ((selectBars_perm venues startNs endNs asof).trans (hperm.filter _)).trans
      (selectBars_perm venues startNs endNs asof).symm
  -- Two sorted arrangements of the same rows agree if equal keys mean equal rows.
  refine List.Perm.eq_of_pairwise ?_ (selectBars_sorted venues startNs endNs asof)
    (selectBars_sorted venues startNs endNs asof) hrows
  intro a b ha hb hab hba
  have hkey : a.slot = b.slot := by
    have hlex : venueTime a = venueTime b := le_antisymm hab hba
    exact congrArg ofLex hlex
  have hmem : ∀ c, c ∈ selectBars engine s symbol venues startNs endNs asof →
      c ∈ s.allRows.filter fun b => decide (b.symbol = symbol) := by
    intro c hc
    have hsel := List.mem_filter.1 ((selectBars_perm venues startNs endNs asof).mem_iff.1 hc)
    exact List.mem_filter.2 ⟨hsel.1, by simpa using selects_symbol hsel.2⟩
  exact List.inj_on_of_nodup_map hdistinct (hmem a (hrows.mem_iff.1 ha)) (hmem b hb) hkey

/-- Rearranging the stored rows does not change what a query returns. -/
theorem getBars_eq_of_perm (hperm : s'.allRows.Perm s.allRows)
    (hdistinct : DistinctRows s.allRows symbol) (startNs endNs : Int) (timeframe : Timeframe)
    (sources : List String) (asof : Option Int) :
    getBars engine s' symbol startNs endNs timeframe sources asof =
      getBars engine s symbol startNs endNs timeframe sources asof := by
  have hselect : ∀ venues, selectBars engine s' symbol venues startNs endNs asof =
      selectBars engine s symbol venues startNs endNs asof :=
    fun venues => selectBars_eq_of_perm hperm hdistinct venues startNs endNs asof
  simp only [getBars, hselect]

lemma countP_allRows (s : Store Bar) (p : Bar → Bool) :
    (s.allRows : Multiset Bar).countP (fun b => p b = true) = s.allRows.countP p := by
  simp only [Multiset.coe_countP, Bool.decide_eq_true]

/-- At one second, a query for one source returns one row for each stored row it selects. -/
theorem length_getBars_oneSecond (source : String) (startNs endNs : Int) (asof : Option Int) :
    (getBars engine s symbol startNs endNs .oneSecond [source] asof).length =
      s.allRows.countP (selects symbol [source] startNs endNs asof) := by
  let df := selectBars engine s symbol [source] startNs endNs asof
  have hframes : ((bucket Bar.venue df).entries.flatMap fun group =>
      (resampleBars group.2 .oneSecond).map fun b =>
        { b with venue := group.1, symbol := symbol }).length = df.length := by
    -- Grouping by venue rearranges the frame, and `1s` copies each group.
    have hlength := (flatMap_entries_perm Bar.venue df).length_eq
    simpa [List.length_flatMap, resampleBars, Function.comp_def] using hlength
  calc
    (getBars engine s symbol startNs endNs .oneSecond [source] asof).length = df.length := by
      rw [← hframes]
      exact (engine.sortIndex_perm _).length_eq
    _ = s.allRows.countP (selects symbol [source] startNs endNs asof) := by
      rw [(selectBars_perm [source] startNs endNs asof).length_eq, List.countP_eq_length_filter]

end Order

/-- An engine that scans files in order and sorts by insertion. -/
def sampleEngine : QueryEngine where
  scan := id
  scan_perm := fun rows => List.Perm.refl rows
  sortIndex := List.insertionSort fun a b => a.tsNs ≤ b.tsNs
  sortIndex_perm := fun rows => List.perm_insertionSort _ rows
  sortIndex_of_sorted := fun _ hsorted => hsorted.insertionSort_eq

end CryptoData
