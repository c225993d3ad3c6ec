import CryptoData.Core.Consolidated.Build
import CryptoData.Foundation.Rounding
import CryptoData.Quality.Checks
import CryptoData.Storage.Parquet
import Mathlib.Data.Finset.Card

/-!
# Report — the scorecard of one slice

`scoreDay` loads the bars, trades and quotes of one (symbol, venue, date), runs the checks, and
scores the slice: 100 for a single venue, and for the `agg` series the share of the seconds with a
bar of some other series of the day that the tape covers too, less the weight of each issue.

The order in which the scan returns rows of equal time is left open.  The checks are a parameter,
`none` where one of them raises; a card is only made when none does.
-/

namespace CryptoData

open Foundation

/-! ## Loaders -/

/-- The columns of the `quotes` table that the report reads. -/
structure Quote where
  tsNs : Int
  bidPx : ℚ
  askPx : ℚ
  bidSz : ℚ
  askSz : ℚ
  deriving DecidableEq, Repr

/-- The parquet views behind a connection. -/
structure Views where
  bars : Store Bar
  trades : Store Trade
  quotes : Store Quote

/-- The parquet scan returns every row of the selected files, in some order. -/
structure Scan where
  rows : {ρ : Type} → List ρ → List ρ
  rows_perm : ∀ {ρ : Type} (l : List ρ), (rows l).Perm l

/-- A scan in the order of the files. -/
def Scan.plain : Scan :=
  ⟨fun l => l, fun l => List.Perm.refl l⟩

/-- `SELECT ... WHERE symbol = ? AND venue = ? AND date = ? ORDER BY ts_ns`.  A table without
files has no view; the exception that this causes is answered with an empty frame. -/
def Scan.slice (scan : Scan) {ρ : Type} (ts : ρ → Int) (s : Store ρ) (dir : Partition) : List ρ :=
  (scan.rows ((s.entries.filter fun e => decide (e.1.partition = dir)).flatMap Prod.snd))
    |>.insertionSort fun a b => ts a ≤ ts b

/-- `_bars(con, symbol, venue, date)`. -/
def loadBars (scan : Scan) (views : Views) (symbol venue date : String) : List Bar :=
  scan.slice Bar.tsNs views.bars ⟨"bars_1s", symbol, venue, date⟩

/-- `_trades(con, symbol, venue, date)`. -/
def loadTrades (scan : Scan) (views : Views) (symbol venue date : String) : List Trade :=
  scan.slice Trade.tsNs views.trades ⟨"trades", symbol, venue, date⟩

/-- `_quotes(con, symbol, venue, date)`. -/
def loadQuotes (scan : Scan) (views : Views) (symbol venue date : String) : List Quote :=
  scan.slice Quote.tsNs views.quotes ⟨"quotes", symbol, venue, date⟩

/-- `_venues_for(con, table, symbol, date)`. -/
def venuesFor {ρ : Type} (s : Store ρ) (table symbol date : String) : List String :=
  sortedSet ((s.entries.filter fun e => decide (e.1.partition.table = table) &&
    decide (e.1.partition.symbol = symbol) && decide (e.1.partition.date = date) &&
    !e.2.isEmpty).map fun e => e.1.partition.venue)

/-- What the consolidated series is compared with. -/
structure AggContext where
  aggBars : List Bar
  perVenueBars : Dict String (List Bar)

/-- The body of the loop over `_venues_for(con, "bars_1s", symbol, date)`. -/
def visitVenue (scan : Scan) (views : Views) (symbol date : String) (bars : List Bar)
    (ctx : AggContext) (v : String) : AggContext :=
  if v = "agg" then { ctx with aggBars := bars }
  else { ctx with perVenueBars := ctx.perVenueBars.set v (loadBars scan views symbol v date) }

/-- `if venue == "agg": for v in _venues_for(...)`. -/
def aggContext (scan : Scan) (views : Views) (symbol date : String) (bars : List Bar) :
    AggContext :=
  (venuesFor views.bars "bars_1s" symbol date).foldl (visitVenue scan views symbol date bars)
    ⟨[], Dict.empty⟩

/-- The arguments of `run_checks`; the last is `None` for a single venue. -/
structure DayFrames where
  bars : List Bar
  trades : List Trade
  quotes : List Quote
  agg : Option AggContext

/-! ## Scoring -/

inductive Grade
  | a
  | b
  | c
  | d
  | f
  deriving DecidableEq, Repr

/-- `grade_for(score)`. -/
def gradeFor (score : ℚ) : Grade :=
  if score ≥ 95 then .a
  else if score ≥ 85 then .b
  else if score ≥ 70 then .c
  else if score ≥ 50 then .d
  else .f

/-- `_ISSUE_WEIGHT`. -/
def Severity.weight : Severity → ℚ
  | .info => 0
  | .minor => 2
  | .major => 10
  | .critical => 30

/-- What `_completeness` returns. -/
structure Completeness where
  completenessPct : ℚ
  nBars : ℕ
  expectedBars : Int
  maxGapSeconds : Int
  spanSeconds : Int
  deriving DecidableEq, Repr

/-- `int(gaps_s.max()) if gaps_s.size else 0`. -/
def maxGapSeconds (ts : List Int) : Int :=
  match diffs (ts.insertionSort fun s t => s ≤ t) with
  | [] => 0
  | gap :: gaps => truncate ((gaps.foldl max gap : ℚ) / nsPerSec)

/-- `_completeness(bars)`. -/
def completenessOf (bars : List Bar) : Completeness :=
  match bars.map Bar.tsNs with
  | [] => ⟨0, 0, 0, 0, 0⟩
  | t :: ts =>
      let n := (t :: ts).length
      let spanS := (ts.foldl max t - ts.foldl min t) / nsPerSec + 1
      -- The expected number of bars is the span, which is never zero.
      let completeness := 100 * min 1 ((n : ℚ) / spanS)
      ⟨roundTo 4 completeness, n, spanS, maxGapSeconds (t :: ts), spanS⟩

/-- `set((df["ts_ns"].to_numpy() // 1_000_000_000).tolist())`. -/
def secondsOf (bars : List Bar) : Finset Int :=
  (bars.map fun b => b.tsNs / nsPerSec).toFinset

/-- The set `union` of `_agg_coverage_of_union`. -/
def unionSeconds (perVenueBars : Dict String (List Bar)) : Finset Int :=
  perVenueBars.values.foldl (fun union df => union ∪ secondsOf df) ∅

/-- `_agg_coverage_of_union(agg_bars, per_venue_bars)`. -/
def aggCoverageOfUnion (aggBars : List Bar) (perVenueBars : Dict String (List Bar)) :
    Option ℚ × ℕ :=
  let union := unionSeconds perVenueBars
  if union.card = 0 then
    (none, 0)
  else
    (some (roundTo 2 (100 * ((secondsOf aggBars ∩ union).card : ℚ) / union.card)), union.card)

/-- `_score(base, issues)`. -/
def scoreOf (base : ℚ) (issues : List Issue) : ℚ × Grade :=
  let score := issues.foldl (fun score iss => score - iss.severity.weight) base
  let clamped := max 0 (min 100 score)
  (roundTo 2 clamped, gradeFor clamped)

/-- `Counter(xs)`. -/
def counter {κ : Type} [DecidableEq κ] (xs : List κ) : Dict κ ℕ :=
  xs.foldl (fun d x => d.set x (d.getD x 0 + 1)) Dict.empty

lemma getD_foldl_count {κ : Type} [DecidableEq κ] (x : κ) :
    ∀ (xs : List κ) (d : Dict κ ℕ),
      (xs.foldl (fun d x => d.set x (d.getD x 0 + 1)) d).getD x 0 = d.getD x 0 + xs.count x
  | [], _ => rfl
  | y :: ys, d => by
      rw [List.foldl_cons, getD_foldl_count x ys]
      by_cases h : y = x
      · subst h
        have hself : (d.set y (d.getD y 0 + 1)).getD y 0 = d.getD y 0 + 1 := by
          rw [Dict.getD, Dict.get?_set_self]
          rfl
        rw [hself, List.count_cons_self, add_assoc, add_comm 1]
      · have hother : (d.set y (d.getD y 0 + 1)).getD x 0 = d.getD x 0 := by
          rw [Dict.getD, Dict.get?_set_ne d _ (Ne.symm h)]
          rfl
        rw [hother, List.count_cons_of_ne h]

/-- A counter holds how often each element occurs. -/
lemma getD_counter {κ : Type} [DecidableEq κ] (xs : List κ) (x : κ) :
    (counter xs).getD x 0 = xs.count x := by
  refine (getD_foldl_count x xs Dict.empty).trans ?_
  exact Nat.zero_add _

inductive ScoreBasis
  | coverageOfContributingVenues
  | cleanBaseline
  deriving DecidableEq, Repr

/-- The dictionary that `score_day` returns. -/
structure Scorecard where
  date : String
  symbol : String
  venue : String
  score : ℚ
  grade : Grade
  scoreBasis : ScoreBasis
  scoreBasePct : ℚ
  aggCoverageOfUnionPct : Option ℚ
  unionSeconds : Option ℕ
  bars : ℕ
  expectedBars : Int
  completenessPct : ℚ
  maxGapSeconds : Int
  spanSeconds : Int
  dayCoveragePct : ℚ
  nTrades : ℕ
  nQuotes : ℕ
  nIssues : ℕ
  nCritical : ℕ
  severityCounts : Dict Severity ℕ
  issues : List Issue
  computedAtNs : Int

/-- `score_day(symbol, venue, date)`. -/
def scoreDay (scan : Scan) (runChecks : DayFrames → Option (List Issue)) (views : Views)
    (symbol venue date : String) (nowNs : Int) : Option Scorecard := do
  let bars := loadBars scan views symbol venue date
  let trades := loadTrades scan views symbol venue date
  let quotes := loadQuotes scan views symbol venue date
  let context := if venue = "agg" then some (aggContext scan views symbol date bars) else none
  let issues ← runChecks ⟨bars, trades, quotes, context⟩
  let completeness := completenessOf bars
  let coverage := context.map fun ctx =>
    aggCoverageOfUnion (if ctx.aggBars.isEmpty then bars else ctx.aggBars) ctx.perVenueBars
  let aggCovPct := coverage.bind Prod.fst
  let base := aggCovPct.getD 100
  let scored := scoreOf base issues
  let sevCounts := counter (issues.map Issue.severity)
  some
    { date := date
      symbol := symbol
      venue := venue
      score := scored.1
      grade := scored.2
      scoreBasis := if venue = "agg" then .coverageOfContributingVenues else .cleanBaseline
      scoreBasePct := roundTo 2 base
      aggCoverageOfUnionPct := aggCovPct
      unionSeconds := coverage.map Prod.snd
      bars := completeness.nBars
      expectedBars := completeness.expectedBars
      completenessPct := completeness.completenessPct
      maxGapSeconds := completeness.maxGapSeconds
      spanSeconds := completeness.spanSeconds
      dayCoveragePct := if completeness.spanSeconds = 0 then 0
        else roundTo 2 (100 * (completeness.spanSeconds : ℚ) / 86400)
      nTrades := trades.length
      nQuotes := quotes.length
      nIssues := issues.length
      nCritical := sevCounts.getD .critical 0
      severityCounts := sevCounts
      issues := issues
      computedAtNs := nowNs }

/-! ## What is loaded -/

section Loaded

variable {ρ : Type} {scan : Scan} {s : Store ρ}

lemma Scan.mem_slice {ts : ρ → Int} {dir : Partition} {r : ρ} :
    r ∈ scan.slice ts s dir ↔ (dir, r) ∈ s.located := by
  rw [Scan.slice, List.mem_insertionSort, (scan.rows_perm _).mem_iff, Store.mem_located_iff]
  simp only [List.mem_flatMap, List.mem_filter, decide_eq_true_eq]
  constructor
  · rintro ⟨⟨⟨dir', name⟩, rows⟩, ⟨he, rfl⟩, hr⟩
    exact ⟨name, rows, Dict.get?_eq_some_iff.2 he, hr⟩
  · rintro ⟨name, rows, hget, hr⟩
    exact ⟨(⟨dir, name⟩, rows), ⟨Dict.get?_eq_some_iff.1 hget, rfl⟩, hr⟩

/-- A venue is found exactly if its directory has a row. -/
lemma mem_venuesFor_iff {table symbol date v : String} :
    v ∈ venuesFor s table symbol date ↔ ∃ r, (⟨table, symbol, v, date⟩, r) ∈ s.located := by
  simp only [venuesFor, mem_sortedSet, List.mem_map, List.mem_filter, Bool.and_eq_true,
    decide_eq_true_eq, Store.mem_located_iff]
  constructor
  · rintro ⟨⟨⟨⟨table', symbol', v', date'⟩, name⟩, rows⟩, ⟨he, ⟨⟨rfl, rfl⟩, rfl⟩, hne⟩, rfl⟩
    have hrows : rows ≠ [] := by simpa using hne
    rcases List.exists_mem_of_ne_nil _ hrows with ⟨r, hr⟩
    exact ⟨r, name, rows, Dict.get?_eq_some_iff.2 he, hr⟩
  · rintro ⟨r, name, rows, hget, hr⟩
    have hne : rows ≠ [] := List.ne_nil_of_mem hr
    exact ⟨(⟨⟨table, symbol, v, date⟩, name⟩, rows),
      ⟨Dict.get?_eq_some_iff.1 hget, ⟨⟨rfl, rfl⟩, rfl⟩, by simpa using hne⟩, rfl⟩

end Loaded

section Context

variable {scan : Scan} {views : Views} {symbol date : String} {bars : List Bar}

/-- What the loop over the venues has collected after some of them. -/
lemma foldl_visitVenue (v : String) :
    ∀ (venues : List String) (ctx : AggContext),
      (venues.foldl (visitVenue scan views symbol date bars) ctx).perVenueBars.get? v =
          (if v ∈ venues ∧ v ≠ "agg" then some (loadBars scan views symbol v date)
          else ctx.perVenueBars.get? v) ∧
        (venues.foldl (visitVenue scan views symbol date bars) ctx).aggBars =
          if "agg" ∈ venues then bars else ctx.aggBars
  | [], ctx => by simp
  | u :: venues, ctx => by
      have hrest := foldl_visitVenue v venues (visitVenue scan views symbol date bars ctx u)
      rw [List.foldl_cons, hrest.1, hrest.2]
      by_cases hagg : u = "agg"
      · subst hagg
        by_cases hv : v = "agg"
        · simp [visitVenue, hv]
        · simp [visitVenue, hv]
      · have hagg' : "agg" ≠ u := Ne.symm hagg
        by_cases hv : v = u
        · subst hv
          simp [visitVenue, hagg, hagg']
        · simp [visitVenue, hagg, hagg', hv, Dict.get?_set_ne]

/-- The context holds the bars of every other venue of the day. -/
theorem get?_aggContext (v : String) :
    (aggContext scan views symbol date bars).perVenueBars.get? v =
      if v ∈ venuesFor views.bars "bars_1s" symbol date ∧ v ≠ "agg" then
        some (loadBars scan views symbol v date)
      else none :=
  (foldl_visitVenue v _ _).1

/-- The bars that the coverage is measured of are those of the slice, found by name or not. -/
theorem aggBars_aggContext :
    (if (aggContext scan views symbol date bars).aggBars.isEmpty then bars
      else (aggContext scan views symbol date bars).aggBars) = bars := by
  have hagg : (aggContext scan views symbol date bars).aggBars =
      if "agg" ∈ venuesFor views.bars "bars_1s" symbol date then bars else [] :=
    (foldl_visitVenue "agg" _ _).2
  by_cases hin : "agg" ∈ venuesFor views.bars "bars_1s" symbol date
  · simp [hagg, hin]
  · simp [hagg, hin]

end Context

/-- The base of an `agg` card. -/
theorem base_of_scoreDay {scan : Scan} {runChecks : DayFrames → Option (List Issue)}
    {views : Views} {symbol date : String} {nowNs : Int} {card : Scorecard}
    (h : scoreDay scan runChecks views symbol "agg" date nowNs = some card) :
    let bars := loadBars scan views symbol "agg" date
    let coverage := aggCoverageOfUnion bars (aggContext scan views symbol date bars).perVenueBars
    card.aggCoverageOfUnionPct = coverage.1 ∧ card.unionSeconds = some coverage.2 ∧
      card.scoreBasePct = roundTo 2 (coverage.1.getD 100) := by
  simp only [scoreDay, if_true, Option.map_some, aggBars_aggContext, Option.bind_some] at h
  rcases Option.bind_eq_some_iff.1 h with ⟨issues, _, hcard⟩
  cases hcard
  exact ⟨rfl, rfl, rfl⟩

/-! ## Coverage -/

lemma mem_secondsOf {bars : List Bar} {sec : Int} :
    sec ∈ secondsOf bars ↔ ∃ b ∈ bars, b.tsNs / nsPerSec = sec := by
  simp [secondsOf]

lemma mem_foldl_union {α : Type} (f : α → Finset Int) {sec : Int} :
    ∀ (xs : List α) (union : Finset Int),
      sec ∈ xs.foldl (fun union x => union ∪ f x) union ↔ sec ∈ union ∨ ∃ x ∈ xs, sec ∈ f x
  | [], union => by simp
  | x :: xs, union => by
      rw [List.foldl_cons, mem_foldl_union f xs]
      simp [or_assoc]

lemma mem_unionSeconds {perVenueBars : Dict String (List Bar)} {sec : Int} :
    sec ∈ unionSeconds perVenueBars ↔
      ∃ v, ∃ df ∈ perVenueBars.get? v, ∃ b ∈ df, b.tsNs / nsPerSec = sec := by
  rw [unionSeconds, mem_foldl_union]
  simp only [Finset.notMem_empty, false_or, mem_secondsOf]
  constructor
  · rintro ⟨df, hdf, hsec⟩
    rcases List.mem_map.1 hdf with ⟨e, he, rfl⟩
    exact ⟨e.1, e.2, Dict.get?_eq_some_iff.2 he, hsec⟩
  · rintro ⟨v, df, hdf, hsec⟩
    exact ⟨df, List.mem_map.2 ⟨(v, df), Dict.get?_eq_some_iff.1 hdf, rfl⟩, hsec⟩

/-- The share of `U` in `A` rounds to all of it while one part in 20000 is missing at most. -/
lemma coverage_eq_hundred_iff {A U : Finset Int} (hne : U.card ≠ 0) :
    roundTo 2 (100 * ((A ∩ U).card : ℚ) / U.card) = 100 ↔ 20000 * (U \ A).card ≤ U.card := by
  have hsplit : ((U \ A).card : ℚ) + (A ∩ U).card = U.card := by
    have hcard := Finset.card_sdiff_add_card_inter U A
    rw [Finset.inter_comm] at hcard
    exact_mod_cast hcard
  have hpos : (0 : ℚ) < U.card := by
    exact_mod_cast Nat.pos_of_ne_zero hne
  have hround : roundTo 2 (100 * ((A ∩ U).card : ℚ) / U.card) = 100 ↔
      roundHalfEven (100 * ((A ∩ U).card : ℚ) / U.card * 10 ^ 2) = 10000 := by
    rw [roundTo, div_eq_iff (by norm_num)]
    norm_num
    norm_cast
  have hscaled : 100 * ((A ∩ U).card : ℚ) / U.card * 10 ^ 2 =
      10000 - 10000 * ((U \ A).card : ℚ) / U.card := by
    rw [← hsplit] at hpos ⊢
    field_simp
    ring
  have hmissing : 0 ≤ 10000 * ((U \ A).card : ℚ) / U.card := by positivity
  rw [hround, roundHalfEven_eq_iff (by decide), hscaled]
  push_cast
  constructor
  · rintro ⟨hlow, _⟩
    have hhalf : 10000 * ((U \ A).card : ℚ) / U.card ≤ 1 / 2 := by linarith
    rw [div_le_iff₀ hpos] at hhalf
    have hle : (20000 * (U \ A).card : ℚ) ≤ U.card := by linarith
    exact_mod_cast hle
  · intro hle
    have hle' : (20000 * (U \ A).card : ℚ) ≤ U.card := by exact_mod_cast hle
    have hhalf : 10000 * ((U \ A).card : ℚ) / U.card ≤ 1 / 2 := by
      rw [div_le_iff₀ hpos]
      linarith
    constructor <;> linarith

/-- The base is 100 while the tape misses one part in 20000 of the union at most. -/
theorem base_eq_hundred_iff {aggBars : List Bar} {perVenueBars : Dict String (List Bar)} :
    roundTo 2 ((aggCoverageOfUnion aggBars perVenueBars).1.getD 100) = 100 ↔
      20000 * (unionSeconds perVenueBars \ secondsOf aggBars).card ≤
        (unionSeconds perVenueBars).card := by
  by_cases hne : (unionSeconds perVenueBars).card = 0
  · have hempty := Finset.card_eq_zero.1 hne
    have hround : roundTo 2 100 = 100 := by decide +kernel
    simp [aggCoverageOfUnion, hempty, hround]
  · rw [aggCoverageOfUnion, if_neg hne, Option.getD_some, roundTo_roundTo]
    exact coverage_eq_hundred_iff hne

end CryptoData
