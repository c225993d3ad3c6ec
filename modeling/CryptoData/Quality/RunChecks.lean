import CryptoData.Quality.CrossVenue

/-!
# RunChecks — all checks of a slice, and the order on disk

`runChecks` runs the checks on the frames of a slice and sorts what they find.  A frame has been
loaded with `ORDER BY ts_ns`, so the two checks for rows out of order look at sorted rows: whatever
the files hold, a scorecard never reports it (`order_on_disk_reported_iff`).
-/

namespace CryptoData

open Foundation

/-! ## The algorithm -/

/-- `int(severity)`. -/
def Severity.value : Severity → ℕ
  | .info => 0
  | .minor => 1
  | .major => 2
  | .critical => 3

namespace Severity

/-- Nothing is worse than critical. -/
lemma value_le_critical (severity : Severity) : severity.value ≤ critical.value := by
  cases severity with
  | info => decide
  | minor => decide
  | major => decide
  | critical => decide

lemma critical_le_iff (severity : Severity) :
    critical.value ≤ severity.value ↔ severity = .critical := by
  cases severity with
  | info => decide
  | minor => decide
  | major => decide
  | critical => decide

lemma lt_critical_iff (severity : Severity) :
    severity.value < critical.value ↔ severity ≠ .critical :=
  not_le.symm.trans (not_congr severity.critical_le_iff)

end Severity

/-- `(-int(i.severity), i.check)` of the first is at most that of the second. -/
def Issue.before (i j : Issue) : Prop :=
  j.severity.value < i.severity.value ∨
    (i.severity.value = j.severity.value ∧ i.check ≤ j.check)

instance : DecidableRel Issue.before :=
  fun _ _ => inferInstanceAs (Decidable (_ ∨ _))

/-- The checks of the bars. -/
def barIssues (bars : List Bar) : List Issue :=
  if bars.isEmpty then []
  else
    checkBarOhlcInvariants bars ++ checkBarTimestamps bars ++ checkBarGaps {} bars ++
      checkFlatline 120 bars

/-- The checks across venues; `per_venue_bars` is falsy if it is empty, too. -/
def crossVenueIssues (context : Option AggContext) : Option (List Issue) :=
  match context with
  | none => some []
  | some context =>
      if context.perVenueBars.entries.isEmpty then some []
      else do
        let range ← checkAggWithinVenueRange? context.aggBars context.perVenueBars
        let dispersion ← checkCrossVenueDispersion? context.perVenueBars
        some (range ++ dispersion)

/-- `run_checks(...)`; `none` is an exception. -/
def runChecks (frames : DayFrames) : Option (List Issue) := do
  let cross ← crossVenueIssues frames.agg
  let issues := barIssues frames.bars ++ checkTradeInvariants frames.trades ++
    checkQuoteInvariants frames.quotes ++ cross
  some (issues.insertionSort Issue.before)

/-- Sorting neither adds nor removes an issue. -/
lemma mem_runChecks {frames : DayFrames} {issues : List Issue}
    (h : runChecks frames = some issues) :
    ∃ cross, crossVenueIssues frames.agg = some cross ∧
      ∀ issue, issue ∈ issues ↔ issue ∈ barIssues frames.bars ∨
        issue ∈ checkTradeInvariants frames.trades ∨
        issue ∈ checkQuoteInvariants frames.quotes ∨ issue ∈ cross := by
  rcases Option.bind_eq_some_iff.1 h with ⟨cross, hcross, hissues⟩
  refine ⟨cross, hcross, ?_⟩
  intro issue
  rw [← Option.some.inj hissues, List.mem_insertionSort, List.mem_append, List.mem_append,
    List.mem_append, or_assoc, or_assoc]

/-! ## The names of the issues -/

def barRules : List String :=
  ["bar.high_below_body", "bar.low_above_body", "bar.high_below_low", "bar.negative_volume",
    "bar.vwap_outside_hl", "bar.nonpositive_price", "bar.timestamps_out_of_order",
    "bar.duplicate_timestamps", "bar.timestamp_off_second_grid", "bar.gaps", "bar.flatline"]

def crossVenueRules : List String :=
  ["agg.outside_venue_range", "xvenue.dispersion"]

lemma namedIn_checkBarOhlcInvariants (bars : List Bar) {names : List String}
    (h : ∀ name ∈ barRules.take 6, name ∈ names) :
    NamedIn names (checkBarOhlcInvariants bars) := by
  unfold checkBarOhlcInvariants
  by_cases hempty : bars.isEmpty = true
  · rw [if_pos hempty]
    exact namedIn_nil
  · rw [if_neg hempty]
    refine NamedIn.append (NamedIn.append (NamedIn.append (NamedIn.append (NamedIn.append
      ?_ ?_) ?_) ?_) ?_) ?_
    all_goals exact namedIn_issueIf (h _ (by decide))

lemma namedIn_singleton {names : List String} {issue : Issue} (h : issue.check ∈ names) :
    NamedIn names [issue] := by
  intro i hi
  rw [List.mem_singleton.1 hi]
  exact h

lemma namedIn_checkBarGaps (bars : List Bar) {names : List String} (h : "bar.gaps" ∈ names) :
    NamedIn names (checkBarGaps {} bars) := by
  unfold checkBarGaps
  dsimp only
  split
  · exact namedIn_nil
  · split
    · exact namedIn_nil
    · split
      · exact namedIn_nil
      · exact namedIn_singleton h

lemma namedIn_checkFlatline (minRun : ℕ) (bars : List Bar) {names : List String}
    (h : "bar.flatline" ∈ names) : NamedIn names (checkFlatline minRun bars) := by
  unfold checkFlatline
  dsimp only
  split
  · exact namedIn_nil
  · split
    · exact namedIn_nil
    · split
      · exact namedIn_singleton h
      · exact namedIn_nil

lemma namedIn_rangeBreaches {agg : Column Int ℚ} {range : RangeColumns} {issues : List Issue}
    (h : rangeBreaches agg range = some issues) : NamedIn crossVenueRules issues := by
  unfold rangeBreaches at h
  dsimp only at h
  split at h
  · rw [← Option.some.inj h]
    exact namedIn_nil
  · split at h
    · rw [← Option.some.inj h]
      exact namedIn_issueIf (by decide)
    · cases h

lemma namedIn_checkAggWithinVenueRange? {aggBars : List Bar} {perVenue : Dict String (List Bar)}
    {issues : List Issue} (h : checkAggWithinVenueRange? aggBars perVenue = some issues) :
    NamedIn crossVenueRules issues := by
  unfold checkAggWithinVenueRange? at h
  split at h
  · rw [← Option.some.inj h]
    exact namedIn_nil
  · rcases Option.bind_eq_some_iff.1 h with ⟨range, _, hrange⟩
    cases range with
    | none =>
        rw [← Option.some.inj hrange]
        exact namedIn_nil
    | some range => exact namedIn_rangeBreaches hrange

lemma namedIn_checkCrossVenueDispersion? {perVenue : Dict String (List Bar)} {warnBps : ℚ}
    {issues : List Issue} (h : checkCrossVenueDispersion? perVenue warnBps = some issues) :
    NamedIn crossVenueRules issues := by
  unfold checkCrossVenueDispersion? at h
  dsimp only at h
  split at h
  · rw [← Option.some.inj h]
    exact namedIn_nil
  · rcases Option.bind_eq_some_iff.1 h with ⟨rows, _, hrows⟩
    split at hrows
    · rw [← Option.some.inj hrows]
      exact namedIn_nil
    · rw [← Option.some.inj hrows]
      exact namedIn_issueIf (by decide)

lemma namedIn_crossVenueIssues {context : Option AggContext} {issues : List Issue}
    (h : crossVenueIssues context = some issues) : NamedIn crossVenueRules issues := by
  cases context with
  | none =>
      rw [← Option.some.inj h]
      exact namedIn_nil
  | some context =>
      unfold crossVenueIssues at h
      dsimp only at h
      split at h
      · rw [← Option.some.inj h]
        exact namedIn_nil
      · rcases Option.bind_eq_some_iff.1 h with ⟨range, hrange, hrest⟩
        rcases Option.bind_eq_some_iff.1 hrest with ⟨dispersion, hdispersion, hissues⟩
        rw [← Option.some.inj hissues]
        exact (namedIn_checkAggWithinVenueRange? hrange).append
          (namedIn_checkCrossVenueDispersion? hdispersion)

/-- Bars in the order of their timestamps are not called out of order. -/
lemma namedIn_of_sorted_bars {bars : List Bar}
    (hsorted : (bars.map Bar.tsNs).Pairwise (· ≤ ·)) :
    NamedIn (barRules.erase "bar.timestamps_out_of_order") (barIssues bars) := by
  unfold barIssues
  by_cases hempty : bars.isEmpty = true
  · rw [if_pos hempty]
    exact namedIn_nil
  · rw [if_neg hempty]
    refine NamedIn.append (NamedIn.append (NamedIn.append ?_ ?_) ?_) ?_
    · exact namedIn_checkBarOhlcInvariants bars (by decide)
    · unfold checkBarTimestamps
      dsimp only
      by_cases hfew : (bars.map Bar.tsNs).length < 2
      · rw [if_pos hfew]
        exact namedIn_nil
      · -- The first rule of this check has nothing to count.
        rw [if_neg hfew, countP_falls_eq_zero hsorted]
        refine NamedIn.append (NamedIn.append namedIn_nil ?_) ?_
        all_goals exact namedIn_issueIf (by decide)
    · exact namedIn_checkBarGaps bars (by decide)
    · exact namedIn_checkFlatline 120 bars (by decide)

/-! ## The order on disk -/

section OnDisk

variable {ρ : Type}

/-- The rows of a directory as they lie on disk: file after file, by name. -/
def Store.onDisk (s : Store ρ) (dir : Partition) : List ρ :=
  s.readNames dir (s.sortedNames dir fun _ => true)

/-- The timestamps of the rows of a directory do not fall anywhere. -/
def InOrderOnDisk (ts : ρ → Int) (s : Store ρ) (dir : Partition) : Prop :=
  ((s.onDisk dir).map ts).Pairwise (· ≤ ·)

instance (ts : ρ → Int) (s : Store ρ) (dir : Partition) : Decidable (InOrderOnDisk ts s dir) :=
  inferInstanceAs (Decidable (List.Pairwise _ _))

/-- A loaded frame is sorted, whatever the files hold. -/
lemma Scan.slice_sorted (scan : Scan) (ts : ρ → Int) (s : Store ρ) (dir : Partition) :
    ((scan.slice ts s dir).map ts).Pairwise (· ≤ ·) :=
  List.pairwise_map.2 (insertionSort_key_sorted ts _)

end OnDisk

section Reports

variable (scan : Scan) (views : Views) (symbol venue date : String) (nowNs : Int)

/-- `score_day` returns a card with an issue of that name. -/
def Reports (check : String) : Prop :=
  ∃ card, scoreDay scan runChecks views symbol venue date nowNs = some card ∧
    ∃ issue ∈ card.issues, issue.check = check

lemma issues_of_scoreDay {run : DayFrames → Option (List Issue)} {card : Scorecard}
    (h : scoreDay scan run views symbol venue date nowNs = some card) :
    ∃ context, run ⟨loadBars scan views symbol venue date, loadTrades scan views symbol venue date,
      loadQuotes scan views symbol venue date, context⟩ = some card.issues := by
  rcases Option.bind_eq_some_iff.1 h with ⟨issues, hrun, hcard⟩
  refine ⟨_, hrun.trans ?_⟩
  rw [← Option.some.inj hcard]

/-- No card calls trades or bars out of order. -/
theorem not_reports_order :
    ¬ Reports scan views symbol venue date nowNs "trade.timestamps_out_of_order" ∧
      ¬ Reports scan views symbol venue date nowNs "bar.timestamps_out_of_order" := by
  have hnames : ∀ card, scoreDay scan runChecks views symbol venue date nowNs = some card →
      NamedIn (barRules.erase "bar.timestamps_out_of_order" ++
        (tradeRules.erase "trade.timestamps_out_of_order" ++ (quoteRules ++ crossVenueRules)))
        card.issues := by
    intro card hcard issue hissue
    rcases issues_of_scoreDay scan views symbol venue date nowNs hcard with ⟨context, hrun⟩
    rcases mem_runChecks hrun with ⟨cross, hcross, hmem⟩
    -- Each check names its issues after its own rules, and the loaders leave two of them idle.
    rcases (hmem issue).1 hissue with hbar | htrade | hquote | hcross'
    · exact List.mem_append_left _ (namedIn_of_sorted_bars (scan.slice_sorted _ _ _) issue hbar)
    · refine List.mem_append_right _ (List.mem_append_left _ ?_)
      exact namedIn_of_sorted_trades (scan.slice_sorted _ _ _) issue htrade
    · refine List.mem_append_right _ (List.mem_append_right _ (List.mem_append_left _ ?_))
      exact namedIn_checkQuoteInvariants _ issue hquote
    · refine List.mem_append_right _ (List.mem_append_right _ (List.mem_append_right _ ?_))
      exact namedIn_crossVenueIssues hcross issue hcross'
  constructor
  · intro h
    rcases h with ⟨card, hcard, issue, hissue, hcheck⟩
    have hin := hnames card hcard issue hissue
    rw [hcheck] at hin
    revert hin
    decide
  · intro h
    rcases h with ⟨card, hcard, issue, hissue, hcheck⟩
    have hin := hnames card hcard issue hissue
    rw [hcheck] at hin
    revert hin
    decide

/-- Rows that are out of order on disk are reported exactly if there are none. -/
theorem order_on_disk_reported_iff :
    ((¬ InOrderOnDisk Trade.tsNs views.trades ⟨"trades", symbol, venue, date⟩ →
          Reports scan views symbol venue date nowNs "trade.timestamps_out_of_order") ∧
        (¬ InOrderOnDisk Bar.tsNs views.bars ⟨"bars_1s", symbol, venue, date⟩ →
          Reports scan views symbol venue date nowNs "bar.timestamps_out_of_order")) ↔
      InOrderOnDisk Trade.tsNs views.trades ⟨"trades", symbol, venue, date⟩ ∧
        InOrderOnDisk Bar.tsNs views.bars ⟨"bars_1s", symbol, venue, date⟩ := by
  have hnever := not_reports_order scan views symbol venue date nowNs
  constructor
  · intro h
    refine ⟨?_, ?_⟩
    · by_contra hout
      exact hnever.1 (h.1 hout)
    · by_contra hout
      exact hnever.2 (h.2 hout)
  · intro h
    exact ⟨fun hout => absurd h.1 hout, fun hout => absurd h.2 hout⟩

end Reports

/-- A slice whose two trades and two bars are stored late one first. -/
def outOfOrder : Views :=
  let trade (tsNs : Int) : Trade := { tsNs := tsNs, price := 1, size := some 1 }
  let bar (tsNs : Int) : Bar := ⟨tsNs, "X-USD", "okx", 1, 1, 1, 1, 1, 1, 1, 1, none⟩
  { bars := Dict.empty.set ⟨⟨"bars_1s", "X-USD", "okx", "1970-01-01"⟩, .part 7⟩
      [bar 5000000000, bar 1000000000]
    trades := Dict.empty.set ⟨⟨"trades", "X-USD", "okx", "1970-01-01"⟩, .part 7⟩
      [trade 5000000000, trade 1000000000]
    quotes := Dict.empty }

/-- Its card has no issue at all. -/
theorem out_of_order_slice_is_clean :
    ¬ InOrderOnDisk Trade.tsNs outOfOrder.trades ⟨"trades", "X-USD", "okx", "1970-01-01"⟩ ∧
      ¬ InOrderOnDisk Bar.tsNs outOfOrder.bars ⟨"bars_1s", "X-USD", "okx", "1970-01-01"⟩ ∧
      (scoreDay Scan.plain runChecks outOfOrder "X-USD" "okx" "1970-01-01" 9).map
        (fun card => card.issues) = some [] := by
  decide +kernel

end CryptoData
