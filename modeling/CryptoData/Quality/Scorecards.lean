import CryptoData.Foundation.Upsert
import CryptoData.Quality.Report
import Mathlib.Data.Prod.Lex

/-!
# Scorecards — the table of scorecards and its JSON mirror

`writeDailyQuality` scores the selected slices and writes the cards to three places: the rows of
`daily_quality` are upserted, while the JSON file of each date and the summary are written anew from
the cards of the call.

So the files mirror the table after a call exactly if the call has scored every slice that the table
knew before (`mirrored_afterCall_iff`), and they do so throughout a run exactly if every call of it
that writes anything has (`mirrored_run_iff`).
-/

namespace CryptoData

open Foundation

/-! ## The stores -/

/-- The primary key of `daily_quality`. -/
structure Slice where
  date : String
  symbol : String
  venue : String
  deriving DecidableEq, Repr

/-- `ORDER BY date, symbol, venue`. -/
def Slice.order (c : Slice) : String ×ₗ (String ×ₗ String) :=
  toLex (c.date, toLex (c.symbol, c.venue))

/-- The other columns of `daily_quality`. -/
structure QualityRow where
  score : ℚ
  grade : Grade
  scoreBasePct : ℚ
  bars : ℕ
  expectedBars : Int
  completenessPct : ℚ
  maxGapSeconds : Int
  nIssues : ℕ
  nCritical : ℕ
  issues : List Issue
  computedAtNs : Int
  deriving DecidableEq, Repr

/-- What `quality_summary_from_rows` returns for at least one row. -/
structure QualitySummary where
  slices : ℕ
  symbols : List String
  venues : List String
  dates : List String
  meanScore : ℚ
  minScore : ℚ
  gradeCounts : Dict Grade ℕ
  totalCriticalIssues : ℕ
  computedAtNs : Int

/-- The table, the files `quality/<date>.json` and the file `quality_summary.json`. -/
structure QualityState where
  dailyQuality : Dict Slice QualityRow
  files : Dict String (List Scorecard)
  summary : Option QualitySummary

/-- No row and no file. -/
def QualityState.fresh : QualityState :=
  ⟨Dict.empty, Dict.empty, none⟩

namespace Scorecard

def slice (r : Scorecard) : Slice :=
  ⟨r.date, r.symbol, r.venue⟩

/-- The tuple of the `INSERT OR REPLACE`. -/
def entry (r : Scorecard) : Slice × QualityRow :=
  (r.slice,
    { score := r.score
      grade := r.grade
      scoreBasePct := r.scoreBasePct
      bars := r.bars
      expectedBars := r.expectedBars
      completenessPct := r.completenessPct
      maxGapSeconds := r.maxGapSeconds
      nIssues := r.nIssues
      nCritical := r.nCritical
      issues := r.issues
      computedAtNs := r.computedAtNs })

end Scorecard

/-! ## The algorithm -/

/-- `quality_summary_from_rows(rows)`; `none` is the `{"slices": 0}` of no rows. -/
def qualitySummaryFromRows (rows : List (Slice × QualityRow)) (nowNs : Int) :
    Option QualitySummary :=
  match rows with
  | [] => none
  | first :: rest =>
      let scores := (first :: rest).map fun r => r.2.score
      some
        { slices := (first :: rest).length
          symbols := sortedSet ((first :: rest).map fun r => r.1.symbol)
          venues := sortedSet ((first :: rest).map fun r => r.1.venue)
          dates := sortedSet ((first :: rest).map fun r => r.1.date)
          meanScore := roundTo 2 (scores.sum / scores.length)
          minScore := roundTo 2 (rest.foldl (fun low r => min low r.2.score) first.2.score)
          gradeCounts := counter ((first :: rest).map fun r => r.2.grade)
          totalCriticalIssues := ((first :: rest).map fun r => r.2.nCritical).sum
          computedAtNs := nowNs }

/-- `SELECT DISTINCT symbol, venue, date FROM bars_1s ORDER BY date, symbol, venue`. -/
def barSlices (s : Store Bar) : List Slice :=
  ((s.entries.filter fun e => decide (e.1.partition.table = "bars_1s") && !e.2.isEmpty).map
    fun e => (⟨e.1.partition.date, e.1.partition.symbol, e.1.partition.venue⟩ : Slice)).dedup
      |>.insertionSort fun a b => a.order ≤ b.order

/-- `if wanted: combos = [c for c in combos if c[...] in set(wanted)]`: an empty list is falsy, and
so restricts nothing. -/
def restrict (field : Slice → String) (wanted : Option (List String)) (combos : List Slice) :
    List Slice :=
  if (wanted.getD []).isEmpty then combos
  else combos.filter fun c => (wanted.getD []).contains (field c)

/-- A call of `write_daily_quality`: its arguments, and the database and the clock it meets. -/
structure QualityCall where
  symbols : Option (List String) := none
  dates : Option (List String) := none
  views : Views
  scan : Scan
  scoredNs : Slice → Int
  summarisedNs : Int

namespace QualityCall

/-- The slices that the call scores. -/
def combos (c : QualityCall) : List Slice :=
  restrict Slice.date c.dates (restrict Slice.symbol c.symbols (barSlices c.views.bars))

/-- `rows`; `none` if a call of `score_day` raises. -/
def score (runChecks : DayFrames → Option (List Issue)) (c : QualityCall) :
    Option (List Scorecard) :=
  c.combos.mapM fun k =>
    scoreDay c.scan runChecks c.views k.symbol k.venue k.date (c.scoredNs k)

end QualityCall

/-- `write_daily_quality(symbols, dates)`; `none` is an exception, which nothing is written
before. -/
def writeDailyQuality (runChecks : DayFrames → Option (List Issue)) (c : QualityCall)
    (s : QualityState) : Option (QualityState × List Scorecard) := do
  let rows ← c.score runChecks
  if rows.isEmpty then
    some (s, [])
  else
    some
      ({ dailyQuality := s.dailyQuality.upsertAll (rows.map Scorecard.entry)
         files := s.files.upsertAll (bucket Scorecard.date rows).entries
         summary := qualitySummaryFromRows (rows.map Scorecard.entry) c.summarisedNs }, rows)

/-- What the call leaves behind, whether it returns or raises. -/
def afterCall (runChecks : DayFrames → Option (List Issue)) (s : QualityState) (c : QualityCall) :
    QualityState :=
  ((writeDailyQuality runChecks c s).map Prod.fst).getD s

/-! ## The rows of a call -/

lemma barSlices_nodup (s : Store Bar) : (barSlices s).Nodup :=
  (List.perm_insertionSort _ _).nodup_iff.2 (List.nodup_dedup _)

lemma restrict_sublist (field : Slice → String) (wanted : Option (List String))
    (combos : List Slice) : (restrict field wanted combos).Sublist combos := by
  by_cases hempty : (wanted.getD []).isEmpty = true
  · rw [restrict, if_pos hempty]
  · rw [restrict, if_neg hempty]
    exact List.filter_sublist

lemma QualityCall.combos_nodup (c : QualityCall) : c.combos.Nodup :=
  (barSlices_nodup c.views.bars).sublist
    ((restrict_sublist _ _ _).trans (restrict_sublist _ _ _))

/-- A card names the slice that was asked for. -/
lemma slice_of_scoreDay {scan : Scan} {runChecks : DayFrames → Option (List Issue)} {views : Views}
    {k : Slice} {nowNs : Int} {card : Scorecard}
    (h : scoreDay scan runChecks views k.symbol k.venue k.date nowNs = some card) :
    card.slice = k := by
  rcases Option.bind_eq_some_iff.1 h with ⟨issues, _, hcard⟩
  cases hcard
  rfl

lemma map_of_mapM {α β γ : Type*} {f : α → Option β} {g : β → γ} {h : α → γ}
    (hfg : ∀ a b, f a = some b → g b = h a) :
    ∀ {xs : List α} {ys : List β}, xs.mapM f = some ys → ys.map g = xs.map h
  | [], ys, hrun => by
      cases hrun
      rfl
  | x :: xs, ys, hrun => by
      rw [List.mapM_cons] at hrun
      rcases Option.bind_eq_some_iff.1 hrun with ⟨y, hy, hrest⟩
      rcases Option.bind_eq_some_iff.1 hrest with ⟨ys', hys', hcons⟩
      cases hcons
      rw [List.map_cons, List.map_cons, hfg x y hy, map_of_mapM hfg hys']

/-- One card for each slice, in the order of the slices. -/
theorem map_slice_of_score {runChecks : DayFrames → Option (List Issue)} {c : QualityCall}
    {rows : List Scorecard} (h : c.score runChecks = some rows) :
    rows.map Scorecard.slice = c.combos := by
  have hmap := map_of_mapM (g := Scorecard.slice) (h := fun k => k)
    (fun k card hcard => slice_of_scoreDay hcard) h
  rw [hmap, List.map_id']

/-! ## The mirror -/

/-- What a card and a row are compared by. -/
def cardLine (r : Scorecard) : String × String × ℚ × Grade :=
  (r.symbol, r.venue, r.score, r.grade)

def rowLine (e : Slice × QualityRow) : String × String × ℚ × Grade :=
  (e.1.symbol, e.1.venue, e.2.score, e.2.grade)

/-- The file of each date has one card for each row of that date, with its score and grade, and the
summary is one of the rows of the table.  A file that is not there has no cards. -/
structure Mirrored (s : QualityState) : Prop where
  files : ∀ date, ((s.files.getD date []).map cardLine).Perm
    ((s.dailyQuality.entries.filter fun e => decide (e.1.date = date)).map rowLine)
  summary : ∃ rows nowNs, rows.Perm s.dailyQuality.entries ∧
    s.summary = qualitySummaryFromRows rows nowNs

theorem mirrored_fresh : Mirrored QualityState.fresh where
  files := fun _ => List.Perm.refl []
  summary := ⟨[], 0, List.Perm.refl [], rfl⟩

/-- If the call writes anything, it scores every slice that has a row. -/
def CoversTable (runChecks : DayFrames → Option (List Issue)) (s : QualityState)
    (c : QualityCall) : Prop :=
  (c.score runChecks).isSome → c.combos ≠ [] → ∀ k ∈ s.dailyQuality.keys, k ∈ c.combos

/-- The summary tells how many rows it is of. -/
lemma length_eq_of_summary {rows rows' : List (Slice × QualityRow)} {nowNs nowNs' : Int}
    (h : qualitySummaryFromRows rows nowNs = qualitySummaryFromRows rows' nowNs') :
    rows.length = rows'.length := by
  cases rows with
  | nil =>
      cases rows' with
      | nil => rfl
      | cons e es => cases h
  | cons e es =>
      cases rows' with
      | nil => cases h
      | cons e' es' => exact congrArg QualitySummary.slices (Option.some.inj h)

section Step

variable {runChecks : DayFrames → Option (List Issue)} {s : QualityState} {c : QualityCall}
  {rows : List Scorecard}

lemma map_fst_entry (rows : List Scorecard) :
    (rows.map Scorecard.entry).map Prod.fst = rows.map Scorecard.slice := by
  rw [List.map_map]
  rfl

lemma writeDailyQuality_of_none (h : c.score runChecks = none) :
    writeDailyQuality runChecks c s = none := by
  simp [writeDailyQuality, h]

lemma writeDailyQuality_of_nil (h : c.score runChecks = some []) :
    writeDailyQuality runChecks c s = some (s, []) := by
  simp [writeDailyQuality, h]

lemma writeDailyQuality_of_rows (h : c.score runChecks = some rows) (hne : rows ≠ []) :
    writeDailyQuality runChecks c s = some
      ({ dailyQuality := s.dailyQuality.upsertAll (rows.map Scorecard.entry)
         files := s.files.upsertAll (bucket Scorecard.date rows).entries
         summary := qualitySummaryFromRows (rows.map Scorecard.entry) c.summarisedNs }, rows) := by
  simp [writeDailyQuality, h, hne]

lemma afterCall_of_none (h : c.score runChecks = none) : afterCall runChecks s c = s := by
  rw [afterCall, writeDailyQuality_of_none h]
  rfl

lemma afterCall_of_nil (h : c.score runChecks = some []) : afterCall runChecks s c = s := by
  rw [afterCall, writeDailyQuality_of_nil h]
  rfl

lemma afterCall_of_rows (h : c.score runChecks = some rows) (hne : rows ≠ []) :
    afterCall runChecks s c =
      { dailyQuality := s.dailyQuality.upsertAll (rows.map Scorecard.entry)
        files := s.files.upsertAll (bucket Scorecard.date rows).entries
        summary := qualitySummaryFromRows (rows.map Scorecard.entry) c.summarisedNs } := by
  rw [afterCall, writeDailyQuality_of_rows h hne]
  rfl

/-- A call whose cards replace the whole table rewrites the whole mirror. -/
lemma Mirrored.rewrite (hs : Mirrored s) (h : c.score runChecks = some rows)
    (hcover : ∀ k ∈ s.dailyQuality.keys, k ∈ c.combos) (hne : rows ≠ []) :
    Mirrored (afterCall runChecks s c) := by
  have hslices := map_slice_of_score h
  have hnodup : ((rows.map Scorecard.entry).map Prod.fst).Nodup := by
    rw [map_fst_entry, hslices]
    exact c.combos_nodup
  have hperm : (s.dailyQuality.upsertAll (rows.map Scorecard.entry)).entries.Perm
      (rows.map Scorecard.entry) := by
    refine (Dict.upsertAll_perm_iff hnodup).2 ?_
    rw [map_fst_entry, hslices]
    exact hcover
  rw [afterCall_of_rows h hne]
  refine ⟨?_, _, c.summarisedNs, hperm.symm, rfl⟩
  intro date
  have hrows : ((rows.map Scorecard.entry).filter fun e => decide (e.1.date = date)).map rowLine =
      (rows.filter fun r => decide (r.date = date)).map cardLine := by
    rw [List.filter_map, List.map_map]
    rfl
  have htable : ((s.dailyQuality.upsertAll (rows.map Scorecard.entry)).entries.filter
      fun e => decide (e.1.date = date)).map rowLine |>.Perm
        ((rows.filter fun r => decide (r.date = date)).map cardLine) := by
    rw [← hrows]
    exact (hperm.filter _).map _
  refine List.Perm.trans (List.Perm.of_eq ?_) htable.symm
  rw [Dict.getD_upsertAll_bucket]
  by_cases hdate : date ∈ rows.map Scorecard.date
  · rw [if_pos hdate]
  · rw [if_neg hdate]
    -- A date without cards had no row before, hence no card in its file.
    have hnone : (rows.filter fun r => decide (r.date = date)) = [] := by
      refine List.filter_eq_nil_iff.2 ?_
      intro r hr hd
      exact hdate (List.mem_map.2 ⟨r, hr, by simpa using hd⟩)
    have hold : (s.dailyQuality.entries.filter fun e => decide (e.1.date = date)) = [] := by
      refine List.filter_eq_nil_iff.2 ?_
      intro e he hd
      have hin := hcover e.1 (Dict.mem_keys_of_mem he)
      rw [← hslices] at hin
      rcases List.mem_map.1 hin with ⟨r, hr, hslice⟩
      refine hdate (List.mem_map.2 ⟨r, hr, ?_⟩)
      have hd' : e.1.date = date := by simpa using hd
      rw [← hd', ← hslice]
      rfl
    have hfile := hs.files date
    rw [hold] at hfile
    rw [hnone, List.perm_nil.1 hfile]
    rfl

/-- One call keeps the mirror exactly if it scores every slice that has a row. -/
theorem mirrored_afterCall_iff (runChecks : DayFrames → Option (List Issue)) (c : QualityCall)
    (hs : Mirrored s) : Mirrored (afterCall runChecks s c) ↔ CoversTable runChecks s c := by
  cases hscore : c.score runChecks with
  | none =>
      rw [afterCall_of_none hscore]
      exact ⟨fun _ hsome => by simp [hscore] at hsome, fun _ => hs⟩
  | some rows =>
      have hslices := map_slice_of_score hscore
      by_cases hne : rows = []
      · subst hne
        rw [afterCall_of_nil hscore]
        exact ⟨fun _ _ hcombos => absurd hslices.symm hcombos, fun _ => hs⟩
      · have hcombos : c.combos ≠ [] := by
          rw [← hslices]
          simpa using hne
        constructor
        · intro hmirror _ _
          rcases hmirror.summary with ⟨rows', nowNs, hperm, hsummary⟩
          rw [afterCall_of_rows hscore hne] at hperm hsummary
          -- The summary counts the cards of the call, and the rows of the table.
          have hlen := length_eq_of_summary hsummary
          have hnodup : ((rows.map Scorecard.entry).map Prod.fst).Nodup := by
            rw [map_fst_entry, hslices]
            exact c.combos_nodup
          have hcover := (Dict.length_upsertAll_eq_iff (d := s.dailyQuality) hnodup).1
            (hperm.length_eq.symm.trans hlen.symm)
          rw [map_fst_entry, hslices] at hcover
          exact hcover
        · intro hcover
          exact hs.rewrite hscore (hcover (by simp [hscore]) hcombos) hne

end Step

/-! ## A run -/

/-- Every call of the run meets the condition in the state that it finds. -/
def CoversAlong (runChecks : DayFrames → Option (List Issue)) :
    QualityState → List QualityCall → Prop
  | _, [] => True
  | s, c :: calls =>
      CoversTable runChecks s c ∧ CoversAlong runChecks (afterCall runChecks s c) calls

/-- The files mirror the table after every call of a run exactly if every call that writes
anything scores every slice that has a row. -/
theorem mirrored_run_iff (runChecks : DayFrames → Option (List Issue)) :
    ∀ (calls : List QualityCall) (s : QualityState), Mirrored s →
      ((∀ s' ∈ calls.scanl (afterCall runChecks) s, Mirrored s') ↔ CoversAlong runChecks s calls)
  | [], s, hs => by simp [CoversAlong, hs]
  | c :: calls, s, hs => by
      have hstep := mirrored_afterCall_iff runChecks c hs
      rw [List.scanl_cons, List.forall_mem_cons]
      constructor
      · rintro ⟨_, hrest⟩
        have hfirst : Mirrored (afterCall runChecks s c) :=
          hrest _ (by cases calls <;> simp)
        exact ⟨hstep.1 hfirst, (mirrored_run_iff runChecks calls _ hfirst).1 hrest⟩
      · rintro ⟨hcover, hrest⟩
        have hfirst := hstep.2 hcover
        exact ⟨hs, (mirrored_run_iff runChecks calls _ hfirst).2 hrest⟩

/-- Bars of two symbols on one day. -/
def twoSymbols : Store Bar :=
  let bar (symbol : String) : Bar :=
    { tsNs := 0, symbol := symbol, venue := "okx", «open» := 100, high := 100, low := 100,
      close := 100, volume := 1, vwap := 100, trades := 1, sourcesMask := 0,
      ingestedAtNs := some 1 }
  (Dict.empty.set ⟨⟨"bars_1s", "BTC-USD", "okx", "1970-01-01"⟩, .part 1⟩ [bar "BTC-USD"]).set
    ⟨⟨"bars_1s", "ETH-USD", "okx", "1970-01-01"⟩, .part 2⟩ [bar "ETH-USD"]

/-- A call over these bars, at a fixed time. -/
def twoSymbolsCall (symbols : Option (List String)) : QualityCall where
  symbols := symbols
  views := ⟨twoSymbols, Dict.empty, Dict.empty⟩
  scan := Scan.plain
  scoredNs := fun _ => 3
  summarisedNs := 4

/-- Two full calls keep the mirror. -/
theorem mirrored_run_iff_unrestricted :
    let run := [twoSymbolsCall none, twoSymbolsCall none].scanl (afterCall fun _ => some [])
      QualityState.fresh
    run.map (fun s => s.dailyQuality.keys.length) = [0, 2, 2] ∧ ∀ s ∈ run, Mirrored s := by
  intro run
  refine ⟨by decide +kernel, (mirrored_run_iff _ _ _ mirrored_fresh).2 ⟨?_, ?_, trivial⟩⟩
  · intro _ _ k hk
    cases hk
  · intro _ _
    decide +kernel

/-- After a full call, one that is restricted to `ETH-USD` drops `BTC-USD` from the file of the day
and from the summary, while its row stays. -/
theorem restricted_call_breaks_mirror :
    let s := [twoSymbolsCall none, twoSymbolsCall (some ["ETH-USD"])].foldl
      (afterCall fun _ => some []) QualityState.fresh
    s.dailyQuality.keys.map Slice.symbol = ["BTC-USD", "ETH-USD"] ∧
      (s.files.getD "1970-01-01" []).map Scorecard.symbol = ["ETH-USD"] ∧
      s.summary.map QualitySummary.slices = some 1 ∧ ¬ Mirrored s := by
  intro s
  have hrows : s.dailyQuality.keys.map Slice.symbol = ["BTC-USD", "ETH-USD"] := by decide +kernel
  have hcards : (s.files.getD "1970-01-01" []).map Scorecard.symbol = ["ETH-USD"] := by
    decide +kernel
  have hsummary : s.summary.map QualitySummary.slices = some 1 := by decide +kernel
  refine ⟨hrows, hcards, hsummary, ?_⟩
  intro hmirror
  have hfile := (hmirror.files "1970-01-01").length_eq
  have hdiffer : ((s.files.getD "1970-01-01" []).map cardLine).length ≠
      ((s.dailyQuality.entries.filter fun e => decide (e.1.date = "1970-01-01")).map
        rowLine).length := by decide +kernel
  exact hdiffer hfile

end CryptoData
