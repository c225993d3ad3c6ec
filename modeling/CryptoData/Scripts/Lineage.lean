import CryptoData.Core.Summary
import CryptoData.Scripts.Backfill
import CryptoData.Scripts.BuildRows

/-!
# Lineage — which stored rows the corrections log accounts for

Three jobs write part files: a backfill logs the window it was asked for once its last file is
written, a build logs the instant zero, and the reconciler logs nothing.  Each may be cut short by
an exception after any number of files.

So the log accounts for every row that a run of such jobs has written exactly if it accounts for
every row beforehand, but for the rows of a completed backfill inside its window and those of a
completed build in second zero (`lineage_complete_iff`).
-/

namespace CryptoData

open Foundation

/-! ## Jobs that may fail -/

/-- The first files of a job: all of them, or those before the exception. -/
def upTo {α : Type*} (fails : Option ℕ) (files : List α) : List α :=
  fails.elim files fun k => files.take k

/-- A backfill that fails after `k` files. -/
def backfillUntil (req : BackfillRequest) (k : ℕ) (l : Lake) : Lake :=
  match req.fetch with
  | .error _ => l
  | .ok batch => ((batch.byDate.take k).foldl req.writeGroup (l, 0)).1

/-- A build that fails after the files of `k` venues, or after the tape if there are fewer. -/
def buildUntil (fs : Listing) (cfg : AggConfig) (symbol date : String) (k : ℕ) (w : World) :
    World :=
  let perVenueTrades := collectTrades fs w.trades symbol date
  let venues := (perVenueTrades.entries.take k).foldl (buildVenue symbol date) (w, 0)
  if k ≤ perVenueTrades.entries.length then venues.1
  else ((buildAgg cfg symbol date perVenueTrades venues.1).map Prod.fst).getD venues.1

/-- The files of one symbol's round, by date. -/
def reconcileFiles (source : Source) (startNs nowNs : Int) (s : Store Trade) (canonical : String) :
    List (String × List Trade) :=
  (bucket (fun t : Trade => dateStr t.tsNs)
    (refetched source startNs nowNs canonical (venueRows s source.name canonical))).entries

/-- A reconciliation that fails in the round of the `i`-th symbol, after `k` files of it. -/
def reconcileUntil (byCanonical : Dict String SymbolMap) (source : Source)
    (lookbackMinutes : Int) (i k : ℕ) (w : World) : World :=
  let startNs := windowStart w.now lookbackMinutes
  let entries := symbolsForVenue byCanonical source.name
  let done := (entries.take i).foldl (reconcileSymbol source startNs w.now) (w.tock, 0)
  match entries[i]? with
  | none => done.1
  | some entry =>
      (((reconcileFiles source startNs w.now done.1.trades entry.1).take k).foldl
        (writeDate source.name entry.1) done).1

/-- A job and where it fails, if it does. -/
inductive LineageStep
  | backfill (req : BackfillRequest) (fails : Option ℕ)
  | build (fs : Listing) (cfg : AggConfig) (symbol date : String) (fails : Option ℕ)
  | reconcile (byCanonical : Dict String SymbolMap) (source : Source) (lookbackMinutes : Int)
      (fails : Option (ℕ × ℕ))

namespace LineageStep

/-- What a job leaves behind.  A job that no write of files cuts short raises before the first of
them, if at all: the log of a timely world refuses no row. -/
def run (l : Lake) : LineageStep → Lake
  | backfill req none => ((runBackfill req l).map Prod.fst).getD l
  | backfill req (some k) => backfillUntil req k l
  | build fs cfg symbol date none =>
      { l with world := ((buildFor fs cfg symbol date l.world).map Prod.fst).getD l.world }
  | build fs cfg symbol date (some k) =>
      { l with world := buildUntil fs cfg symbol date k l.world }
  | reconcile byCanonical source lookbackMinutes none =>
      { l with world := (reconcileVenueTrades byCanonical source lookbackMinutes l.world).1 }
  | reconcile byCanonical source lookbackMinutes (some (i, k)) =>
      { l with world := reconcileUntil byCanonical source lookbackMinutes i k l.world }

/-- The rows that the job writes: what a backfill fetched, the seconds of the trades that a build
read, and what the reconciler fetched, up to the failure. -/
def Writes (l : Lake) (r : PartRow) : LineageStep → Prop
  | backfill req fails => ∃ batch ∈ req.fetch.toOption, ∃ g ∈ upTo fails batch.byDate,
      ∃ ts ∈ g.2.times, r = ⟨batch.dest, req.symbol, ts⟩
  | build fs _ symbol date fails =>
      ∃ e ∈ upTo fails (collectTrades fs l.world.trades symbol date).entries,
        ∃ t ∈ e.2, r = ⟨"bars_1s", symbol, t.second⟩
  | reconcile byCanonical source lookbackMinutes fails =>
      let files := reconcileFiles source (windowStart l.world.now lookbackMinutes) l.world.now
        l.world.trades
      let entries := symbolsForVenue byCanonical source.name
      (∃ entry ∈ upTo (fails.map Prod.fst) entries, ∃ g ∈ files entry.1, ∃ t ∈ g.2,
          r = ⟨"trades", entry.1, t.tsNs⟩) ∨
        ∃ cut ∈ fails, ∃ entry ∈ entries[cut.1]?, ∃ g ∈ (files entry.1).take cut.2, ∃ t ∈ g.2,
          r = ⟨"trades", entry.1, t.tsNs⟩

/-- The job logs the row itself: a completed backfill its window, a completed build the instant
zero. -/
def Logs (r : PartRow) : LineageStep → Prop
  | backfill req none => req.startNs ≤ r.tsNs ∧ r.tsNs ≤ req.endNs
  | build _ _ _ _ none => r.tsNs = 0
  | _ => False

instance (r : PartRow) : ∀ step : LineageStep, Decidable (step.Logs r)
  | backfill req none => inferInstanceAs (Decidable (req.startNs ≤ r.tsNs ∧ r.tsNs ≤ req.endNs))
  | build _ _ _ _ none => inferInstanceAs (Decidable (r.tsNs = 0))
  | backfill _ (some _) => instDecidableFalse
  | build _ _ _ _ (some _) => instDecidableFalse
  | reconcile _ _ _ _ => instDecidableFalse

end LineageStep

/-! ## The world under a build -/

/-- The clock goes on, and nothing is logged. -/
structure World.Unlogged (w w' : World) : Prop where
  clock : w'.clock = w.clock
  tick : w.tick ≤ w'.tick
  corrections : w'.corrections = w.corrections

namespace World.Unlogged

variable {w w' w'' : World}

lemma refl (w : World) : Unlogged w w :=
  ⟨rfl, le_refl _, rfl⟩

lemma trans (h : Unlogged w w') (h' : Unlogged w' w'') : Unlogged w w'' :=
  ⟨h'.clock.trans h.clock, le_trans h.tick h'.tick, h'.corrections.trans h.corrections⟩

lemma tock (w : World) : Unlogged w w.tock :=
  ⟨rfl, Nat.le_succ _, rfl⟩

lemma now_le (h : Unlogged w w') (hw : w.Timely) : w.now ≤ w'.now := by
  unfold World.now
  rw [h.clock]
  rcases Nat.lt_or_eq_of_le h.tick with hlt | heq
  · exact (hw.increasing _ _ hlt).le
  · rw [heq]

end World.Unlogged

section Build

variable {cfg : AggConfig} {symbol date : String}

lemma writeUnlessEmpty_unlogged (w : World) (rows : List Bar) (symbol venue date : String) :
    w.Unlogged (if rows.isEmpty then w else w.writeBars rows symbol venue date) := by
  by_cases hempty : rows.isEmpty = true
  · rw [if_pos hempty]
    exact World.Unlogged.refl w
  · rw [if_neg hempty]
    exact ⟨rfl, Nat.le_succ _, rfl⟩

lemma buildVenues_unlogged (symbol date : String) :
    ∀ (entries : List (String × List Trade)) (acc : World × ℕ),
      acc.1.Unlogged (entries.foldl (buildVenue symbol date) acc).1
  | [], acc => World.Unlogged.refl acc.1
  | e :: entries, acc => by
      have hfirst : acc.1.Unlogged (buildVenue symbol date acc e).1 := by
        rw [buildVenue_fst]
        exact (World.Unlogged.tock acc.1).trans (writeUnlessEmpty_unlogged _ _ _ _ _)
      exact hfirst.trans (buildVenues_unlogged symbol date entries _)

lemma buildAgg_unlogged {perVenueTrades : Dict String (List Trade)} {w w' : World}
    {diagnostics : BuildDiagnostics}
    (h : buildAgg cfg symbol date perVenueTrades w = some (w', diagnostics)) :
    w.Unlogged w' := by
  cases hempty : (spotTrades perVenueTrades).entries.isEmpty with
  | true =>
      simp only [buildAgg, hempty, if_true, Option.some.injEq, Prod.mk.injEq] at h
      rw [← h.1]
      exact World.Unlogged.refl w
  | false =>
      simp only [buildAgg, hempty, Bool.false_eq_true, if_false] at h
      rcases Option.bind_eq_some_iff.1 h with ⟨tape, _, hout⟩
      have hw' : writeTape symbol date w.tock tape = w' :=
        congrArg Prod.fst (Option.some.inj hout)
      rw [← hw']
      exact (World.Unlogged.tock w).trans (writeUnlessEmpty_unlogged _ _ _ _ _)

/-- A build that reads any trades logs the instant zero, after everything else. -/
theorem buildFor_logs {fs : Listing} {w w' : World} {report : BuildReport}
    (h : buildFor fs cfg symbol date w = some (w', report)) :
    (collectTrades fs w.trades symbol date).entries = [] ∧ w' = w ∨
      ∃ mid : World, ∃ diagnostics : BuildDiagnostics, ∃ c : Correction,
        buildAgg cfg symbol date (collectTrades fs w.trades symbol date)
            ((collectTrades fs w.trades symbol date).entries.foldl
              (buildVenue symbol date) (w, 0)).1 = some (mid, diagnostics) ∧
        w' = mid.addCorrection c ∧ c.correctionId = mid.now ∧ c.tableName = "bars_1s" ∧
        c.symbol = some symbol ∧ c.effectiveFromNs = 0 ∧ c.effectiveToNs = 0 := by
  cases hempty : (collectTrades fs w.trades symbol date).entries.isEmpty with
  | true =>
      simp only [buildFor, hempty, if_true, Option.some.injEq, Prod.mk.injEq] at h
      exact Or.inl ⟨List.isEmpty_iff.1 hempty, h.1.symm⟩
  | false =>
      simp only [buildFor, hempty, Bool.false_eq_true, if_false] at h
      rcases Option.bind_eq_some_iff.1 h with ⟨agg, hagg, hrest⟩
      rcases Option.bind_eq_some_iff.1 hrest with ⟨logged, hlog, hout⟩
      have hlogged : logged = w' := congrArg Prod.fst (Option.some.inj hout)
      subst hlogged
      have hkind : "backfill" ∈ correctionKinds := by decide
      have hseverity : "info" ∈ correctionSeverities := by decide
      refine Or.inr ⟨agg.1, agg.2, ?_⟩
      simp only [logBuild, World.recordCorrection, hkind, hseverity, not_true_eq_false,
        if_false] at hlog
      split_ifs at hlog with hdup
      · cases hlog
      · exact ⟨_, hagg, (Option.some.inj hlog).symm, rfl, rfl, rfl, rfl, rfl⟩

/-- A job that works on the bars alone adds the rows that it files. -/
lemma adds_bars {l : Lake} (h : l.Timely) {w' : World} (htimely : w'.Timely)
    (hunlogged : l.world.Unlogged w') (htrades : w'.trades = l.world.trades)
    {extra : Multiset (Partition × Bar)} (hbars : w'.bars.located = extra + l.world.bars.located) :
    l.Adds { l with world := w' }
      fun r => ∃ x ∈ extra, r = ⟨x.1.table, x.1.symbol, x.2.tsNs⟩ := by
  refine ⟨h.advance htimely (hunlogged.now_le h.world),
    ⟨extra.map fun x => ⟨x.1.table, x.1.symbol, x.2.tsNs⟩, ?_, ?_⟩, hunlogged.corrections⟩
  · have hpart : partRows Bar.tsNs w'.bars =
        (extra.map fun x => (⟨x.1.table, x.1.symbol, x.2.tsNs⟩ : PartRow)) +
          partRows Bar.tsNs l.world.bars := by
      rw [partRows, hbars, Multiset.map_add]
      rfl
    simp only [Lake.rows, htrades, hpart]
    abel
  · intro r
    rw [Multiset.mem_map]
    exact exists_congr fun x => and_congr_right' eq_comm

/-- The loop over the venues adds a row for each second of their trades. -/
theorem adds_venues {l : Lake} (h : l.Timely) (symbol date : String)
    {entries : List (String × List Trade)} (hnodup : (entries.map Prod.fst).Nodup)
    (hsorted : ∀ e ∈ entries, e.2.Pairwise fun x y => x.tsNs ≤ y.tsNs) :
    l.Adds { l with world := (entries.foldl (buildVenue symbol date) (l.world, 0)).1 }
      fun r => ∃ e ∈ entries, ∃ t ∈ e.2, r = ⟨"bars_1s", symbol, t.second⟩ := by
  rcases buildVenues_located symbol date entries (l.world, 0) hnodup h.world with
    ⟨stamp, htimely, htrades, hlocated⟩
  refine (adds_bars h htimely
    (buildVenues_unlogged symbol date entries (l.world, 0)) htrades hlocated).congr ?_
  intro r
  constructor
  · rintro ⟨⟨dir, b⟩, hx, rfl⟩
    rcases (mem_sum_barFiles_iff entries).1 hx with ⟨e, he, rfl, hb⟩
    rcases (exists_mem_barsFromTrades_iff symbol e.1 (stamp e.1) (hsorted e he)).1 ⟨b, hb, rfl⟩
      with ⟨t, ht, hts⟩
    refine ⟨e, he, t, ht, ?_⟩
    rw [hts]
    rfl
  · rintro ⟨e, he, t, ht, rfl⟩
    rcases (exists_mem_barsFromTrades_iff symbol e.1 (stamp e.1) (hsorted e he)).2 ⟨t, ht, rfl⟩
      with ⟨b, hb, hts⟩
    refine ⟨(barDir symbol date e.1, b), (mem_sum_barFiles_iff entries).2 ⟨e, he, rfl, hb⟩, ?_⟩
    rw [← hts]
    rfl

/-- The tape adds rows in seconds of the trades only. -/
theorem adds_tape {l : Lake} (h : l.Timely) {perVenueTrades : Dict String (List Trade)}
    {w' : World} {diagnostics : BuildDiagnostics}
    (hagg : buildAgg cfg symbol date perVenueTrades l.world = some (w', diagnostics)) :
    ∃ p : PartRow → Prop, l.Adds { l with world := w' } p ∧ ∀ r, p r →
      ∃ e ∈ perVenueTrades.entries, ∃ t ∈ e.2, r = ⟨"bars_1s", symbol, t.second⟩ := by
  rcases buildAgg_located cfg symbol date perVenueTrades h.world with
    ⟨w'', diagnostics', tape, hagg', htape, htimely, htrades, hlocated⟩
  have hsame : w'' = w' := congrArg Prod.fst (Option.some.inj (hagg'.symm.trans hagg))
  subst hsame
  refine ⟨_, adds_bars h htimely (buildAgg_unlogged hagg) htrades hlocated, ?_⟩
  rintro r ⟨⟨dir, b⟩, hx, rfl⟩
  rcases mem_barFiles_iff.1 hx with ⟨rfl, hb⟩
  rcases consolidate_spec cfg symbol l.world.now perVenueTrades with ⟨tape', htape', hbars, hsub⟩
  have hsame : tape' = tape := Option.some.inj (htape'.symm.trans htape)
  subst hsame
  rw [hbars] at hb
  rcases labels_of_mem_buildAggBars hb with ⟨_, _, t, ht, hts⟩
  rcases hsub t ht with ⟨e, he, hte⟩
  refine ⟨e, he, t, hte, ?_⟩
  rw [← hts]
  rfl

end Build

/-! ## The rounds of the reconciler -/

section Reconcile

variable {source : Source} {startNs nowNs : Int}

/-- Writing the files of a symbol adds their rows. -/
lemma adds_writeDates (venue canonical : String) :
    ∀ (groups : List (String × List Trade)) (l : Lake) (n : ℕ), l.Timely →
      l.Adds { l with world := (groups.foldl (writeDate venue canonical) (l.world, n)).1 }
        fun r => ∃ g ∈ groups, ∃ t ∈ g.2, r = ⟨"trades", canonical, t.tsNs⟩
  | [], l, n, h => (Lake.Adds.refl h).congr fun r => by simp
  | g :: groups, l, n, h => by
      have hfirst := Lake.adds_write h (.trades g.2) canonical venue g.1
      have hrest := adds_writeDates venue canonical groups
        (l.write (.trades g.2) canonical venue g.1) (n + g.2.length) hfirst.timely
      refine (hfirst.trans hrest).congr ?_
      intro r
      rw [List.exists_mem_cons_iff]
      refine or_congr ?_ Iff.rfl
      simp only [Fetched.times, Fetched.dest, List.mem_map, exists_exists_and_eq_and]

/-- A symbol's round leaves the rows of the other symbols, so each finds what was stored before the
first of them. -/
theorem adds_rounds :
    ∀ (entries : List (String × String)) (l : Lake) (n : ℕ), l.Timely →
      (entries.map Prod.fst).Nodup →
      l.Adds { l with world :=
          (entries.foldl (reconcileSymbol source startNs nowNs) (l.world, n)).1 }
        fun r => ∃ entry ∈ entries,
          ∃ g ∈ reconcileFiles source startNs nowNs l.world.trades entry.1, ∃ t ∈ g.2,
            r = ⟨"trades", entry.1, t.tsNs⟩
  | [], l, n, h, _ => (Lake.Adds.refl h).congr fun r => by simp
  | entry :: entries, l, n, h, hnodup => by
      have hcons := List.nodup_cons.1 hnodup
      have hround := reconcileSymbol_eq source startNs nowNs (l.world, n) entry
      have hfirst := adds_writeDates source.name entry.1
        (reconcileFiles source startNs nowNs l.world.trades entry.1) l n h
      have hfiles : (reconcileFiles source startNs nowNs l.world.trades entry.1).foldl
          (writeDate source.name entry.1) (l.world, n) =
            reconcileSymbol source startNs nowNs (l.world, n) entry := hround.symm
      rw [hfiles] at hfirst
      have hrest := adds_rounds entries
        { l with world := (reconcileSymbol source startNs nowNs (l.world, n) entry).1 }
        (reconcileSymbol source startNs nowNs (l.world, n) entry).2 hfirst.timely hcons.2
      have hother : ∀ symbol, symbol ≠ entry.1 →
          venueRows (reconcileSymbol source startNs nowNs (l.world, n) entry).1.trades source.name
            symbol = venueRows l.world.trades source.name symbol := by
        have htimely : (l.world, n).1.Timely := h.world
        exact (reconcileSymbol_spec source startNs nowNs htimely entry).2.2
      refine (hfirst.trans hrest).congr ?_
      intro r
      rw [List.exists_mem_cons_iff]
      refine or_congr Iff.rfl ?_
      refine exists_congr fun later => and_congr_right fun hlater => ?_
      have hne : later.1 ≠ entry.1 := fun heq => hcons.1 (List.mem_map.2 ⟨later, hlater, heq⟩)
      simp only [reconcileFiles, hother later.1 hne]

end Reconcile

/-! ## One job -/

/-- Some row of the log has the table and the symbol of the row, and covers its event time. -/
def LogCovers (log : List Correction) (r : PartRow) : Prop :=
  ∃ c ∈ log, c.tableName = r.table ∧ c.symbol = some r.symbol ∧ c.effectiveFromNs ≤ r.tsNs ∧
    r.tsNs ≤ c.effectiveToNs

instance (log : List Correction) (r : PartRow) : Decidable (LogCovers log r) :=
  inferInstanceAs (Decidable (∃ c ∈ log, _))

lemma logCovers_append {log own : List Correction} {r : PartRow} :
    LogCovers (log ++ own) r ↔ LogCovers log r ∨ LogCovers own r := by
  simp [LogCovers, or_and_right, exists_or]

lemma logCovers_singleton {c : Correction} {r : PartRow} :
    LogCovers [c] r ↔ c.tableName = r.table ∧ c.symbol = some r.symbol ∧
      c.effectiveFromNs ≤ r.tsNs ∧ r.tsNs ≤ c.effectiveToNs := by
  simp [LogCovers]

/-- What a job does: it adds the rows that it writes, and appends to the log what accounts for
those that it logs. -/
structure StepSpec (l : Lake) (step : LineageStep) : Prop where
  timely : (step.run l).Timely
  rows : ∃ added : Multiset PartRow, (step.run l).rows = added + l.rows ∧
    ∀ r, r ∈ added ↔ step.Writes l r
  log : ∃ own, (step.run l).world.corrections = l.world.corrections ++ own ∧
    ∀ r, step.Writes l r → (LogCovers own r ↔ step.Logs r)

section Step

variable {l mid : Lake} {step : LineageStep}

/-- A job that ends without logging. -/
lemma StepSpec.of_adds (h : l.Adds (step.run l) fun r => step.Writes l r)
    (hlogs : ∀ r, step.Writes l r → ¬ step.Logs r) : StepSpec l step := by
  refine ⟨h.timely, h.rows, [], ?_, ?_⟩
  · rw [h.corrections, List.append_nil]
  · intro r hr
    exact ⟨fun hlogged => by simp [LogCovers] at hlogged, fun hlogs' => absurd hlogs' (hlogs r hr)⟩

/-- A job that ends with one row of the log. -/
lemma StepSpec.of_logged (h : l.Adds mid fun r => step.Writes l r) {c : Correction}
    (hid : c.correctionId = mid.world.now)
    (hrun : step.run l = { mid with world := mid.world.addCorrection c })
    (hlogs : ∀ r, step.Writes l r → (LogCovers [c] r ↔ step.Logs r)) : StepSpec l step := by
  have hclock : mid.world.now < (mid.world.addCorrection c).now := h.timely.world.now_lt_tock
  have htimely := h.timely.advance (h.timely.world.addCorrection hid) hclock.le
  have hrows : ({ mid with world := mid.world.addCorrection c } : Lake).rows = mid.rows := rfl
  refine ⟨?_, ?_, [c], ?_, hlogs⟩
  · rw [hrun]
    exact htimely
  · rw [hrun, hrows]
    exact h.rows
  · rw [hrun, ← h.corrections]
    rfl

lemma mem_of_mem_upTo {α : Type*} {fails : Option ℕ} {xs : List α} {x : α}
    (h : x ∈ upTo fails xs) : x ∈ xs := by
  cases fails with
  | none => exact h
  | some k => exact List.mem_of_mem_take h

/-- The rows of the first files of a fetched batch. -/
lemma writes_backfill_iff {req : BackfillRequest} {batch : Fetched} (hfetch : req.fetch = .ok batch)
    (fails : Option ℕ) (r : PartRow) :
    (∃ g ∈ upTo fails batch.byDate, ∃ ts ∈ g.2.times, r = ⟨g.2.dest, req.symbol, ts⟩) ↔
      (LineageStep.backfill req fails).Writes l r := by
  have hbatch : ∀ p : Fetched → Prop, (∃ b ∈ req.fetch.toOption, p b) ↔ p batch := by
    intro p
    rw [hfetch]
    simp [Except.toOption]
  rw [LineageStep.Writes, hbatch]
  refine exists_congr fun g => and_congr_right fun hg => ?_
  rw [Fetched.dest_of_mem_byDate (mem_of_mem_upTo hg)]

lemma not_writes_of_error {req : BackfillRequest} {e : FetchError} (hfetch : req.fetch = .error e)
    (fails : Option ℕ) (r : PartRow) : ¬ (LineageStep.backfill req fails).Writes l r := by
  rintro ⟨batch, hbatch, _⟩
  rw [hfetch] at hbatch
  cases hbatch

theorem step_backfill_some (h : l.Timely) (req : BackfillRequest) (k : ℕ) :
    StepSpec l (.backfill req (some k)) := by
  refine StepSpec.of_adds ?_ fun _ _ hlogs => hlogs
  cases hfetch : req.fetch with
  | error e =>
      have hrun : (LineageStep.backfill req (some k)).run l = l := by
        simp only [LineageStep.run, backfillUntil, hfetch]
      rw [hrun]
      exact (Lake.Adds.refl h).congr fun r => iff_of_false not_false
        (not_writes_of_error hfetch (some k) r)
  | ok batch =>
      have hrun : (LineageStep.backfill req (some k)).run l =
          ((batch.byDate.take k).foldl req.writeGroup (l, 0)).1 := by
        simp only [LineageStep.run, backfillUntil, hfetch]
      rw [hrun]
      exact (BackfillRequest.adds_writeGroups (batch.byDate.take k) (l, 0) h).congr
        fun r => writes_backfill_iff hfetch (some k) r

theorem step_backfill_none (h : l.Timely) (req : BackfillRequest) :
    StepSpec l (.backfill req none) := by
  cases hfetch : req.fetch with
  | error e =>
      have hrun : (LineageStep.backfill req none).run l = l := by
        simp [LineageStep.run, runBackfill, hfetch]
      refine StepSpec.of_adds ?_ fun r hr => absurd hr (not_writes_of_error hfetch none r)
      rw [hrun]
      exact (Lake.Adds.refl h).congr fun r => iff_of_false not_false
        (not_writes_of_error hfetch none r)
  | ok batch =>
      have hwrites := writes_backfill_iff (l := l) hfetch none
      have hall : ∀ r, (LineageStep.backfill req none).Writes l r ↔
          ∃ ts ∈ batch.times, r = ⟨batch.dest, req.symbol, ts⟩ := fun r =>
        (hwrites r).symm.trans (Fetched.exists_mem_byDate_iff batch req.symbol r)
      cases hempty : batch.times.isEmpty with
      | true =>
          have hnil : batch.times = [] := List.isEmpty_iff.1 hempty
          have hnone : ∀ r, ¬ (LineageStep.backfill req none).Writes l r := by
            intro r hr
            rcases (hall r).1 hr with ⟨ts, hts, _⟩
            rw [hnil] at hts
            cases hts
          have hrun : (LineageStep.backfill req none).run l = l := by
            simp [LineageStep.run, runBackfill, hfetch, hnil]
          refine StepSpec.of_adds ?_ fun r hr => absurd hr (hnone r)
          rw [hrun]
          exact (Lake.Adds.refl h).congr fun r => iff_of_false not_false (hnone r)
      | false =>
          have hadds := (BackfillRequest.adds_writeGroups batch.byDate (l, 0) h).congr hwrites
          rcases req.log_spec hadds.timely batch.dest
            (batch.byDate.foldl req.writeGroup (l, 0)).2 with
              ⟨c, hlog, hid, htable, hsymbol, hfrom, hto⟩
          refine StepSpec.of_logged hadds hid ?_ ?_
          · simp [LineageStep.run, runBackfill, hfetch, hempty, hlog]
          · intro r hr
            rcases (hall r).1 hr with ⟨ts, _, rfl⟩
            rw [logCovers_singleton, htable, hsymbol, hfrom, hto]
            simp [LineageStep.Logs]

/-- The venues that a build collects, or the first of them. -/
lemma adds_collected (h : l.Timely) (fs : Listing) (symbol date : String)
    {entries : List (String × List Trade)}
    (hsub : entries.Sublist (collectTrades fs l.world.trades symbol date).entries) :
    l.Adds { l with world := (entries.foldl (buildVenue symbol date) (l.world, 0)).1 }
      fun r => ∃ e ∈ entries, ∃ t ∈ e.2, r = ⟨"bars_1s", symbol, t.second⟩ := by
  refine adds_venues h symbol date ?_ ?_
  · exact (collectTrades fs l.world.trades symbol date).nodup.sublist (hsub.map Prod.fst)
  · intro e he
    rw [(mem_collectTrades_iff.1 (hsub.subset he)).2]
    exact dayRows_sorted

/-- The venues and the tape: all rows of the tape share the second of a venue row. -/
lemma adds_built (h : l.Timely) {fs : Listing} {cfg : AggConfig} {symbol date : String}
    {w' : World} {diagnostics : BuildDiagnostics}
    (hagg : buildAgg cfg symbol date (collectTrades fs l.world.trades symbol date)
      ((collectTrades fs l.world.trades symbol date).entries.foldl
        (buildVenue symbol date) (l.world, 0)).1 = some (w', diagnostics)) :
    l.Adds { l with world := w' } fun r =>
      ∃ e ∈ (collectTrades fs l.world.trades symbol date).entries, ∃ t ∈ e.2,
        r = ⟨"bars_1s", symbol, t.second⟩ := by
  have hvenues := adds_collected h fs symbol date (List.Sublist.refl _)
  rcases adds_tape hvenues.timely hagg with ⟨p, htape, hsub⟩
  exact (hvenues.trans htape).congr fun r => or_iff_left_of_imp (hsub r)

theorem step_build_some (h : l.Timely) (fs : Listing) (cfg : AggConfig) (symbol date : String)
    (k : ℕ) : StepSpec l (.build fs cfg symbol date (some k)) := by
  refine StepSpec.of_adds ?_ fun _ _ hlogs => hlogs
  let entries := (collectTrades fs l.world.trades symbol date).entries
  by_cases hk : k ≤ entries.length
  · have hrun : (LineageStep.build fs cfg symbol date (some k)).run l =
        { l with world := ((entries.take k).foldl (buildVenue symbol date) (l.world, 0)).1 } := by
      simp only [LineageStep.run, buildUntil]
      rw [if_pos hk]
    rw [hrun]
    exact adds_collected h fs symbol date (List.take_sublist k entries)
  · have htake : entries.take k = entries := List.take_of_length_le (not_le.1 hk).le
    rcases buildAgg_located cfg symbol date (collectTrades fs l.world.trades symbol date)
      (adds_collected h fs symbol date (List.Sublist.refl _)).timely.world with
        ⟨w', diagnostics, _, hagg, _⟩
    have hrun : (LineageStep.build fs cfg symbol date (some k)).run l =
        { l with world := w' } := by
      simp only [LineageStep.run, buildUntil]
      rw [if_neg hk, htake, hagg]
      rfl
    rw [hrun]
    refine (adds_built h hagg).congr fun r => ?_
    simp only [LineageStep.Writes, upTo, Option.elim_some]
    rw [htake]

theorem step_build_none (h : l.Timely) (fs : Listing) (cfg : AggConfig) (symbol date : String) :
    StepSpec l (.build fs cfg symbol date none) := by
  rcases buildFor_spec fs cfg symbol date h.world with ⟨w', report, _, hbuild, _⟩
  have hrun : (LineageStep.build fs cfg symbol date none).run l = { l with world := w' } := by
    simp [LineageStep.run, hbuild]
  rcases buildFor_logs hbuild with ⟨hnil, rfl⟩ | ⟨mid, diagnostics, c, hagg, hw', hid, htable,
    hsymbol, hfrom, hto⟩
  · have hnone : ∀ r, ¬ (LineageStep.build fs cfg symbol date none).Writes l r := by
      rintro r ⟨e, he, _⟩
      simp only [upTo, Option.elim_none, hnil] at he
      cases he
    refine StepSpec.of_adds ?_ fun r hr => absurd hr (hnone r)
    rw [hrun]
    exact (Lake.Adds.refl h).congr fun r => iff_of_false not_false (hnone r)
  · refine StepSpec.of_logged (adds_built h hagg) hid ?_ ?_
    · rw [hrun, hw']
    · rintro r ⟨e, _, t, _, rfl⟩
      rw [logCovers_singleton, htable, hsymbol, hfrom, hto]
      simp [LineageStep.Logs, le_antisymm_iff, and_comm]

/-- Reading the clock adds nothing. -/
lemma adds_tock (h : l.Timely) : l.Adds { l with world := l.world.tock } fun _ => False := by
  have hclock : l.world.now < l.world.tock.now := h.world.now_lt_tock
  exact ⟨h.advance h.world.tock hclock.le, ⟨0, (zero_add _).symm, by simp⟩, rfl⟩

/-- The rounds of a reconciliation, or the first of them. -/
lemma adds_reconciled (h : l.Timely) (byCanonical : Dict String SymbolMap) (source : Source)
    (startNs nowNs : Int) {entries : List (String × String)}
    (hsub : entries.Sublist (symbolsForVenue byCanonical source.name)) :
    l.Adds { l with world :=
        (entries.foldl (reconcileSymbol source startNs nowNs) (l.world.tock, 0)).1 }
      fun r => ∃ entry ∈ entries,
        ∃ g ∈ reconcileFiles source startNs nowNs l.world.trades entry.1, ∃ t ∈ g.2,
          r = ⟨"trades", entry.1, t.tsNs⟩ := by
  have htock := adds_tock h
  have hnodup := (symbolsForVenue_nodup byCanonical source.name).sublist (hsub.map Prod.fst)
  exact (htock.trans (adds_rounds entries _ 0 htock.timely hnodup)).congr
    fun r => or_iff_right not_false

theorem step_reconcile_none (h : l.Timely) (byCanonical : Dict String SymbolMap)
    (source : Source) (lookbackMinutes : Int) :
    StepSpec l (.reconcile byCanonical source lookbackMinutes none) := by
  refine StepSpec.of_adds ?_ fun _ _ hlogs => hlogs
  refine (adds_reconciled h byCanonical source (windowStart l.world.now lookbackMinutes)
    l.world.now (List.Sublist.refl _)).congr fun r => ?_
  exact (or_iff_left fun hcut => by simp at hcut).symm

/-- The symbols before the `i`-th one are others, so its files are those of the stored trades. -/
lemma reconcileFiles_take (h : l.Timely) (byCanonical : Dict String SymbolMap) (source : Source)
    (startNs nowNs : Int) {i : ℕ} {entry : String × String}
    (hentry : (symbolsForVenue byCanonical source.name)[i]? = some entry) :
    reconcileFiles source startNs nowNs
        (((symbolsForVenue byCanonical source.name).take i).foldl
          (reconcileSymbol source startNs nowNs) (l.world.tock, 0)).1.trades entry.1 =
      reconcileFiles source startNs nowNs l.world.trades entry.1 := by
  have hnodup := symbolsForVenue_nodup byCanonical source.name
  generalize symbolsForVenue byCanonical source.name = entries at hentry hnodup ⊢
  have hbefore := hnodup.sublist ((List.take_sublist i entries).map Prod.fst)
  have hother : entry.1 ∉ (entries.take i).map Prod.fst := by
    rcases List.getElem?_eq_some_iff.1 hentry with ⟨hi, hget⟩
    rw [← List.take_append_drop i entries, List.drop_eq_getElem_cons hi, hget,
      List.map_append, List.map_cons] at hnodup
    intro hmem
    exact (List.nodup_append.1 hnodup).2.2 _ hmem _ List.mem_cons_self rfl
  have hstored := (reconcileSymbols_spec source startNs nowNs (entries.take i)
    (l.world.tock, 0) h.world.tock hbefore).2.1 entry.1 hother
  simp only [reconcileFiles]
  rw [hstored]
  rfl

theorem step_reconcile_some (h : l.Timely) (byCanonical : Dict String SymbolMap)
    (source : Source) (lookbackMinutes : Int) (i k : ℕ) :
    StepSpec l (.reconcile byCanonical source lookbackMinutes (some (i, k))) := by
  refine StepSpec.of_adds ?_ fun _ _ hlogs => hlogs
  let startNs := windowStart l.world.now lookbackMinutes
  let entries := symbolsForVenue byCanonical source.name
  let done := (entries.take i).foldl (reconcileSymbol source startNs l.world.now)
    (l.world.tock, 0)
  have hdone : l.Adds { l with world := done.1 } _ := adds_reconciled h byCanonical source startNs
    l.world.now (List.take_sublist i entries)
  cases hentry : entries[i]? with
  | none =>
      have hrun : (LineageStep.reconcile byCanonical source lookbackMinutes (some (i, k))).run l =
          { l with world := done.1 } := by
        simp only [LineageStep.run, reconcileUntil]
        rw [hentry]
      rw [hrun]
      refine hdone.congr fun r => ?_
      simp only [LineageStep.Writes, upTo, Option.map_some, Option.elim_some, Option.mem_def,
        Option.some.injEq, exists_eq_left']
      rw [hentry]
      exact (or_iff_left fun hcut => by simp at hcut).symm
  | some entry =>
      have hfiles : reconcileFiles source startNs l.world.now done.1.trades entry.1 =
          reconcileFiles source startNs l.world.now l.world.trades entry.1 :=
        reconcileFiles_take h byCanonical source startNs l.world.now hentry
      have hcut := adds_writeDates source.name entry.1
        ((reconcileFiles source startNs l.world.now l.world.trades entry.1).take k)
        { l with world := done.1 } done.2 hdone.timely
      have hrun : (LineageStep.reconcile byCanonical source lookbackMinutes (some (i, k))).run l =
          { l with world := (((reconcileFiles source startNs l.world.now l.world.trades
            entry.1).take k).foldl (writeDate source.name entry.1) done).1 } := by
        rw [← hfiles]
        simp only [LineageStep.run, reconcileUntil]
        rw [hentry]
      rw [hrun]
      refine (hdone.trans hcut).congr fun r => ?_
      simp only [LineageStep.Writes, upTo, Option.map_some, Option.elim_some, Option.mem_def,
        Option.some.injEq, exists_eq_left']
      rw [hentry]
      simp only [Option.some.injEq, exists_eq_left']
      rfl

theorem step_spec (h : l.Timely) (step : LineageStep) : StepSpec l step := by
  cases step with
  | backfill req fails =>
      cases fails with
      | none => exact step_backfill_none h req
      | some k => exact step_backfill_some h req k
  | build fs cfg symbol date fails =>
      cases fails with
      | none => exact step_build_none h fs cfg symbol date
      | some k => exact step_build_some h fs cfg symbol date k
  | reconcile byCanonical source lookbackMinutes fails =>
      cases fails with
      | none => exact step_reconcile_none h byCanonical source lookbackMinutes
      | some cut => exact step_reconcile_some h byCanonical source lookbackMinutes cut.1 cut.2

end Step

/-! ## A run -/

/-- The log accounts for every row that was written since `start`. -/
def LineageComplete (start l : Lake) : Prop :=
  ∀ r ∈ l.rows - start.rows, LogCovers l.world.corrections r

/-- The log accounts for the rows of the job beforehand, or for those that the job logs. -/
def LineageStep.Covered (l : Lake) (step : LineageStep) : Prop :=
  ∀ r, step.Writes l r → LogCovers l.world.corrections r ∨ step.Logs r

/-- Every job of a run meets the condition in the state that it finds. -/
def CoveredAlong : Lake → List LineageStep → Prop
  | _, [] => True
  | l, step :: steps => step.Covered l ∧ CoveredAlong (step.run l) steps

section Run

variable {start l : Lake}

/-- One job keeps the log complete exactly if its rows are covered. -/
theorem complete_run_iff (h : l.Timely) (hstart : start.rows ≤ l.rows)
    (hl : LineageComplete start l) (step : LineageStep) :
    LineageComplete start (step.run l) ↔ step.Covered l := by
  rcases (step_spec h step).rows with ⟨added, hrows, hadded⟩
  rcases (step_spec h step).log with ⟨own, hlog, hown⟩
  -- The log only grows, so the older rows stay covered.
  have hdiff : (step.run l).rows - start.rows = added + (l.rows - start.rows) := by
    rw [hrows, Multiset.add_sub_assoc hstart]
  unfold LineageComplete
  rw [hdiff, hlog]
  constructor
  · intro hcomplete r hr
    have hcovers := hcomplete r (Multiset.mem_add.2 (Or.inl ((hadded r).2 hr)))
    exact (logCovers_append.1 hcovers).imp_right (hown r hr).1
  · intro hcovered r hr
    rcases Multiset.mem_add.1 hr with hnew | hold
    · have hwrites := (hadded r).1 hnew
      exact logCovers_append.2 ((hcovered r hwrites).imp_right (hown r hwrites).2)
    · exact logCovers_append.2 (Or.inl (hl r hold))

lemma rows_le_run (h : l.Timely) (step : LineageStep) : l.rows ≤ (step.run l).rows := by
  rcases (step_spec h step).rows with ⟨added, hrows, _⟩
  rw [hrows]
  exact Multiset.le_add_left _ _

/-- The same for a run, all of whose rows count from the same start. -/
theorem complete_along_iff (start : Lake) :
    ∀ (steps : List LineageStep) (l : Lake), l.Timely → start.rows ≤ l.rows →
      LineageComplete start l →
      ((∀ l' ∈ steps.scanl LineageStep.run l, LineageComplete start l') ↔ CoveredAlong l steps)
  | [], l, _, _, hl => by simp [CoveredAlong, hl]
  | step :: steps, l, h, hstart, hl => by
      have hstep := complete_run_iff h hstart hl step
      have hrest := complete_along_iff start steps (step.run l) (step_spec h step).timely
        (le_trans hstart (rows_le_run h step))
      rw [List.scanl_cons, List.forall_mem_cons]
      constructor
      · rintro ⟨_, hall⟩
        have hfirst : LineageComplete start (step.run l) := hall _ (by cases steps <;> simp)
        exact ⟨hstep.1 hfirst, (hrest hfirst).1 hall⟩
      · rintro ⟨hcovered, hall⟩
        exact ⟨hl, (hrest (hstep.2 hcovered)).2 hall⟩

lemma complete_self (l : Lake) : LineageComplete l l := by
  intro r hr
  have hnone : l.rows - l.rows = 0 := by
    have hcancel : 0 + l.rows - l.rows = 0 := Multiset.add_sub_cancel_right
    rwa [zero_add] at hcancel
  rw [hnone] at hr
  exact absurd hr (Multiset.notMem_zero r)

end Run

/-- The log is complete after every job of a run exactly if the rows of every job are covered. -/
theorem lineage_complete_iff (steps : List LineageStep) (l : Lake) (hl : l.Timely) :
    (∀ l' ∈ steps.scanl LineageStep.run l, LineageComplete l l') ↔ CoveredAlong l steps :=
  complete_along_iff l steps l hl (le_refl _) (complete_self l)

/-- At 10000 s, a trade of the venue at 3000 s is stored. -/
def sampleLake : Lake :=
  ⟨storedAt [3000], Dict.empty, Dict.empty⟩

lemma sampleLake_timely : sampleLake.Timely :=
  ⟨storedAt_timely [3000], fun _ hpath => (nomatch hpath), fun _ hpath => (nomatch hpath)⟩

/-- A backfill of the trades from 3001 s to 9000 s. -/
def sampleBackfill : BackfillRequest where
  source := { sampleSource with
    fetchFunding := fun _ _ _ => .error .notImplemented
    fetchKlines := fun _ _ _ _ => .error .notImplemented }
  symbol := "BTC-USD"
  startNs := 3001 * nsPerSec
  endNs := 9000 * nsPerSec
  table := .trades

/-- It fetches one trade. -/
lemma eq_of_sampleBackfill_writes {l : Lake} {fails : Option ℕ} {r : PartRow}
    (h : (LineageStep.backfill sampleBackfill fails).Writes l r) :
    r = ⟨"trades", "BTC-USD", 5000 * nsPerSec⟩ := by
  have htimes : ∀ batch ∈ sampleBackfill.fetch.toOption,
      batch.dest = "trades" ∧ ∀ g ∈ batch.byDate, ∀ ts ∈ g.2.times, ts = 5000 * nsPerSec := by
    intro batch hbatch
    obtain rfl := Option.some.inj hbatch
    decide +kernel
  rcases h with ⟨batch, hbatch, g, hg, ts, hts, rfl⟩
  rcases htimes batch hbatch with ⟨hdest, hts'⟩
  rw [hdest, hts' g (mem_of_mem_upTo hg) ts hts]
  rfl

/-- A backfill, and a second one of the same window that fails after its file. -/
theorem lineage_complete_iff_retry :
    let run := [LineageStep.backfill sampleBackfill none,
      .backfill sampleBackfill (some 1)].scanl LineageStep.run sampleLake
    run.map (fun l => (l.rows.card, l.world.corrections.length)) = [(1, 0), (2, 1), (3, 1)] ∧
      ∀ l ∈ run, LineageComplete sampleLake l := by
  intro run
  refine ⟨by decide +kernel,
    (lineage_complete_iff _ sampleLake sampleLake_timely).2 ⟨?_, ?_, trivial⟩⟩
  · intro r hr
    obtain rfl := eq_of_sampleBackfill_writes hr
    exact Or.inr (by decide +kernel)
  · intro r hr
    obtain rfl := eq_of_sampleBackfill_writes hr
    exact Or.inl (by decide +kernel)

/-- Each job leaves a row that the log does not account for: a build that completes, a
reconciliation that completes, and a backfill that fails after its file. -/
theorem lineage_gaps :
    sampleLake.Timely ∧
      ∀ step ∈ [LineageStep.build Listing.plain {} "BTC-USD" "1970-01-01" none,
        .reconcile sampleSymbols sampleSource 120 none, .backfill sampleBackfill (some 1)],
        ¬ LineageComplete sampleLake (step.run sampleLake) := by
  refine ⟨sampleLake_timely, ?_⟩
  have hlog : ∀ r, ¬ LogCovers sampleLake.world.corrections r := by
    rintro r ⟨c, hc, _⟩
    cases hc
  have hgap : ∀ (step : LineageStep) (r : PartRow), step.Writes sampleLake r → ¬ step.Logs r →
      ¬ LineageComplete sampleLake (step.run sampleLake) := by
    intro step r hr hlogs hcomplete
    have hcovered := (complete_run_iff sampleLake_timely (le_refl _)
      (complete_self sampleLake) step).1 hcomplete
    exact (hcovered r hr).elim (hlog r) hlogs
  intro step hstep
  rcases List.mem_cons.1 hstep with rfl | hstep
  · refine hgap _ ⟨"bars_1s", "BTC-USD", 3000 * nsPerSec⟩ ?_ (by decide +kernel)
    have hread : ∃ e ∈ (collectTrades Listing.plain sampleLake.world.trades "BTC-USD"
        "1970-01-01").entries, ∃ t ∈ e.2,
          (⟨"bars_1s", "BTC-USD", 3000 * nsPerSec⟩ : PartRow) =
            ⟨"bars_1s", "BTC-USD", t.second⟩ := by
      decide +kernel
    exact hread
  rcases List.mem_cons.1 hstep with rfl | hstep
  · refine hgap _ ⟨"trades", "BTC-USD", 5000 * nsPerSec⟩ (Or.inl ?_) id
    decide +kernel
  · obtain rfl := List.mem_singleton.1 hstep
    refine hgap _ ⟨"trades", "BTC-USD", 5000 * nsPerSec⟩ ⟨_, rfl, ?_⟩ id
    decide +kernel

end CryptoData
