import CryptoData.Foundation.Timeline
import CryptoData.Query.AsOf
import CryptoData.Scripts.Rebuild
import CryptoData.Storage.CompactCrash

/-!
# BarsHistory — the bars tree over time

A build reads the clock for the stamp of its bars, computes them, reads the clock again for the name
of the file, and writes it; readers see the file some time later.  A compaction shows the merged
file first and then takes the originals away one by one.  `Timing` says when readers see what, and
`seenAt` what they see at an instant.

A read as of `t` goes by the stamps.  It reproduces the read that ran at `t` exactly if `t` is not
between the stamp of a build and the appearance of its file, and not in the middle of a compaction
(`asof_reproduces_iff`).  The acts of a build in such a history are those of `buildFor`, up to the
row that it logs (`buildFor_eq_runActs`).
-/

namespace CryptoData

open Foundation

/-! ## The clock and the disk -/

/-- What the clock says, and the instant at which readers see the `j`-th change that is made after
the `i`-th reading. -/
structure Timing where
  clock : ℕ → Int
  seenNs : ℕ → ℕ → Int
  clock_le : ∀ i j, clock i ≤ seenNs i j
  mono : ∀ i j, seenNs i j ≤ seenNs i (j + 1)
  le_clock : ∀ i j, seenNs i j ≤ clock (i + 1)

/-- The bars of one file, as a function of the stamp that they all carry. -/
structure StampedBars where
  venue : String
  bars : Int → List Bar
  stamped : ∀ nowNs, ∀ b ∈ bars nowNs, b.ingestedAtNs = some nowNs

/-- `bars_from_trades(trades, symbol=symbol, venue=venue)`. -/
def barsOfVenue (symbol : String) (e : String × List Trade) : StampedBars where
  venue := e.1
  bars := fun nowNs => barsFromTrades symbol e.1 nowNs e.2
  stamped := fun nowNs => stamp_of_mem_barsFromTrades symbol e.1 nowNs e.2

/-- `build_agg_bars(merge_trades(spot_trades), ...)`. -/
def barsOfTape (cfg : AggConfig) (symbol : String) (perVenueTrades : Dict String (List Trade)) :
    StampedBars where
  venue := "agg"
  bars := fun nowNs => (consolidate cfg symbol nowNs perVenueTrades).elim [] Tape.aggBars
  stamped := by
    intro nowNs b hb
    rcases consolidate_spec cfg symbol nowNs perVenueTrades with ⟨tape, hrun, hbars, _⟩
    rw [hrun, Option.elim_some, hbars] at hb
    exact stamp_of_mem_buildAggBars hb

/-! ## Histories -/

/-- What happens to the bars tree, one file or one directory at a time; `trades` is any change of
the raw trades. -/
inductive BarsAct
  | publish (symbol date : String) (stamped : StampedBars)
  | log
  | compact (partition : Partition)
  | trades (files : Store Trade)

def runAct (w : World) : BarsAct → World
  | .publish symbol date stamped =>
      let bars := stamped.bars w.now
      if bars.isEmpty then w.tock else w.tock.writeBars bars symbol stamped.venue date
  -- The correction takes a clock reading and leaves the trees alone.
  | .log => w.tock
  | .compact partition => w.compactBars partition
  | .trades files => { w with trades := files }

/-- The changes that readers see. -/
def actFrames (timing : Timing) (w : World) : BarsAct → List (Frame Int (Store Bar))
  | .publish symbol date stamped =>
      if (stamped.bars w.now).isEmpty then []
      else [⟨timing.seenNs (w.tick + 1) 0, (runAct w (.publish symbol date stamped)).bars⟩]
  | .compact partition =>
      passage (timing.seenNs w.tick) (compactPrefix w.bars partition w.now) 0
        (compactOps w.bars partition w.now).length
  | _ => []

def runActs (w : World) (acts : List BarsAct) : World :=
  acts.foldl runAct w

def framesOf (timing : Timing) : World → List BarsAct → List (Frame Int (Store Bar))
  | _, [] => []
  | w, act :: acts => actFrames timing w act ++ framesOf timing (runAct w act) acts

/-- `build_for(symbol, date)` as acts. -/
def buildActs (fs : Listing) (cfg : AggConfig) (symbol date : String) (s : Store Trade) :
    List BarsAct :=
  let perVenueTrades := collectTrades fs s symbol date
  if perVenueTrades.entries.isEmpty then
    []
  else
    (perVenueTrades.entries.map fun e => .publish symbol date (barsOfVenue symbol e)) ++
      (if (spotTrades perVenueTrades).entries.isEmpty then []
        else [.publish symbol date (barsOfTape cfg symbol perVenueTrades)]) ++ [.log]

inductive HistoryStep
  | build (fs : Listing) (cfg : AggConfig) (symbol date : String)
  | compactBars (partition : Partition)
  | trades (files : Store Trade)

def HistoryStep.acts (w : World) : HistoryStep → List BarsAct
  | .build fs cfg symbol date => buildActs fs cfg symbol date w.trades
  | .compactBars partition => [.compact partition]
  | .trades files => [.trades files]

/-- A history as acts; what a build reads depends on what came before. -/
def historyActs : List HistoryStep → World → List BarsAct
  | [], _ => []
  | step :: history, w => step.acts w ++ historyActs history (runActs w (step.acts w))

/-- Before the first build. -/
def startWorld (timing : Timing) (trades : Store Trade) : World :=
  ⟨timing.clock, 0, trades, Dict.empty, []⟩

/-! ## The acts of a build -/

section Build

variable {symbol date : String}

lemma runAct_barsOfVenue (w : World) (n : ℕ) (e : String × List Trade) :
    (buildVenue symbol date (w, n) e).1 = runAct w (.publish symbol date (barsOfVenue symbol e)) :=
  apply_ite Prod.fst _ _ _

lemma runActs_barsOfVenue (symbol date : String) :
    ∀ (entries : List (String × List Trade)) (acc : World × ℕ),
      (entries.foldl (buildVenue symbol date) acc).1 =
        runActs acc.1 (entries.map fun e => .publish symbol date (barsOfVenue symbol e))
  | [], _ => rfl
  | e :: entries, acc => by
      rw [List.foldl_cons, runActs_barsOfVenue symbol date entries,
        runAct_barsOfVenue acc.1 acc.2 e]
      rfl

/-- The agg half of a build publishes the tape, if there are spot trades. -/
lemma buildAgg_eq_runActs {cfg : AggConfig} {perVenueTrades : Dict String (List Trade)}
    {w : World} {agg : World × BuildDiagnostics}
    (h : buildAgg cfg symbol date perVenueTrades w = some agg) :
    agg.1 = runActs w (if (spotTrades perVenueTrades).entries.isEmpty then []
      else [.publish symbol date (barsOfTape cfg symbol perVenueTrades)]) := by
  cases hempty : (spotTrades perVenueTrades).entries.isEmpty with
  | true =>
      simp only [buildAgg, hempty, if_true, Option.some.injEq] at h
      rw [← h]
      rfl
  | false =>
      simp only [buildAgg, hempty, Bool.false_eq_true, if_false] at h
      rcases Option.bind_eq_some_iff.1 h with ⟨tape, hrun, hout⟩
      rw [← Option.some.inj hout]
      simp only [Bool.false_eq_true, if_false, runActs, List.foldl_cons, List.foldl_nil, runAct,
        writeTape, barsOfTape, hrun, Option.elim_some]

/-- A successful log takes one reading and leaves the trees alone. -/
lemma logBuild_eq {n : ℕ} {diagnostics : BuildDiagnostics} {w w' : World}
    (h : logBuild symbol date n diagnostics w = some w') :
    w' = { w.tock with corrections := w'.corrections } := by
  have hkind : "backfill" ∈ correctionKinds := by decide
  have hseverity : "info" ∈ correctionSeverities := by decide
  simp only [logBuild, World.recordCorrection, hkind, hseverity, not_true_eq_false, if_false] at h
  split_ifs at h with hdup
  · cases h
  · rw [← Option.some.inj h]
    rfl

/-- Up to the row it logs, a build is its acts. -/
theorem buildFor_eq_runActs {fs : Listing} {cfg : AggConfig} {w w' : World}
    {report : BuildReport} (h : buildFor fs cfg symbol date w = some (w', report)) :
    w' = { runActs w (buildActs fs cfg symbol date w.trades) with
      corrections := w'.corrections } := by
  cases hempty : (collectTrades fs w.trades symbol date).entries.isEmpty with
  | true =>
      simp only [buildFor, hempty, if_true, Option.some.injEq, Prod.mk.injEq] at h
      simp only [buildActs, hempty, if_true]
      rw [← h.1]
      rfl
  | false =>
      simp only [buildFor, hempty, Bool.false_eq_true, if_false] at h
      rcases Option.bind_eq_some_iff.1 h with ⟨agg, hagg, hrest⟩
      rcases Option.bind_eq_some_iff.1 hrest with ⟨logged, hlog, hout⟩
      have hlogged : logged = w' := congrArg Prod.fst (Option.some.inj hout)
      subst hlogged
      have hvenues := runActs_barsOfVenue symbol date
        (collectTrades fs w.trades symbol date).entries (w, 0)
      have hacts : runActs w (buildActs fs cfg symbol date w.trades) = agg.1.tock := by
        simp only [buildActs, hempty, Bool.false_eq_true, if_false]
        rw [runActs, List.foldl_append, List.foldl_append]
        rw [buildAgg_eq_runActs hagg, hvenues]
        rfl
      rw [hacts]
      exact logBuild_eq hlog

end Build

/-! ## The conditions -/

/-- The act writes under a new name, if it writes. -/
def NewName (w : World) : BarsAct → Prop
  | .publish symbol date stamped => stamped.bars w.now ≠ [] →
      ⟨⟨"bars_1s", symbol, stamped.venue, date⟩, .part w.tock.now⟩ ∉ w.bars.keys
  | .compact partition => ⟨partition, .compacted w.now⟩ ∉ w.bars.keys
  | _ => True

/-- The instant is not between the stamp of a file and its appearance, and not in the middle of a
compaction, where some of the originals that are left hold rows. -/
def Steady (timing : Timing) (t : Int) (w : World) : BarsAct → Prop
  | .publish _ _ stamped => stamped.bars w.now ≠ [] →
      ¬ (w.now ≤ t ∧ t < timing.seenNs (w.tick + 1) 0)
  | .compact partition =>
      let files := w.bars.sortedNames partition PartName.isPart
      1 < files.length → ∀ k, timing.seenNs w.tick k ≤ t → t < timing.seenNs w.tick (k + 1) →
        w.bars.readNames partition (files.drop k) = []
  | _ => True

/-- Every act of the run meets the condition in the world it is taken in. -/
def Along (p : World → BarsAct → Prop) : World → List BarsAct → Prop
  | _, [] => True
  | w, act :: acts => p w act ∧ Along p (runAct w act) acts

/-! ## One act -/

/-- What an act does: the rows it adds, and what is seen meanwhile.  `lag` are rows that are
stamped but not seen, `surplus` rows that are seen twice. -/
structure ActSpec (timing : Timing) (w : World) (act : BarsAct) (added : Multiset Bar) : Prop where
  clock : (runAct w act).clock = w.clock
  now_le : w.now ≤ (runAct w act).now
  rows : ((runAct w act).bars.allRows : Multiset Bar) = w.bars.allRows + added
  stamped : ∀ b ∈ added, b.ingestedAtNs = some w.now
  frames_ge : ∀ f ∈ actFrames timing w act, w.now ≤ f.since
  frames_le : ∀ f ∈ actFrames timing w act, f.since ≤ (runAct w act).now
  ends : endState w.bars (actFrames timing w act) = (runAct w act).bars
  seen : ∀ t, ∃ lag surplus : Multiset Bar,
    ((seenAt w.bars (actFrames timing w act) t).allRows : Multiset Bar) + lag =
      w.bars.allRows + added.filter (fun b => stampedBy t b = true) + surplus ∧
    (lag = 0 ∨ surplus = 0) ∧ (lag = 0 ∧ surplus = 0 ↔ Steady timing t w act)

section Act

variable {timing : Timing} {w : World}

lemma clock_mono (timing : Timing) (i : ℕ) : timing.clock i ≤ timing.clock (i + 1) :=
  le_trans (timing.clock_le i 0) (timing.le_clock i 0)

lemma seenNs_mono (timing : Timing) (i : ℕ) {j k : ℕ} (h : j ≤ k) :
    timing.seenNs i j ≤ timing.seenNs i k :=
  monotone_nat_of_le_succ (timing.mono i) h

/-- An act that leaves the bars alone. -/
lemma ActSpec.quiet {act : BarsAct} (hclock : (runAct w act).clock = w.clock)
    (hnow : w.now ≤ (runAct w act).now) (hbars : (runAct w act).bars = w.bars)
    (hframes : actFrames timing w act = []) (hsteady : ∀ t, Steady timing t w act) :
    ActSpec timing w act 0 where
  clock := hclock
  now_le := hnow
  rows := by rw [hbars, add_zero]
  stamped := fun b hb => absurd hb (Multiset.notMem_zero b)
  frames_ge := by simp [hframes]
  frames_le := by simp [hframes]
  ends := by rw [hframes, hbars, endState]
  seen := by
    intro t
    refine ⟨0, 0, ?_, Or.inl rfl, iff_of_true ⟨rfl, rfl⟩ (hsteady t)⟩
    rw [hframes, Multiset.filter_zero, add_zero, add_zero, add_zero, seenAt]

/-- Rows of one stamp are selected together. -/
lemma filter_stampedBy {rows : Multiset Bar} {nowNs : Int}
    (h : ∀ b ∈ rows, b.ingestedAtNs = some nowNs) (t : Int) :
    rows.filter (fun b => stampedBy t b = true) = if nowNs ≤ t then rows else 0 := by
  by_cases hstamp : nowNs ≤ t
  · rw [if_pos hstamp]
    refine Multiset.filter_eq_self.2 ?_
    intro b hb
    simp [stampedBy, h b hb, hstamp]
  · rw [if_neg hstamp]
    refine Multiset.filter_eq_nil.2 ?_
    intro b hb
    simp [stampedBy, h b hb, hstamp]

/-- The rows of a new file lag from their stamp to its appearance. -/
lemma publish_seen {rows : List Bar} {nowNs seenNs : Int} {s s' : Store Bar} (hne : rows ≠ [])
    (hstamped : ∀ b ∈ (rows : Multiset Bar), b.ingestedAtNs = some nowNs)
    (hrows : s'.allRows = s.allRows ++ rows) (hle : nowNs ≤ seenNs) (t : Int) :
    ∃ lag surplus : Multiset Bar,
      ((seenAt s [⟨seenNs, s'⟩] t).allRows : Multiset Bar) + lag =
        s.allRows + (rows : Multiset Bar).filter (fun b => stampedBy t b = true) + surplus ∧
      (lag = 0 ∨ surplus = 0) ∧ (lag = 0 ∧ surplus = 0 ↔ ¬ (nowNs ≤ t ∧ t < seenNs)) := by
  rw [filter_stampedBy hstamped t]
  by_cases hseen : seenNs ≤ t
  · have hstamp : nowNs ≤ t := hle.trans hseen
    refine ⟨0, 0, ?_, Or.inl rfl, iff_of_true ⟨rfl, rfl⟩ ?_⟩
    · simp only [seenAt, hseen, if_true, hstamp, hrows, Multiset.coe_add, add_zero]
    · intro hgap
      exact absurd hseen (not_le.2 hgap.2)
  · by_cases hstamp : nowNs ≤ t
    -- Stamped and not there yet: the rows lag.
    · refine ⟨(rows : Multiset Bar), 0, ?_, Or.inr rfl, iff_of_false ?_ ?_⟩
      · simp only [seenAt, hseen, if_false, hstamp, if_true, add_zero]
      · intro hzero
        exact hne ((Multiset.coe_eq_zero _).1 hzero.1)
      · intro hsteady
        exact hsteady ⟨hstamp, not_le.1 hseen⟩
    · refine ⟨0, 0, ?_, Or.inl rfl, iff_of_true ⟨rfl, rfl⟩ ?_⟩
      · simp only [seenAt, hseen, if_false, hstamp, add_zero]
      · intro hgap
        exact hstamp hgap.1

/-- A publication adds its rows; they lag from their stamp to the appearance of the file. -/
lemma publish_spec (hclock : w.clock = timing.clock) {symbol date : String}
    {stamped : StampedBars} (hnew : NewName w (.publish symbol date stamped)) :
    ActSpec timing w (.publish symbol date stamped) (stamped.bars w.now : Multiset Bar) := by
  have hnow : w.now = timing.clock w.tick := congrFun hclock w.tick
  have hstep := clock_mono timing w.tick
  cases hempty : (stamped.bars w.now).isEmpty with
  | true =>
      have hnil := List.isEmpty_iff.1 hempty
      have hrun : runAct w (.publish symbol date stamped) = w.tock := by
        simp only [runAct, hempty, if_true]
      rw [hnil, Multiset.coe_nil]
      refine ActSpec.quiet (by rw [hrun]; rfl) ?_ (by rw [hrun]; rfl) ?_ ?_
      · rw [hrun, World.now, World.now, World.tock, hclock]
        exact hstep
      · simp only [actFrames, hempty, if_true]
      · intro t hne
        exact absurd hnil hne
  | false =>
      have hne : stamped.bars w.now ≠ [] := by
        intro hnil
        rw [hnil] at hempty
        cases hempty
      let w' := w.tock.writeBars (stamped.bars w.now) symbol stamped.venue date
      have hrun : runAct w (.publish symbol date stamped) = w' := by
        simp only [runAct, hempty, Bool.false_eq_true, if_false]
        rfl
      have hframes : actFrames timing w (.publish symbol date stamped) =
          [⟨timing.seenNs (w.tick + 1) 0, w'.bars⟩] := by
        simp only [actFrames, hempty, Bool.false_eq_true, if_false, hrun]
      have hnow' : w'.now = timing.clock (w.tick + 1 + 1) := congrFun hclock _
      have hafter := timing.clock_le (w.tick + 1) 0
      have hbefore := timing.le_clock (w.tick + 1) 0
      have hrows : w'.bars.allRows = w.bars.allRows ++ stamped.bars w.now :=
        Store.allRows_write (hnew hne) _
      have hstamped : ∀ b ∈ (stamped.bars w.now : Multiset Bar), b.ingestedAtNs = some w.now :=
        fun b hb => stamped.stamped w.now b (Multiset.mem_coe.1 hb)
      refine ⟨by rw [hrun]; rfl, ?_, ?_, hstamped, ?_, ?_, ?_, ?_⟩
      · rw [hrun, hnow, hnow']
        exact hstep.trans (hafter.trans hbefore)
      · rw [hrun, hrows, Multiset.coe_add]
      · intro f hf
        rw [hframes, List.mem_singleton] at hf
        rw [hf, hnow]
        exact hstep.trans hafter
      · intro f hf
        rw [hframes, List.mem_singleton] at hf
        rw [hf, hrun, hnow']
        exact hbefore
      · rw [hframes, hrun, endState, endState]
      · intro t
        rcases publish_seen hne hstamped hrows (hnow.trans_le (hstep.trans hafter)) t with
          ⟨lag, surplus, hseen, hzero, hgap⟩
        refine ⟨lag, surplus, ?_, hzero, hgap.trans ⟨fun hsteady _ => hsteady, fun hsteady =>
          hsteady hne⟩⟩
        rw [hframes]
        exact hseen

/-- Once the merged file is there, the originals that are left are read twice. -/
lemma allRows_compactPrefix {s : Store Bar} {partition : Partition} {now : Int}
    (hfresh : ⟨partition, .compacted now⟩ ∉ s.keys)
    (hmany : ¬ (s.sortedNames partition PartName.isPart).length ≤ 1) (k : ℕ) :
    ((compactPrefix s partition now (k + 1)).allRows : Multiset Bar) =
      s.allRows + (s.readNames partition
        ((s.sortedNames partition PartName.isPart).drop k) : Multiset Bar) := by
  rw [Store.coe_allRows, located_compactPrefix hfresh hmany, Multiset.map_add, ← Store.coe_allRows]
  simp [inDir, Function.comp_def]

/-- The frames of a compaction lie between its reading of the clock and the next one. -/
lemma since_mem_passage {i j n : ℕ} {state : ℕ → Store Bar} {f : Frame Int (Store Bar)}
    (hf : f ∈ passage (timing.seenNs i) state j n) :
    timing.clock i ≤ f.since ∧ f.since ≤ timing.clock (i + 1) := by
  rcases List.mem_map.1 hf with ⟨k, _, rfl⟩
  exact ⟨timing.clock_le i k, timing.le_clock i k⟩

/-- In the middle of a compaction the surplus is what the originals that are left hold. -/
lemma compact_seen (timing : Timing) {partition : Partition}
    (hnew : ⟨partition, .compacted w.now⟩ ∉ w.bars.keys)
    (hmany : ¬ (w.bars.sortedNames partition PartName.isPart).length ≤ 1) (t : Int) :
    ∃ surplus : Multiset Bar,
      ((seenAt w.bars (actFrames timing w (.compact partition)) t).allRows : Multiset Bar) =
        w.bars.allRows + surplus ∧
      (surplus = 0 ↔ Steady timing t w (.compact partition)) := by
  let files := w.bars.sortedNames partition PartName.isPart
  have hlength : (compactOps w.bars partition w.now).length = files.length + 1 := by
    simp only [compactOps, hmany, if_false, List.length_cons, List.length_map]
    rfl
  rcases seenAt_passage (timing.seenNs w.tick)
    (compactPrefix w.bars partition w.now) t (files.length + 1) 0 with
    ⟨k, _, hk, hseen, hleft, hstays⟩
  have hstart : compactPrefix w.bars partition w.now 0 = w.bars := rfl
  rw [hstart] at hseen
  rw [actFrames, hlength, hseen]
  cases k with
  | zero =>
      refine ⟨0, by rw [hstart, add_zero], iff_of_true rfl ?_⟩
      -- Nothing has been seen of the compaction yet.
      intro _ k hle _
      have hlt := lt_of_lt_of_le (hstays (by omega)) (seenNs_mono timing w.tick (Nat.zero_le k))
      exact absurd hle (not_le.2 hlt)
  | succ j =>
      refine ⟨(w.bars.readNames partition (files.drop j) : Multiset Bar),
        allRows_compactPrefix hnew hmany j, ?_⟩
      rw [Multiset.coe_eq_zero]
      have hj : timing.seenNs w.tick j ≤ t := hleft j (Nat.zero_le j) (Nat.lt_succ_self j)
      constructor
      · intro hnone _ k hle hlt
        have hjk : j ≤ k := by
          by_contra hkj
          exact absurd (seenNs_mono timing w.tick (not_le.1 hkj)) (not_le.2 (lt_of_le_of_lt hj hlt))
        rcases Nat.eq_or_lt_of_le hjk with rfl | hgt
        · exact hnone
        -- The state has been left by then, so it was the last one.
        · by_cases hlast : j + 1 < 0 + (files.length + 1)
          · have hmono := seenNs_mono timing w.tick hgt
            exact absurd (hmono.trans hle) (not_le.2 (hstays hlast))
          · have hdrop : files.drop k = [] := List.drop_eq_nil_of_le (by omega)
            have hfiles : (w.bars.sortedNames partition PartName.isPart).drop k = [] := hdrop
            rw [hfiles]
            rfl
      · intro hsteady
        by_cases hlast : j + 1 < 0 + (files.length + 1)
        · exact hsteady (not_le.1 hmany) j hj (hstays hlast)
        · have hdrop : files.drop j = [] := List.drop_eq_nil_of_le (by omega)
          rw [hdrop]
          rfl

/-- A compaction adds nothing. -/
lemma compact_spec (hclock : w.clock = timing.clock) {partition : Partition}
    (hnew : NewName w (.compact partition)) : ActSpec timing w (.compact partition) 0 := by
  have hnow : w.now = timing.clock w.tick := congrFun hclock w.tick
  by_cases hfew : (w.bars.sortedNames partition PartName.isPart).length ≤ 1
  · have hrun : runAct w (.compact partition) = w := by
      simp only [runAct, World.compactBars, compactPartition, hfew, if_true]
    have hframes : actFrames timing w (.compact partition) = [] := by
      simp only [actFrames, compactOps, hfew, if_true]
      rfl
    refine ActSpec.quiet (by rw [hrun]) (by rw [hrun]) (by rw [hrun]) hframes ?_
    intro t hmany
    exact absurd hfew (not_le.2 hmany)
  · have hwork : (compactPartition w.bars partition w.now).2 ≠ 0 := by
      simp only [compactPartition, hfew, if_false]
      omega
    have hrun : runAct w (.compact partition) =
        { w.tock with bars := (compactPartition w.bars partition w.now).1 } := by
      simp only [runAct, World.compactBars, hwork, if_false]
    have hnow' : (runAct w (.compact partition)).now = timing.clock (w.tick + 1) := by
      rw [hrun]
      exact congrFun hclock _
    refine ⟨by rw [hrun]; rfl, ?_, ?_, fun b hb => absurd hb (Multiset.notMem_zero b), ?_, ?_, ?_,
      ?_⟩
    · rw [hnow', hnow]
      exact clock_mono timing w.tick
    · rw [hrun, add_zero]
      exact Multiset.coe_eq_coe.2 (compactPartition_allRows_perm hnew)
    · intro f hf
      rw [hnow]
      exact (since_mem_passage hf).1
    · intro f hf
      rw [hnow']
      exact (since_mem_passage hf).2
    · have hends := endState_passage (timing.seenNs w.tick)
        (compactPrefix w.bars partition w.now)
        (compactOps w.bars partition w.now).length 0
      rw [Nat.zero_add, compactPrefix_all] at hends
      rw [hrun]
      exact hends
    · intro t
      rcases compact_seen timing hnew hfew t with ⟨surplus, hrows, hsteady⟩
      refine ⟨0, surplus, ?_, Or.inl rfl, ?_⟩
      · rw [Multiset.filter_zero, add_zero, add_zero, hrows]
      · rw [← hsteady]
        simp

/-- Every act, with the rows it adds. -/
theorem act_spec (hclock : w.clock = timing.clock) {act : BarsAct} (hnew : NewName w act) :
    ∃ added, ActSpec timing w act added := by
  cases act with
  | publish symbol date stamped => exact ⟨_, publish_spec hclock hnew⟩
  | compact partition => exact ⟨0, compact_spec hclock hnew⟩
  | log =>
      refine ⟨0, ActSpec.quiet rfl ?_ rfl rfl fun _ => trivial⟩
      rw [runAct, World.now, World.now, World.tock, hclock]
      exact clock_mono timing w.tick
  | trades files => exact ⟨0, ActSpec.quiet rfl (le_refl _) rfl rfl fun _ => trivial⟩

/-- Before the act nothing lags. -/
lemma ActSpec.steady_of_lt {act : BarsAct} {added : Multiset Bar}
    (h : ActSpec timing w act added) {t : Int} (ht : t < w.now) : Steady timing t w act := by
  rcases h.seen t with ⟨lag, surplus, hrows, hzero, hsteady⟩
  rw [seenAt_of_lt w.bars fun f hf => lt_of_lt_of_le ht (h.frames_ge f hf),
    filter_stampedBy h.stamped, if_neg (not_le.2 ht), add_zero, add_right_inj] at hrows
  rw [← hsteady, hrows, and_self]
  rwa [hrows, or_self] at hzero

/-- After the act everything is there. -/
lemma ActSpec.steady_of_le {act : BarsAct} {added : Multiset Bar}
    (h : ActSpec timing w act added) {t : Int} (ht : (runAct w act).now ≤ t) :
    Steady timing t w act := by
  rcases h.seen t with ⟨lag, surplus, hrows, hzero, hsteady⟩
  have hends := seenAt_append_of_le [] (actFrames timing w act) w.bars
    fun f hf => le_trans (h.frames_le f hf) ht
  rw [List.append_nil, seenAt, h.ends] at hends
  rw [hends, h.rows, filter_stampedBy h.stamped, if_pos (h.now_le.trans ht), add_right_inj]
    at hrows
  rw [← hsteady, hrows, and_self]
  rwa [hrows, or_self] at hzero

end Act

/-! ## Whole runs -/

/-- What a run does, from any world. -/
structure RunSpec (timing : Timing) (w : World) (acts : List BarsAct) (added : Multiset Bar) :
    Prop where
  rows : ((runActs w acts).bars.allRows : Multiset Bar) = w.bars.allRows + added
  stamped : ∀ b ∈ added, ∃ nowNs, b.ingestedAtNs = some nowNs ∧ w.now ≤ nowNs
  frames_ge : ∀ f ∈ framesOf timing w acts, w.now ≤ f.since
  steady : ∀ t, t < w.now → Along (Steady timing t) w acts
  seen : ∀ t, ∃ lag surplus : Multiset Bar,
    ((seenAt w.bars (framesOf timing w acts) t).allRows : Multiset Bar) + lag =
      w.bars.allRows + added.filter (fun b => stampedBy t b = true) + surplus ∧
    (lag = 0 ∨ surplus = 0) ∧ (lag = 0 ∧ surplus = 0 ↔ Along (Steady timing t) w acts)

section Run

variable {timing : Timing}

/-- One act in front of a run: an instant lies in the act or in the rest. -/
lemma RunSpec.cons {w : World} {act : BarsAct} {acts : List BarsAct} {first rest : Multiset Bar}
    (hact : ActSpec timing w act first) (hrest : RunSpec timing (runAct w act) acts rest) :
    RunSpec timing w (act :: acts) (first + rest) where
  rows := by
    have hrows := hrest.rows
    rw [hact.rows, add_assoc] at hrows
    exact hrows
  stamped := by
    intro b hb
    rcases Multiset.mem_add.1 hb with hb | hb
    · exact ⟨w.now, hact.stamped b hb, le_refl _⟩
    · rcases hrest.stamped b hb with ⟨nowNs, hstamp, hle⟩
      exact ⟨nowNs, hstamp, hact.now_le.trans hle⟩
  frames_ge := by
    intro f hf
    rcases List.mem_append.1 hf with hf | hf
    · exact hact.frames_ge f hf
    · exact hact.now_le.trans (hrest.frames_ge f hf)
  steady := fun t ht => ⟨hact.steady_of_lt ht, hrest.steady t (lt_of_lt_of_le ht hact.now_le)⟩
  seen := by
    intro t
    by_cases ht : (runAct w act).now ≤ t
    · rcases hrest.seen t with ⟨lag, surplus, hrows, hzero, hsteady⟩
      refine ⟨lag, surplus, ?_, hzero, ?_⟩
      · have hseen := seenAt_append_of_le (framesOf timing (runAct w act) acts)
          (actFrames timing w act) w.bars fun f hf => le_trans (hact.frames_le f hf) ht
        rw [framesOf, hseen, hact.ends, hrows, hact.rows, Multiset.filter_add,
          filter_stampedBy hact.stamped, if_pos (hact.now_le.trans ht), add_assoc]
        simp only [add_assoc]
      · rw [hsteady]
        exact ⟨fun h => ⟨hact.steady_of_le ht, h⟩, fun h => h.2⟩
    · rcases hact.seen t with ⟨lag, surplus, hrows, hzero, hsteady⟩
      have hlt : t < (runAct w act).now := not_le.1 ht
      refine ⟨lag, surplus, ?_, hzero, ?_⟩
      · have hnone : rest.filter (fun b => stampedBy t b = true) = 0 := by
          refine Multiset.filter_eq_nil.2 ?_
          intro b hb
          rcases hrest.stamped b hb with ⟨nowNs, hstamp, hle⟩
          simp [stampedBy, hstamp, lt_of_lt_of_le hlt hle]
        rw [framesOf, seenAt_append_of_lt
          (fun f hf => lt_of_lt_of_le hlt (hrest.frames_ge f hf)), hrows, Multiset.filter_add,
          hnone, add_zero]
      · rw [hsteady]
        exact ⟨fun h => ⟨h, hrest.steady t hlt⟩, fun h => h.1⟩

theorem runActs_spec (timing : Timing) :
    ∀ (acts : List BarsAct) {w : World}, w.clock = timing.clock → Along NewName w acts →
      ∃ added, RunSpec timing w acts added
  | [], w, _, _ => by
      refine ⟨0, by simp [runActs], fun b hb => absurd hb (Multiset.notMem_zero b), ?_, ?_, ?_⟩
      · intro f hf
        cases hf
      · intro t _
        exact trivial
      · intro t
        refine ⟨0, 0, ?_, Or.inl rfl, iff_of_true ⟨rfl, rfl⟩ trivial⟩
        rw [framesOf, seenAt, Multiset.filter_zero, add_zero, add_zero]
  | act :: acts, w, hclock, hnew => by
      rcases act_spec hclock hnew.1 with ⟨first, hact⟩
      rcases runActs_spec timing acts (hact.clock.trans hclock) hnew.2 with ⟨rest, hrest⟩
      exact ⟨first + rest, RunSpec.cons hact hrest⟩

/-- The names in the bars tree carry earlier readings. -/
def Named (w : World) : Prop :=
  ∀ path ∈ w.bars.keys, path.name.suffix < w.now

lemma Named.runAct {w : World} (hincreasing : ∀ i, w.clock i < w.clock (i + 1)) (h : Named w)
    (act : BarsAct) : (runAct w act).clock = w.clock ∧ Named (runAct w act) := by
  have htock : Named w.tock := fun path hpath => lt_trans (h path hpath) (hincreasing w.tick)
  cases act with
  | log => exact ⟨rfl, htock⟩
  | trades files => exact ⟨rfl, h⟩
  | publish symbol date stamped =>
      cases hempty : (stamped.bars w.now).isEmpty with
      | true =>
          simp only [CryptoData.runAct, hempty, if_true]
          exact ⟨rfl, htock⟩
      | false =>
          simp only [CryptoData.runAct, hempty, Bool.false_eq_true, if_false]
          refine ⟨rfl, ?_⟩
          intro path hpath
          rcases Dict.mem_keys_set.1 hpath with rfl | hold
          · exact hincreasing (w.tick + 1)
          · exact lt_trans (htock path hold) (hincreasing (w.tick + 1))
  | compact partition =>
      simp only [CryptoData.runAct, World.compactBars]
      split_ifs with hnone
      · exact ⟨rfl, h⟩
      · refine ⟨rfl, ?_⟩
        intro path hpath
        rcases mem_keys_compactPartition hpath with rfl | hold
        · exact hincreasing w.tick
        · exact htock path hold

/-- Distinct readings of the clock make new names. -/
theorem newNames_of_increasing :
    ∀ (acts : List BarsAct) {w : World}, (∀ i, w.clock i < w.clock (i + 1)) → Named w →
      Along NewName w acts
  | [], _, _, _ => trivial
  | act :: acts, w, hincreasing, h => by
      rcases h.runAct hincreasing act with ⟨hclock, hnamed⟩
      refine ⟨?_, newNames_of_increasing acts (by rw [hclock]; exact hincreasing) hnamed⟩
      cases act with
      | publish symbol date stamped =>
          intro _ hmem
          exact absurd (h _ hmem) (not_lt.2 (hincreasing w.tick).le)
      | compact partition =>
          intro hmem
          exact absurd (h _ hmem) (lt_irrefl _)
      | log => trivial
      | trades files => trivial

end Run

/-! ## Reads as of an instant -/

section AsOf

variable (timing : Timing) (trades : Store Trade) (history : List HistoryStep)

def historyWorld : World :=
  runActs (startWorld timing trades) (historyActs history (startWorld timing trades))

/-- The bars tree as readers saw it at the instant `t`. -/
def barsSeenAt (t : Int) : Store Bar :=
  seenAt Dict.empty (framesOf timing (startWorld timing trades)
    (historyActs history (startWorld timing trades))) t

end AsOf

/-- If no file is overwritten, reads of the final tree as of `t` return what reads at `t` returned,
for every query, exactly if no build was between a stamp and its file at `t` and no compaction had
begun to show and still held rows in its originals. -/
theorem asof_reproduces_iff (timing : Timing) (trades : Store Trade) (history : List HistoryStep)
    (hnew : Along NewName (startWorld timing trades)
      (historyActs history (startWorld timing trades))) (t : Int) :
    (∀ symbol startNs endNs timeframe sources,
      results (historyWorld timing trades history).bars symbol startNs endNs timeframe sources
          (some t) =
        results (barsSeenAt timing trades history t) symbol startNs endNs timeframe sources none) ↔
      Along (Steady timing t) (startWorld timing trades)
        (historyActs history (startWorld timing trades)) := by
  rcases runActs_spec timing (historyActs history (startWorld timing trades)) rfl hnew
    with ⟨added, hrun⟩
  rcases hrun.seen t with ⟨lag, surplus, hrows, hzero, hsteady⟩
  have hstart : ((startWorld timing trades).bars.allRows : Multiset Bar) = 0 := rfl
  have hfinal := hrun.rows
  rw [hstart, zero_add] at hrows hfinal
  rw [← hfinal] at hrows
  rw [← hsteady]
  exact results_eq_iff sampleEngine hrows hzero

/-- A clock that advances by ten, and files that appear five after a reading. -/
def sampleTiming : Timing where
  clock := fun i => 1000 + 10 * i
  seenNs := fun i _ => 1005 + 10 * i
  clock_le := by
    intro i _
    omega
  mono := fun i _ => le_refl _
  le_clock := by
    intro i _
    omega

theorem asof_reproduces_iff_sample :
    (∀ symbol startNs endNs timeframe sources,
      results (historyWorld sampleTiming sampleWorld.trades
          [.build sampleListing {} "BTC-USD" "1970-01-01"]).bars symbol startNs endNs timeframe
          sources (some 5000) =
        results (barsSeenAt sampleTiming sampleWorld.trades
          [.build sampleListing {} "BTC-USD" "1970-01-01"] 5000) symbol startNs endNs timeframe
          sources none) ↔
      Along (Steady sampleTiming 5000) (startWorld sampleTiming sampleWorld.trades)
        (historyActs [.build sampleListing {} "BTC-USD" "1970-01-01"]
          (startWorld sampleTiming sampleWorld.trades)) := by
  refine asof_reproduces_iff sampleTiming sampleWorld.trades
    [.build sampleListing {} "BTC-USD" "1970-01-01"] ?_ 5000
  refine newNames_of_increasing _ ?_ ?_
  · intro i
    simp only [startWorld, sampleTiming]
    omega
  · intro path hpath
    cases hpath

/-- A trade is built into a bar that is stamped 1000 and appears at 1015: as of 1000 the bar is
there, and nobody who looked at 1000 has seen it. -/
theorem asof_sees_unpublished :
    ¬ ∀ (timing : Timing) (trades : Store Trade) (history : List HistoryStep) (t : Int),
      t ≤ (historyWorld timing trades history).now →
      ∀ symbol startNs endNs timeframe sources,
        results (historyWorld timing trades history).bars symbol startNs endNs timeframe sources
            (some t) =
          results (barsSeenAt timing trades history t) symbol startNs endNs timeframe sources
            none := by
  intro h
  have hsame := h sampleTiming sampleWorld.trades [.build sampleListing {} "BTC-USD" "1970-01-01"]
    1000 (by decide +kernel) "BTC-USD" 0 1000000000 .oneSecond ["kraken"]
  have hmem : getBars sampleEngine (historyWorld sampleTiming sampleWorld.trades
      [.build sampleListing {} "BTC-USD" "1970-01-01"]).bars "BTC-USD" 0 1000000000 .oneSecond
      ["kraken"] (some 1000) ∈ results (barsSeenAt sampleTiming sampleWorld.trades
        [.build sampleListing {} "BTC-USD" "1970-01-01"] 1000) "BTC-USD" 0 1000000000 .oneSecond
        ["kraken"] none := by
    rw [← hsame]
    exact ⟨sampleEngine, rfl⟩
  rcases hmem with ⟨engine, hout⟩
  have hlength := congrArg List.length hout
  rw [length_getBars_oneSecond, length_getBars_oneSecond] at hlength
  revert hlength
  decide +kernel

end CryptoData
