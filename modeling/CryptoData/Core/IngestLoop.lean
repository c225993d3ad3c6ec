import CryptoData.Core.Worker
import CryptoData.Storage.FlushAll
import Mathlib.Algebra.BigOperators.Group.Finset.Piecewise
import Mathlib.Data.Fintype.Basic

/-!
# IngestLoop — the workers, the flusher and the shutdown on one event loop

Between two `await`s a task of the ingest process runs without interruption: a worker hands over a
row, or the task of `AsyncWriter.run` wakes up and flushes.  The shutdown sets the stop event and
cancels all tasks at once, so a worker hands over nothing from then on, and the last thing the
writer does is a flush.

After the shutdown the files hold what the streams of all workers have delivered, however the tasks
were interleaved, exactly if no flush has failed (`shutdown_stores_delivered_iff`).  If the process
dies in between, it loses no row that it got before the last regular flush, and fewer than
`batch_rows` of any hour of a feed (`crash_loses_only_latest`).
-/

namespace CryptoData

open Foundation

variable {ρ : Type} [Row ρ] {ι : Type}

/-! ## The algorithm -/

/-- The writer, whether its stop event is set, and whether its task is over. -/
structure AsyncWriter (ρ : Type) where
  writer : WriterRun ρ
  stopped : Bool
  ended : Bool

namespace AsyncWriter

def init : AsyncWriter ρ :=
  ⟨WriterRun.init, false, false⟩

/-- A call of a worker.  What `append(table, row)` raises reaches the worker. -/
def onCall (env : WriteEnv) (cfg : WriterConfig) (s : AsyncWriter ρ) (openedNs checkedNs : Int) :
    WorkerCall ρ → AsyncWriter ρ
  | .append table row =>
      { s with writer := (appendRow env cfg s.writer table row openedNs checkedNs).1 }
  | _ => s

/-- The `finally` of `run()`, behind which the task is over. -/
def lastFlush (env : WriteEnv) (s : AsyncWriter ρ) : AsyncWriter ρ :=
  { s with writer := (flushAll env s.writer).1, ended := true }

/-- `except TimeoutError` in `run()`. -/
def onTimeout (env : WriteEnv) (s : AsyncWriter ρ) : AsyncWriter ρ :=
  match flushAll env s.writer with
  | (writer, none) => { s with writer := writer }
  -- What the flush raises leaves the loop, by way of its `finally`.
  | (writer, some _) => lastFlush env { s with writer := writer }

end AsyncWriter

/-- What the event loop runs next. -/
inductive LoopEvent (ι ρ : Type)
  | call (worker : ι) (c : WorkerCall ρ) (openedNs checkedNs : Int)
  -- The `wait_for` of the flusher times out.
  | timeout
  -- The `finally` of `run_ingest_forever`: `stop()`, and `cancel()` of every task.
  | shutdown
  -- The flusher is resumed with what the shutdown has left for it.
  | resume

def LoopEvent.isShutdown : LoopEvent ι ρ → Bool
  | shutdown => true
  | call _ _ _ _ => false
  | timeout => false
  | resume => false

def loopStep (env : WriteEnv) (cfg : WriterConfig) (s : AsyncWriter ρ) :
    LoopEvent ι ρ → AsyncWriter ρ
  | .call _ c openedNs checkedNs =>
      -- A worker that is resumed after its cancellation only raises.
      if s.stopped then s else s.onCall env cfg openedNs checkedNs c
  | .timeout => if s.stopped || s.ended then s else s.onTimeout env
  | .shutdown => { s with stopped := true }
  | .resume => if s.stopped && !s.ended then s.lastFlush env else s

def runLoop (env : WriteEnv) (cfg : WriterConfig) (events : List (LoopEvent ι ρ)) : AsyncWriter ρ :=
  events.foldl (loopStep env cfg) AsyncWriter.init

/-! ## Schedules -/

/-- The calls of a worker before the shutdown. -/
def callsOf [DecidableEq ι] (i : ι) (events : List (LoopEvent ι ρ)) : List (WorkerCall ρ) :=
  (events.takeWhile fun e => !e.isShutdown).filterMap fun
    | .call j c _ _ => if j = i then some c else none
    | _ => none

/-- The events interleave the lives of the workers, each up to its cancellation. -/
def Schedules [DecidableEq ι] (workers : ι → IngestWorker) (attempts : ι → List (Attempt ρ))
    (events : List (LoopEvent ι ρ)) : Prop :=
  ∀ i, callsOf i events = (workers i).run WorkerState.init (attempts i)

/-- What the streams of a worker deliver, under the table it goes to. -/
def deliveredBy (w : IngestWorker) (attempts : List (Attempt ρ)) : Multiset (String × ρ) :=
  tagged (streamToTable w.stream) ((performed attempts).flatMap Attempt.delivered)

/-- The row that a call hands to the writer. -/
def WorkerCall.handedOver : WorkerCall ρ → Multiset (String × ρ)
  | append table row => {(table, row)}
  | _ => 0

def LoopEvent.handedOver (stopped : Bool) : LoopEvent ι ρ → Multiset (String × ρ)
  | call _ c _ _ => if stopped then 0 else c.handedOver
  | timeout => 0
  | shutdown => 0
  | resume => 0

/-- The rows that the events hand to the writer. -/
def handedOver : Bool → List (LoopEvent ι ρ) → Multiset (String × ρ)
  | _, [] => 0
  | stopped, e :: events => e.handedOver stopped + handedOver (stopped || e.isShutdown) events

/-! ## One event -/

section Step

variable {env : WriteEnv} (cfg : WriterConfig) {s : AsyncWriter ρ}

lemma onCall_stopped (openedNs checkedNs : Int) (c : WorkerCall ρ) :
    (s.onCall env cfg openedNs checkedNs c).stopped = s.stopped := by
  cases c <;> rfl

lemma onTimeout_stopped : (s.onTimeout env).stopped = s.stopped := by
  rw [AsyncWriter.onTimeout]
  cases flushAll env s.writer with
  | mk writer failure => cases failure <;> rfl

lemma loopStep_stopped (e : LoopEvent ι ρ) :
    (loopStep env cfg s e).stopped = (s.stopped || e.isShutdown) := by
  cases e with
  | call worker c openedNs checkedNs =>
      simp only [loopStep, LoopEvent.isShutdown, Bool.or_false]
      split_ifs
      · rfl
      · exact onCall_stopped cfg openedNs checkedNs c
  | timeout =>
      simp only [loopStep, LoopEvent.isShutdown, Bool.or_false]
      split_ifs
      · rfl
      · exact onTimeout_stopped
  | shutdown => exact (Bool.or_true _).symm
  | resume =>
      simp only [loopStep, LoopEvent.isShutdown, Bool.or_false]
      split_ifs
      · rfl
      · rfl

/-- A wake-up of the flusher hands over nothing. -/
lemma onTimeout_ledger (h : NamesUsed env s.writer) :
    Ledger env s.writer (s.onTimeout env).writer 0 := by
  have hflush := flushAll_ledger h
  rw [AsyncWriter.onTimeout]
  cases hout : flushAll env s.writer with
  | mk writer failure =>
      rw [hout] at hflush
      cases failure with
      | none => exact hflush
      | some failure =>
          have hboth := hflush.trans (flushAll_ledger hflush.names)
          rw [add_zero] at hboth
          exact hboth

lemma onCall_ledger (h : NamesUsed env s.writer) (openedNs checkedNs : Int) (c : WorkerCall ρ) :
    Ledger env s.writer (s.onCall env cfg openedNs checkedNs c).writer c.handedOver := by
  have hquiet : Ledger env s.writer s.writer 0 := Ledger.of_quiet h rfl rfl (add_zero _)
  cases c with
  | append table row => exact runCall_ledger cfg h (.append table row openedNs checkedNs)
  | makeStream _ => exact hquiet
  | record _ => exact hquiet
  | recordRestart _ _ => exact hquiet
  | sleep _ => exact hquiet

/-- The books of one event. -/
lemma loopStep_ledger (h : NamesUsed env s.writer) (e : LoopEvent ι ρ) :
    Ledger env s.writer (loopStep env cfg s e).writer (e.handedOver s.stopped) := by
  have hquiet : Ledger env s.writer s.writer 0 := Ledger.of_quiet h rfl rfl (add_zero _)
  cases e with
  | call worker c openedNs checkedNs =>
      simp only [loopStep, LoopEvent.handedOver]
      split_ifs
      · exact hquiet
      · exact onCall_ledger cfg h openedNs checkedNs c
  | timeout =>
      simp only [loopStep, LoopEvent.handedOver]
      split_ifs
      · exact hquiet
      · exact onTimeout_ledger h
  | shutdown => exact hquiet
  | resume =>
      simp only [loopStep, LoopEvent.handedOver]
      split_ifs
      · exact flushAll_ledger h
      · exact hquiet

lemma filed_le_onCall (h : NamesUsed env s.writer) (openedNs checkedNs : Int)
    (c : WorkerCall ρ) :
    filed s.writer.files ≤ filed (s.onCall env cfg openedNs checkedNs c).writer.files := by
  cases c with
  | append table row =>
      let out := lockedAppend cfg s.writer.buffers table row openedNs checkedNs
      have hnames : NamesUsed env { s.writer with buffers := out.1 } := h
      have hflush := filed_le_flushKey hnames (keyOf table row)
      simp only [AsyncWriter.onCall, appendRow]
      split_ifs
      · exact hflush
      · exact le_rfl
  | makeStream _ => exact le_rfl
  | record _ => exact le_rfl
  | recordRestart _ _ => exact le_rfl
  | sleep _ => exact le_rfl

lemma filed_le_onTimeout (h : NamesUsed env s.writer) :
    filed s.writer.files ≤ filed (s.onTimeout env).writer.files := by
  have hfirst := filed_le_flushAll h
  have hnames := (flushAll_ledger h).names
  rw [AsyncWriter.onTimeout]
  cases hout : flushAll env s.writer with
  | mk writer failure =>
      rw [hout] at hfirst hnames
      cases failure with
      | none => exact hfirst
      | some failure => exact hfirst.trans (filed_le_flushAll hnames)

/-- Events only add files. -/
lemma filed_le_loopStep (h : NamesUsed env s.writer) (e : LoopEvent ι ρ) :
    filed s.writer.files ≤ filed (loopStep env cfg s e).writer.files := by
  cases e with
  | call worker c openedNs checkedNs =>
      simp only [loopStep]
      split_ifs
      · exact le_rfl
      · exact filed_le_onCall cfg h openedNs checkedNs c
  | timeout =>
      simp only [loopStep]
      split_ifs
      · exact le_rfl
      · exact filed_le_onTimeout h
  | shutdown => exact le_rfl
  | resume =>
      simp only [loopStep]
      split_ifs
      · exact filed_le_flushAll h
      · exact le_rfl

end Step

/-! ## Invariants -/

/-- No buffer has reached `batch_rows`. -/
def NoneFull (cfg : WriterConfig) (buffers : Buffers ρ) : Prop :=
  ∀ key buf, buffers.get? key = some buf → (buf.rows.length : Int) < cfg.batchRows

/-- Where the task of the flusher is over and no flush has failed, the stop event is set and nothing
is buffered. -/
def EndsDrained (env : WriteEnv) (s : AsyncWriter ρ) : Prop :=
  s.ended = true → NoFailure env 0 s.writer.attempts →
    s.stopped = true ∧ s.writer.buffers.keys = []

section Invariants

variable {env : WriteEnv} {cfg : WriterConfig} {s : AsyncWriter ρ}

omit [Row ρ] in
lemma noneFull_lockedPop {buffers : Buffers ρ} (h : NoneFull cfg buffers) (key : Key) :
    NoneFull cfg (lockedPop buffers key).1 := by
  intro key' buf hget
  have hmem := Dict.mem_erase_iff.1 (Dict.get?_eq_some_iff.1 hget)
  exact h key' buf (Dict.get?_eq_some_iff.2 hmem.2)

lemma noneFull_flushKeys :
    ∀ (keys : List Key) {w : WriterRun ρ}, NoneFull cfg w.buffers →
      NoneFull cfg (flushKeys env keys w).1.buffers
  | [], _, h => h
  | key :: keys, w, h => by
      have hfirst := noneFull_lockedPop h key
      rw [← flushKey_buffers env] at hfirst
      cases hkey : flushKey env w key with
      | mk w' failure =>
          rw [hkey] at hfirst
          cases failure with
          | some failure => simpa only [flushKeys, hkey] using hfirst
          | none =>
              simp only [flushKeys, hkey]
              exact noneFull_flushKeys keys hfirst

/-- A buffer that is full is popped by the append that has filled it. -/
lemma noneFull_appendRow {w : WriterRun ρ} (h : NoneFull cfg w.buffers) (table : String) (row : ρ)
    (openedNs checkedNs : Int) :
    NoneFull cfg (appendRow env cfg w table row openedNs checkedNs).1.buffers := by
  let out := lockedAppend cfg w.buffers table row openedNs checkedNs
  have hothers : ∀ key buf, key ≠ keyOf table row → out.1.get? key = some buf →
      (buf.rows.length : Int) < cfg.batchRows := by
    intro key buf hne hget
    exact h key buf ((Dict.get?_set_ne w.buffers _ hne).symm.trans hget)
  cases hflush : out.2 with
  | true =>
      have hrun : appendRow env cfg w table row openedNs checkedNs =
          flushKey env { w with buffers := out.1 } (keyOf table row) := if_pos hflush
      rw [hrun, flushKey_buffers]
      intro key buf hget
      have hmem := Dict.mem_erase_iff.1 (Dict.get?_eq_some_iff.1 hget)
      exact hothers key buf hmem.1 (Dict.get?_eq_some_iff.2 hmem.2)
  | false =>
      have hrun : appendRow env cfg w table row openedNs checkedNs =
          ({ w with buffers := out.1 }, none) := if_neg (by rw [hflush]; exact Bool.false_ne_true)
      rw [hrun]
      intro key buf hget
      by_cases hkey : key = keyOf table row
      · subst hkey
        have hbuf := Option.some.inj ((Dict.get?_set_self w.buffers _ _).symm.trans hget)
        subst hbuf
        exact not_le.1 (of_decide_eq_false (Bool.or_eq_false_iff.1 hflush).1)
      · exact hothers key buf hkey hget

lemma noneFull_loopStep (h : NoneFull cfg s.writer.buffers) (e : LoopEvent ι ρ) :
    NoneFull cfg (loopStep env cfg s e).writer.buffers := by
  have hflush : ∀ w : WriterRun ρ, NoneFull cfg w.buffers →
      NoneFull cfg (flushAll env w).1.buffers := fun w hw => noneFull_flushKeys w.buffers.keys hw
  cases e with
  | call worker c openedNs checkedNs =>
      simp only [loopStep]
      split_ifs
      · exact h
      · cases c with
        | append table row => exact noneFull_appendRow h table row openedNs checkedNs
        | makeStream _ => exact h
        | record _ => exact h
        | recordRestart _ _ => exact h
        | sleep _ => exact h
  | timeout =>
      simp only [loopStep]
      split_ifs
      · exact h
      · have hfirst := hflush s.writer h
        rw [AsyncWriter.onTimeout]
        cases hout : flushAll env s.writer with
        | mk writer failure =>
            rw [hout] at hfirst
            cases failure with
            | none => exact hfirst
            | some failure => exact hflush writer hfirst
  | shutdown => exact h
  | resume =>
      simp only [loopStep]
      split_ifs
      · exact hflush s.writer h
      · exact h

lemma onTimeout_of_none (hnone : (flushAll env s.writer).2 = none) :
    s.onTimeout env = { s with writer := (flushAll env s.writer).1 } := by
  rw [AsyncWriter.onTimeout]
  cases hout : flushAll env s.writer with
  | mk writer failure =>
      rw [hout] at hnone
      cases failure with
      | none => rfl
      | some failure => cases hnone

lemma onTimeout_of_noFailure (hnames : NamesUsed env s.writer)
    (hok : NoFailure env 0 (s.onTimeout env).writer.attempts) :
    (flushAll env s.writer).2 = none := by
  refine flushAll_of_noFailure hnames ?_ hok
  rw [AsyncWriter.onTimeout]
  have hnames' := (flushAll_ledger hnames).names
  cases hout : flushAll env s.writer with
  | mk writer failure =>
      rw [hout] at hnames'
      cases failure with
      | none => exact le_rfl
      | some failure => exact (flushAll_ledger hnames').attempts

lemma endsDrained_loopStep (hnames : NamesUsed env s.writer) (h : EndsDrained env s) (e : LoopEvent ι ρ) :
    EndsDrained env (loopStep env cfg s e) := by
  intro hended hok
  have hbefore : NoFailure env 0 s.writer.attempts :=
    noFailure_of_le (loopStep_ledger cfg hnames e).attempts hok
  cases e with
  | call worker c openedNs checkedNs =>
      have hover : s.ended = true := by
        revert hended
        simp only [loopStep]
        split_ifs
        · exact id
        · cases c <;> exact id
      have hstate := h hover hbefore
      simp only [loopStep, if_pos hstate.1]
      exact hstate
  | timeout =>
      simp only [loopStep] at hended hok ⊢
      split_ifs at hended hok ⊢ with hskip
      · exact h hended hbefore
      · -- The task ends only if its flush has raised.
        rw [onTimeout_of_none (onTimeout_of_noFailure hnames hok)] at hended
        rw [hended, Bool.or_true] at hskip
        exact absurd rfl hskip
  | shutdown => exact ⟨rfl, (h hended hbefore).2⟩
  | resume =>
      simp only [loopStep] at hended hok ⊢
      split_ifs at hended hok ⊢ with hlast
      · have hstopped : s.stopped = true := (Bool.and_eq_true_iff.1 hlast).1
        exact ⟨hstopped, flushAll_drains (flushAll_of_noFailure hnames le_rfl hok)⟩
      · exact h hended hbefore

end Invariants

/-! ## Whole runs -/

section Run

variable {env : WriteEnv} {cfg : WriterConfig}

/-- What holds of every state of the process. -/
structure LoopInv (env : WriteEnv) (cfg : WriterConfig) (s : AsyncWriter ρ) : Prop where
  names : NamesUsed env s.writer
  noneFull : NoneFull cfg s.writer.buffers
  endsDrained : EndsDrained env s

lemma LoopInv.step {s : AsyncWriter ρ} (h : LoopInv env cfg s) (e : LoopEvent ι ρ) :
    LoopInv env cfg (loopStep env cfg s e) where
  names := (loopStep_ledger cfg h.names e).names
  noneFull := noneFull_loopStep h.noneFull e
  endsDrained := endsDrained_loopStep h.names h.endsDrained e

/-- The books of a stretch of a run. -/
lemma foldl_loopStep_spec :
    ∀ (events : List (LoopEvent ι ρ)) {s : AsyncWriter ρ}, LoopInv env cfg s →
      LoopInv env cfg (events.foldl (loopStep env cfg) s) ∧
        Ledger env s.writer (events.foldl (loopStep env cfg) s).writer
          (handedOver s.stopped events) ∧
        filed s.writer.files ≤ filed (events.foldl (loopStep env cfg) s).writer.files ∧
        (events.foldl (loopStep env cfg) s).stopped =
          (s.stopped || events.any LoopEvent.isShutdown)
  | [], s, h => ⟨h, Ledger.of_quiet h.names rfl rfl (add_zero _), le_rfl, (Bool.or_false _).symm⟩
  | e :: events, s, h => by
      rcases foldl_loopStep_spec events (h.step e) with ⟨hinv, hledger, hfiled, hstopped⟩
      rw [loopStep_stopped] at hledger hstopped
      refine ⟨hinv, ?_, (filed_le_loopStep cfg h.names e).trans hfiled, ?_⟩
      · exact (loopStep_ledger cfg h.names e).trans hledger
      · rw [List.any_cons, ← Bool.or_assoc]
        exact hstopped

omit [Row ρ] in
lemma loopInv_init : LoopInv env cfg (AsyncWriter.init : AsyncWriter ρ) := by
  refine ⟨?_, ?_, ?_⟩
  · intro path hpath
    cases hpath
  · intro key buf hget
    cases hget
  · intro hended
    cases hended

lemma runLoop_spec (env : WriteEnv) (cfg : WriterConfig) (events : List (LoopEvent ι ρ)) :
    LoopInv env cfg (runLoop env cfg events) ∧
      Ledger env WriterRun.init (runLoop env cfg events).writer (handedOver false events) :=
  ⟨(foldl_loopStep_spec events loopInv_init).1, (foldl_loopStep_spec events loopInv_init).2.1⟩

/-- What was handed over is in memory, on file, or lost in a flush that failed. -/
lemma handedOver_eq (env : WriteEnv) (cfg : WriterConfig) (events : List (LoopEvent ι ρ)) :
    ∃ lost, handedOver false events = (runLoop env cfg events).writer.safe + lost ∧
      (lost = 0 ↔ NoFailure env 0 (runLoop env cfg events).writer.attempts) := by
  rcases (runLoop_spec env cfg events).2.balance with ⟨lost, hsafe, hlost⟩
  refine ⟨lost, ?_, hlost⟩
  rw [← hsafe]
  exact (zero_add _).symm

end Run

/-! ## What the workers hand over -/

section Schedule

variable [DecidableEq ι] [Fintype ι]

/-- The rows that calls hand to the writer. -/
def handed (calls : List (WorkerCall ρ)) : Multiset (String × ρ) :=
  (calls.map WorkerCall.handedOver).sum

omit [Row ρ] [DecidableEq ι] [Fintype ι] in
lemma handedOver_stopped : ∀ events : List (LoopEvent ι ρ), handedOver true events = 0
  | [] => rfl
  | e :: events => by
      have hfirst : e.handedOver true = (0 : Multiset (String × ρ)) := by cases e <;> rfl
      rw [handedOver, hfirst, zero_add, Bool.true_or, handedOver_stopped events]

omit [Row ρ] in
/-- Up to the shutdown, each row comes from the calls of one worker. -/
lemma handedOver_eq_sum :
    ∀ events : List (LoopEvent ι ρ), handedOver false events = ∑ i, handed (callsOf i events)
  | [] => by simp [handedOver, callsOf, handed]
  | .call j c openedNs checkedNs :: events => by
      have hcalls : ∀ i, handed (callsOf i (.call j c openedNs checkedNs :: events)) =
          (if j = i then c.handedOver else 0) + handed (callsOf i events) := by
        intro i
        by_cases hij : j = i
        · simp [callsOf, LoopEvent.isShutdown, hij, handed]
        · simp [callsOf, LoopEvent.isShutdown, hij]
      have hhere : LoopEvent.handedOver false (.call j c openedNs checkedNs : LoopEvent ι ρ) =
          c.handedOver := by
        rw [LoopEvent.handedOver]
        exact if_neg Bool.false_ne_true
      rw [handedOver, hhere, Finset.sum_congr rfl fun i _ => hcalls i, Finset.sum_add_distrib,
        Finset.sum_ite_eq, if_pos (Finset.mem_univ j)]
      exact congrArg _ (handedOver_eq_sum events)
  | .timeout :: events => (zero_add _).trans (handedOver_eq_sum events)
  | .resume :: events => (zero_add _).trans (handedOver_eq_sum events)
  | .shutdown :: events => by
      have hcalls : ∀ i, handed (callsOf i (.shutdown :: events : List (LoopEvent ι ρ))) = 0 :=
        fun i => rfl
      rw [Finset.sum_congr rfl fun i _ => hcalls i, Finset.sum_const_zero]
      exact (zero_add _).trans (handedOver_stopped events)

omit [Row ρ] [DecidableEq ι] [Fintype ι] in
/-- A worker hands all its rows to the table of its stream. -/
lemma handed_eq_tagged {table : String} :
    ∀ {calls : List (WorkerCall ρ)},
      (∀ c ∈ calls, ∀ t row, c = .append t row → t = table) →
        handed calls = tagged table (appended calls)
  | [], _ => rfl
  | c :: calls, h => by
      have hrest := handed_eq_tagged fun c' hc' => h c' (List.mem_cons_of_mem c hc')
      have hcons : handed (c :: calls) = c.handedOver + handed calls := rfl
      rw [hcons, hrest]
      cases c with
      | append t row =>
          rw [h _ List.mem_cons_self t row rfl]
          rfl
      | makeStream _ => exact zero_add _
      | record _ => exact zero_add _
      | recordRestart _ _ => exact zero_add _
      | sleep _ => exact zero_add _

omit [DecidableEq ι] [Fintype ι] in
lemma table_of_mem_consume (w : IngestWorker) (a : Attempt ρ) {c : WorkerCall ρ}
    (hc : c ∈ w.consume a) :
    ∀ t row, c = .append t row → t = streamToTable w.stream := by
  intro t row heq
  subst heq
  rcases List.mem_append.1 hc with hstream | hcrash
  · rcases List.mem_cons.1 hstream with hmake | hrow
    · cases hmake
    · rcases List.mem_flatMap.1 hrow with ⟨r, _, hhandle⟩
      rcases List.mem_cons.1 hhandle with happend | hrecord
      · exact (WorkerCall.append.inj happend).1
      · cases List.mem_singleton.1 hrecord
  · rcases List.mem_map.1 hcrash with ⟨r, _, happend⟩
    exact (WorkerCall.append.inj happend).1.symm

omit [DecidableEq ι] [Fintype ι] in
lemma table_of_mem_run (w : IngestWorker) :
    ∀ (attempts : List (Attempt ρ)) (s : WorkerState) {c : WorkerCall ρ}, c ∈ w.run s attempts →
      ∀ t row, c = .append t row → t = streamToTable w.stream
  | [], _, _, hc => by cases hc
  | a :: attempts, s, c, hc => by
      cases hfinish : a.finish.restarts with
      | false =>
          rw [run_of_exits w s attempts hfinish] at hc
          exact table_of_mem_consume w a hc
      | true =>
          rw [run_of_restarts w s attempts hfinish] at hc
          rcases List.mem_append.1 hc with hc | hc
          · rcases List.mem_append.1 hc with hc | hc
            · exact table_of_mem_consume w a hc
            · intro t row heq
              subst heq
              rcases List.mem_cons.1 hc with hrestart | hsleep
              · cases hrestart
              · cases List.mem_singleton.1 hsleep
          · exact table_of_mem_run w attempts s.restart hc

/-- The life of a worker hands over what its streams deliver. -/
lemma handed_run (w : IngestWorker) (attempts : List (Attempt ρ)) :
    handed (w.run WorkerState.init attempts) = deliveredBy w attempts := by
  rw [handed_eq_tagged fun c hc => table_of_mem_run w attempts WorkerState.init hc, appended_run]
  rfl

/-- The workers hand over what their streams deliver. -/
lemma handedOver_of_schedules {workers : ι → IngestWorker} {attempts : ι → List (Attempt ρ)}
    {events : List (LoopEvent ι ρ)} (hschedules : Schedules workers attempts events) :
    handedOver false events = ∑ i, deliveredBy (workers i) (attempts i) := by
  rw [handedOver_eq_sum]
  refine Finset.sum_congr rfl ?_
  intro i _
  rw [hschedules i, handed_run]

omit [DecidableEq ι] [Fintype ι] in
/-- A process that has shut down without a failure has filed all that was handed over. -/
lemma filed_of_noFailure (env : WriteEnv) (cfg : WriterConfig) {events : List (LoopEvent ι ρ)}
    (hover : (runLoop env cfg events).ended = true)
    (hok : ∀ n, n < (runLoop env cfg events).writer.attempts → env.failure n = none) :
    filed (runLoop env cfg events).writer.files = handedOver false events := by
  rcases handedOver_eq env cfg events with ⟨lost, hbooks, hlost⟩
  have hnoFailure : NoFailure env 0 (runLoop env cfg events).writer.attempts :=
    fun n _ hn => hok n hn
  have hempty := ((runLoop_spec env cfg events).1.endsDrained hover hnoFailure).2
  rw [hbooks, WriterRun.safe, hlost.2 hnoFailure, add_zero, buffered_of_keys_nil hempty, zero_add]

/-- Once the process has shut down, the files hold exactly what the streams of all workers have
delivered, if and only if no flush has failed. -/
theorem shutdown_stores_delivered_iff (env : WriteEnv) (cfg : WriterConfig)
    (workers : ι → IngestWorker) (attempts : ι → List (Attempt ρ))
    (events : List (LoopEvent ι ρ)) (hschedules : Schedules workers attempts events)
    (hover : (runLoop env cfg events).ended = true) :
    filed (runLoop env cfg events).writer.files =
        ∑ i, deliveredBy (workers i) (attempts i) ↔
      ∀ n, n < (runLoop env cfg events).writer.attempts → env.failure n = none := by
  rw [← handedOver_of_schedules hschedules]
  constructor
  · intro hfiled n hn
    rcases handedOver_eq env cfg events with ⟨lost, hbooks, hlost⟩
    rw [hbooks, WriterRun.safe] at hfiled
    -- What is lost, or still in memory, is missing in the files.
    have hnone : buffered (runLoop env cfg events).writer.buffers + lost = 0 := by
      refine add_left_cancel (a := filed (runLoop env cfg events).writer.files) ?_
      rw [add_zero, ← add_assoc, add_comm (filed _) (buffered _)]
      exact hfiled.symm
    exact hlost.1 (add_eq_zero.1 hnone).2 n (Nat.zero_le n) hn
  · exact filed_of_noFailure env cfg hover

end Schedule

section Example

def tradeAt (tsNs : Int) (venue : String) : Trade where
  tsNs := tsNs
  symbol := "BTC-USD"
  venue := some venue
  price := 1

def pairOfWorkers : Bool → IngestWorker
  | true => tradesWorker
  | false => { tradesWorker with sourceName := "okx" }

def oneEighth : Jitter :=
  ⟨1 / 8, by decide +kernel⟩

/-- The stream of the first worker breaks once; the second one delivers up to the shutdown. -/
def livesOfPair : Bool → List (Attempt Trade)
  | true =>
      [⟨[tradeAt 1000 "kraken"], .crashed none, oneEighth⟩,
        ⟨[tradeAt 2000 "kraken"], .cancelled, oneEighth⟩]
  | false => [⟨[tradeAt 1500 "okx"], .cancelled, oneEighth⟩]

/-- A regular flush comes between the breakdown and the restart. -/
def eventsOfPair : List (LoopEvent Bool Trade) :=
  let kraken := tradesWorker.run WorkerState.init (livesOfPair true)
  let okx := (pairOfWorkers false).run WorkerState.init (livesOfPair false)
  (kraken.take 3).map (fun c => .call true c 0 0) ++ [.timeout] ++
    okx.map (fun c => .call false c 0 0) ++ (kraken.drop 3).map (fun c => .call true c 0 0) ++
      [.shutdown, .resume]

theorem shutdown_stores_pair :
    filed (runLoop quietDisk {} eventsOfPair).writer.files =
      {("trades", tradeAt 1000 "kraken"), ("trades", tradeAt 1500 "okx"),
        ("trades", tradeAt 2000 "kraken")} := by
  have hschedules : Schedules pairOfWorkers livesOfPair eventsOfPair := fun i => by
    cases i <;> rfl
  rw [(shutdown_stores_delivered_iff quietDisk {} pairOfWorkers livesOfPair eventsOfPair hschedules
    (by decide +kernel)).2 fun _ _ => rfl]
  decide +kernel

end Example

/-! ## A crash -/

section Crash

variable {env : WriteEnv} {cfg : WriterConfig}

omit [Row ρ] in
lemma books_of_quiet {s s' : WriterRun ρ} {added : Multiset (String × ρ)}
    (h : Ledger env s s' added) (hok : NoFailure env 0 s'.attempts) :
    s.safe + added = s'.safe := by
  rcases h.balance with ⟨lost, hsafe, hlost⟩
  have hnone : lost = 0 := hlost.2 fun n _ hn => hok n (Nat.zero_le n) hn
  rw [hsafe, hnone, add_zero]

omit [Row ρ] in
lemma safe_of_drained {w : WriterRun ρ} (h : w.buffers.keys = []) : w.safe = filed w.files := by
  rw [WriterRun.safe, buffered_of_keys_nil h, zero_add]

/-- A regular flush empties the buffers. -/
lemma drained_of_timeout {s : AsyncWriter ρ} (h : LoopInv env cfg s) (hrunning : s.stopped = false)
    (hok : NoFailure env 0 (loopStep env cfg s (.timeout : LoopEvent ι ρ)).writer.attempts) :
    (loopStep env cfg s (.timeout : LoopEvent ι ρ)).writer.buffers.keys = [] := by
  have hbefore : NoFailure env 0 s.writer.attempts :=
    noFailure_of_le (loopStep_ledger cfg h.names (.timeout : LoopEvent ι ρ)).attempts hok
  have hended : s.ended = false := by
    refine Bool.eq_false_iff.2 ?_
    intro hended
    rw [(h.endsDrained hended hbefore).1] at hrunning
    cases hrunning
  have hstep : loopStep env cfg s (.timeout : LoopEvent ι ρ) = s.onTimeout env := by
    rw [loopStep, hrunning, hended]
    rfl
  rw [hstep] at hok ⊢
  have hnone := onTimeout_of_noFailure h.names hok
  rw [onTimeout_of_none hnone]
  exact flushAll_drains hnone

/-- A process that dies after a regular flush, at any later event, has on file all that it got
before the flush; what is in memory came after it, and is less than a batch for each key. -/
theorem crash_loses_only_latest (env : WriteEnv) (cfg : WriterConfig)
    (before later : List (LoopEvent ι ρ)) (hrunning : (runLoop env cfg before).stopped = false)
    (hok : ∀ n, n < (runLoop env cfg (before ++ .timeout :: later)).writer.attempts →
      env.failure n = none) :
    handedOver false before ≤ filed (runLoop env cfg (before ++ .timeout :: later)).writer.files ∧
      buffered (runLoop env cfg (before ++ .timeout :: later)).writer.buffers ≤
        handedOver false later ∧
      filed (runLoop env cfg (before ++ .timeout :: later)).writer.files +
          buffered (runLoop env cfg (before ++ .timeout :: later)).writer.buffers =
        handedOver false before + handedOver false later ∧
      ∀ key buf,
        (runLoop env cfg (before ++ .timeout :: later)).writer.buffers.get? key = some buf →
          (buf.rows.length : Int) < cfg.batchRows := by
  let s := runLoop env cfg before
  let flushed := loopStep env cfg s (.timeout : LoopEvent ι ρ)
  let last := later.foldl (loopStep env cfg) flushed
  have hrun : runLoop env cfg (before ++ .timeout :: later) = last := List.foldl_append
  rw [hrun] at hok ⊢
  rcases runLoop_spec env cfg before with ⟨hinv, hfirst⟩
  rcases foldl_loopStep_spec later (hinv.step .timeout) with ⟨hend, hlast, hfiled, _⟩
  have hquiet : NoFailure env 0 last.writer.attempts := fun n _ hn => hok n hn
  have hflushed : NoFailure env 0 flushed.writer.attempts :=
    noFailure_of_le hlast.attempts hquiet
  have hstopped : flushed.stopped = false := by
    rw [loopStep_stopped, hrunning]
    rfl
  have hdrained : flushed.writer.safe = filed flushed.writer.files :=
    safe_of_drained (drained_of_timeout hinv hrunning hflushed)
  -- The books up to the flush, and those behind it.
  have hearly : handedOver false before = filed flushed.writer.files := by
    have hbooks := books_of_quiet (hfirst.trans (loopStep_ledger cfg hinv.names .timeout)) hflushed
    rw [hdrained] at hbooks
    rw [← hbooks]
    exact (add_zero _).symm.trans (zero_add _).symm
  have hlate : filed flushed.writer.files + handedOver false later = last.writer.safe := by
    have hbooks := books_of_quiet hlast hquiet
    rw [hdrained, hstopped] at hbooks
    exact hbooks
  have hboth : filed last.writer.files + buffered last.writer.buffers =
      filed flushed.writer.files + handedOver false later := by
    rw [hlate, WriterRun.safe, add_comm]
  rw [hearly]
  refine ⟨hfiled, ?_, hboth, hend.noneFull⟩
  refine le_of_add_le_add_left (a := filed flushed.writer.files) ?_
  rw [← hboth]
  exact add_le_add_left hfiled _

end Crash

theorem crash_loses_only_latest_trade :
    let flushed : List (LoopEvent Unit Trade) :=
      [.call () (.append "trades" (tradeAt 1000 "kraken")) 0 0]
    let later : List (LoopEvent Unit Trade) :=
      [.call () (.append "trades" (tradeAt 2000 "kraken")) 60 60]
    handedOver false flushed ≤
      filed (runLoop quietDisk {} (flushed ++ .timeout :: later)).writer.files :=
  (crash_loses_only_latest quietDisk {} _ _ (by decide +kernel) fun _ _ => rfl).1

end CryptoData
