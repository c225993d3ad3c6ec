import CryptoData.Core.Health
import CryptoData.Foundation.Backoff
import CryptoData.Storage.Writer

/-!
# Worker — one supervised task for each venue and stream

An `IngestWorker` hands the rows of its stream to the writer and tells the health tracker of them.
When the stream ends or crashes, the worker sleeps and opens it again; only a cancellation, or a
stream that the venue does not have, makes it exit.  Up to then the writer gets all that the streams
deliver (`appended_run`).

The backoff doubles with every restart, up to its bound, and nothing sets it back; the jitter is
multiplied on top of the bound.  So a delay depends on the number of the restart and on its jitter
alone (`sleeps_run`): from the seventh restart on it can be above the bound, and only the first
stream is followed by a delay from the least backoff, whatever it has delivered
(`restart_delays_iff`).
-/

namespace CryptoData

open Foundation

/-! ## The algorithm -/

/-- The keys of `_STREAM_TO_TABLE`; for any other stream `run` raises before its loop. -/
inductive StreamType
  | trades
  | quotes
  | bookL2Snapshot
  | funding
  | openInterest
  deriving DecidableEq, Repr

def StreamType.name : StreamType → String
  | .trades => "trades"
  | .quotes => "quotes"
  | .bookL2Snapshot => "book_l2_snapshot"
  | .funding => "funding"
  | .openInterest => "open_interest"

/-- `_STREAM_TO_TABLE[stream]`: each stream has the table of its name. -/
def streamToTable (stream : StreamType) : String :=
  stream.name

/-- A method of the source, called with its arguments. -/
inductive StreamCall
  | streamTrades (symbols : List String)
  | streamQuotes (symbols : List String)
  | streamBook (symbols : List String) (depth : ℕ)
  | streamFunding (symbols : List String)
  | streamOpenInterest (symbols : List String)
  deriving DecidableEq, Repr

structure IngestWorker where
  sourceName : String
  stream : StreamType
  symbols : List String
  depth : Option ℕ := none

/-- What `random.random()` returns. -/
abbrev Jitter := {r : ℚ // 0 ≤ r ∧ r < 1}

/-- How the `try` of an iteration ends. -/
inductive Finish (ρ : Type)
  | ended
  -- The stream raises, or `append` does for this row.
  | crashed (handling : Option ρ)
  | cancelled
  | unsupported

/-- One iteration of the loop: the rows that are handled, how the `try` ends, and the draw for the
sleep, if there is one. -/
structure Attempt (ρ : Type) where
  rows : List ρ
  finish : Finish ρ
  jitter : Jitter

/-- What the worker does, call by call. -/
inductive WorkerCall (ρ : Type)
  | makeStream (call : StreamCall)
  | append (table : String) (row : ρ)
  | record (key : StreamKey)
  | recordRestart (venue stream : String)
  | sleep (seconds : ℚ)

/-- `_MIN_BACKOFF`, in seconds. -/
def minBackoff : ℚ := 1

def maxBackoff : ℚ := 60

/-- The backoff doubles. -/
def restartPolicy : BackoffPolicy ℚ :=
  ⟨minBackoff, maxBackoff, 2, by decide +kernel, by decide +kernel, by decide +kernel⟩

/-- The variable `backoff` and the attribute `restarts`. -/
structure WorkerState where
  backoff : Backoff restartPolicy
  restarts : ℕ

def WorkerState.init : WorkerState :=
  ⟨Backoff.first restartPolicy, 0⟩

/-- `self.restarts += 1`, and `backoff = min(backoff * 2, _MAX_BACKOFF)` behind the sleep. -/
def WorkerState.restart (s : WorkerState) : WorkerState where
  backoff := s.backoff.next
  restarts := s.restarts + 1

/-- `min(backoff, _MAX_BACKOFF) * (0.5 + random.random())`. -/
def sleepS (backoff : Backoff restartPolicy) (jitter : Jitter) : ℚ :=
  min backoff.delay maxBackoff * (1 / 2 + jitter.val)

namespace Finish

variable {ρ : Type}

/-- The row that the crash is about. -/
def handled : Finish ρ → Option ρ
  | crashed handling => handling
  | _ => none

/-- The worker goes on. -/
def restarts : Finish ρ → Bool
  | ended => true
  | crashed _ => true
  | cancelled => false
  | unsupported => false

end Finish

section Worker

variable {ρ : Type} [Row ρ]

/-- The rows that the stream has delivered. -/
def Attempt.delivered (a : Attempt ρ) : List ρ :=
  a.rows ++ a.finish.handled.toList

namespace IngestWorker

variable (w : IngestWorker)

/-- `_make_stream()`. -/
def makeStream : StreamCall :=
  match w.stream with
  | .trades => .streamTrades w.symbols
  | .quotes => .streamQuotes w.symbols
  | .bookL2Snapshot => .streamBook w.symbols (w.depth.getD 20)
  | .funding => .streamFunding w.symbols
  | .openInterest => .streamOpenInterest w.symbols

/-- The body of the `async for`. -/
def handle (row : ρ) : List (WorkerCall ρ) :=
  [.append (streamToTable w.stream) row, .record (w.sourceName, Row.symbol row, w.stream.name)]

/-- The `try` of an iteration. -/
def consume (a : Attempt ρ) : List (WorkerCall ρ) :=
  .makeStream w.makeStream :: a.rows.flatMap w.handle ++
    a.finish.handled.toList.map (.append (streamToTable w.stream))

/-- What the worker does before a restart. -/
def beforeRestart (s : WorkerState) (jitter : Jitter) : List (WorkerCall ρ) :=
  [.recordRestart w.sourceName w.stream.name, .sleep (sleepS s.backoff jitter)]

/-- The `while True` of `run()`, for the iterations that take place. -/
def run : WorkerState → List (Attempt ρ) → List (WorkerCall ρ)
  | _, [] => []
  | s, a :: attempts =>
      match a.finish with
      -- `raise` and `return`.
      | .cancelled | .unsupported => w.consume a
      | .ended | .crashed _ => w.consume a ++ w.beforeRestart s a.jitter ++ run s.restart attempts

end IngestWorker

/-! ## Restarts -/

/-- The iterations that are followed by a restart. -/
def restarted (attempts : List (Attempt ρ)) : List (Attempt ρ) :=
  attempts.takeWhile fun a => a.finish.restarts

def WorkerCall.sleep? : WorkerCall ρ → Option ℚ
  | .sleep seconds => some seconds
  | _ => none

/-- The delays, in their order. -/
def sleeps (calls : List (WorkerCall ρ)) : List ℚ :=
  calls.filterMap WorkerCall.sleep?

/-- The iterations that take place. -/
def performed : List (Attempt ρ) → List (Attempt ρ)
  | [] => []
  | a :: attempts => if a.finish.restarts then a :: performed attempts else [a]

def WorkerCall.row? : WorkerCall ρ → Option ρ
  | .append _ row => some row
  | _ => none

/-- The rows that are handed to the writer. -/
def appended (calls : List (WorkerCall ρ)) : List ρ :=
  calls.filterMap WorkerCall.row?

/-- Each restart has a delay within the bound, and after a stream that has delivered a row it is one
from the least backoff. -/
structure RestartsPromptly (restarts : List (Attempt ρ)) (delays : List ℚ) : Prop where
  one_each : delays.length = restarts.length
  capped : ∀ d ∈ delays, d ≤ maxBackoff
  recovered : ∀ e ∈ restarts.zip delays, e.1.delivered ≠ [] →
    e.2 = sleepS (Backoff.first restartPolicy) e.1.jitter

/-! ## One iteration -/

section Iteration

variable (w : IngestWorker) (s : WorkerState) {a : Attempt ρ} (attempts : List (Attempt ρ))

lemma run_of_restarts (h : a.finish.restarts = true) :
    w.run s (a :: attempts) =
      w.consume a ++ w.beforeRestart s a.jitter ++ w.run s.restart attempts := by
  rw [IngestWorker.run]
  cases hfinish : a.finish with
  | ended => rfl
  | crashed handling => rfl
  | cancelled =>
      rw [hfinish] at h
      cases h
  | unsupported =>
      rw [hfinish] at h
      cases h

lemma run_of_exits (h : a.finish.restarts = false) : w.run s (a :: attempts) = w.consume a := by
  rw [IngestWorker.run]
  cases hfinish : a.finish with
  | ended =>
      rw [hfinish] at h
      cases h
  | crashed handling =>
      rw [hfinish] at h
      cases h
  | cancelled => rfl
  | unsupported => rfl

omit [Row ρ] in
lemma sleeps_append (calls later : List (WorkerCall ρ)) :
    sleeps (calls ++ later) = sleeps calls ++ sleeps later :=
  List.filterMap_append

omit [Row ρ] in
lemma appended_append (calls later : List (WorkerCall ρ)) :
    appended (calls ++ later) = appended calls ++ appended later :=
  List.filterMap_append

/-- The worker does not sleep while it consumes a stream. -/
lemma sleeps_consume (a : Attempt ρ) : sleeps (w.consume a) = [] := by
  refine List.filterMap_eq_nil_iff.2 ?_
  intro call hcall
  rcases List.mem_append.1 hcall with hstream | hcrash
  · rcases List.mem_cons.1 hstream with rfl | hrow
    · rfl
    · rcases List.mem_flatMap.1 hrow with ⟨row, _, hhandle⟩
      rcases List.mem_cons.1 hhandle with rfl | hrecord
      · rfl
      · rw [List.mem_singleton.1 hrecord]
        rfl
  · rcases List.mem_map.1 hcrash with ⟨row, _, rfl⟩
    rfl

/-- Every row that the stream has delivered is handed to the writer, in its turn. -/
lemma appended_consume (a : Attempt ρ) : appended (w.consume a) = a.delivered := by
  have hrows : ∀ rows : List ρ, appended (rows.flatMap w.handle) = rows := by
    intro rows
    induction rows with
    | nil => rfl
    | cons row rows ih =>
        rw [List.flatMap_cons, appended_append, ih]
        rfl
  rw [IngestWorker.consume, appended_append, Attempt.delivered]
  refine congrArg₂ _ (hrows a.rows) ?_
  cases a.finish.handled with
  | none => rfl
  | some row => rfl

end Iteration

/-- Over its whole life, the worker hands on what its streams deliver. -/
theorem appended_run (w : IngestWorker) :
    ∀ (attempts : List (Attempt ρ)) (s : WorkerState),
      appended (w.run s attempts) = (performed attempts).flatMap Attempt.delivered
  | [], _ => rfl
  | a :: attempts, s => by
      cases hfinish : a.finish.restarts with
      | false =>
          have hlast : performed (a :: attempts) = [a] :=
            if_neg (by rw [hfinish]; exact Bool.false_ne_true)
          rw [run_of_exits w s attempts hfinish, hlast, appended_consume, List.flatMap_singleton]
      | true =>
          have hcons : performed (a :: attempts) = a :: performed attempts := if_pos hfinish
          -- Between two iterations the writer gets nothing.
          have hbetween : appended (w.beforeRestart s a.jitter : List (WorkerCall ρ)) = [] := rfl
          rw [run_of_restarts w s attempts hfinish, appended_append, appended_append,
            appended_consume, hbetween, List.append_nil, appended_run w attempts s.restart, hcons,
            List.flatMap_cons]

/-! ## The delay of a restart -/

/-- Nothing but restarts has changed the backoff. -/
def WorkerState.Drifted (s : WorkerState) : Prop :=
  s.backoff = Backoff.after restartPolicy s.restarts

lemma WorkerState.Drifted.restart {s : WorkerState} (h : s.Drifted) : s.restart.Drifted :=
  congrArg Backoff.next h

/-- The delays of a run: the number of the restart and its jitter decide. -/
theorem sleeps_run (w : IngestWorker) :
    ∀ (attempts : List (Attempt ρ)) {s : WorkerState}, s.Drifted →
      sleeps (w.run s attempts) = ((restarted attempts).zipIdx s.restarts).map fun e =>
        sleepS (Backoff.after restartPolicy e.2) e.1.jitter
  | [], _, _ => rfl
  | a :: attempts, s, h => by
      cases hfinish : a.finish.restarts with
      | false =>
          have hnone : restarted (a :: attempts) = [] :=
            List.takeWhile_cons_of_neg (by rw [hfinish]; exact Bool.false_ne_true)
          rw [run_of_exits w s attempts hfinish, sleeps_consume, hnone]
          rfl
      | true =>
          have hcons : restarted (a :: attempts) = a :: restarted attempts :=
            List.takeWhile_cons_of_pos hfinish
          have hdelay : sleeps (w.beforeRestart s a.jitter : List (WorkerCall ρ)) =
              [sleepS (Backoff.after restartPolicy s.restarts) a.jitter] := by
            rw [← h]
            rfl
          rw [run_of_restarts w s attempts hfinish, sleeps_append, sleeps_append, sleeps_consume,
            hdelay, sleeps_run w attempts h.restart, hcons]
          rfl

section Delay

variable (n : ℕ) (jitter : Jitter)

/-- The backoff is within its bounds already; the jitter comes on top. -/
lemma sleepS_eq (backoff : Backoff restartPolicy) :
    sleepS backoff jitter = backoff.delay * (1 / 2 + jitter.val) :=
  congrArg (· * _) (min_eq_left backoff.le_greatest)

lemma sleepS_after : sleepS (Backoff.after restartPolicy n) jitter =
    min (2 ^ n) 60 * (1 / 2 + jitter.val) := by
  have hdelay : (Backoff.after restartPolicy n).delay = min (1 * 2 ^ n) 60 := Backoff.delay_after n
  rw [sleepS_eq, hdelay, one_mul]

/-- The first six delays are within the bound, and any other is if its jitter does not raise it. -/
lemma sleepS_after_le_iff :
    sleepS (Backoff.after restartPolicy n) jitter ≤ maxBackoff ↔
      (6 ≤ n → jitter.val ≤ 1 / 2) := by
  rw [sleepS_after]
  change _ ≤ (60 : ℚ) ↔ _
  have hnonneg := jitter.2.1
  have hlt := jitter.2.2
  rcases Nat.lt_or_ge n 6 with hfew | hmany
  · -- Five doublings: at most 32 seconds, and at most 48 with the jitter.
    refine iff_of_true ?_ fun hmany => absurd hmany (not_le.2 hfew)
    have hpow : (2 : ℚ) ^ n ≤ 2 ^ 5 := pow_le_pow_right₀ (by norm_num) (Nat.lt_succ_iff.1 hfew)
    have hmin : min ((2 : ℚ) ^ n) 60 ≤ 32 := (min_le_left _ _).trans (hpow.trans (by norm_num))
    calc
      min ((2 : ℚ) ^ n) 60 * (1 / 2 + jitter.val) ≤ 32 * (1 / 2 + jitter.val) :=
        mul_le_mul_of_nonneg_right hmin (by linarith)
      _ ≤ 60 := by linarith
  · have hpow : (2 : ℚ) ^ 6 ≤ 2 ^ n := pow_le_pow_right₀ (by norm_num) hmany
    have hmin : min ((2 : ℚ) ^ n) 60 = 60 := min_eq_right (le_trans (by norm_num) hpow)
    rw [hmin]
    constructor
    · intro h _
      linarith
    · intro h
      linarith [h hmany]

/-- Only the first delay is one from the least backoff. -/
lemma sleepS_after_eq_first_iff :
    sleepS (Backoff.after restartPolicy n) jitter = sleepS (Backoff.first restartPolicy) jitter ↔
      n = 0 := by
  constructor
  · intro h
    by_contra hn
    have hlonger : restartPolicy.least < (Backoff.after restartPolicy n).delay :=
      Backoff.least_lt_delay_after (by decide +kernel) hn
    have hjitter : 0 < 1 / 2 + jitter.val := by linarith [jitter.2.1]
    rw [sleepS_eq, sleepS_eq] at h
    exact (mul_lt_mul_of_pos_right hlonger hjitter).ne' h
  · intro hn
    rw [hn]
    rfl

end Delay

/-- The delays are within the bound and recover exactly if the jitter is at most a half from the
seventh restart on, and no stream but the first delivers a row before a restart. -/
theorem restart_delays_iff (w : IngestWorker) (attempts : List (Attempt ρ)) :
    RestartsPromptly (restarted attempts) (sleeps (w.run WorkerState.init attempts)) ↔
      ∀ e ∈ (restarted attempts).zipIdx,
        (6 ≤ e.2 → e.1.jitter.val ≤ 1 / 2) ∧ (1 ≤ e.2 → e.1.delivered = []) := by
  have hinit : WorkerState.init.Drifted := rfl
  have hsleeps := sleeps_run w attempts hinit
  -- Each restart next to its delay.
  have hpairs : (restarted attempts).zip (sleeps (w.run WorkerState.init attempts)) =
      (restarted attempts).zipIdx.map fun e =>
        (e.1, sleepS (Backoff.after restartPolicy e.2) e.1.jitter) := by
    rw [hsleeps, ← List.zip_map', List.zipIdx_map_fst]
    rfl
  constructor
  · intro h e he
    have hpair : (e.1, sleepS (Backoff.after restartPolicy e.2) e.1.jitter) ∈
        (restarted attempts).zip (sleeps (w.run WorkerState.init attempts)) := by
      rw [hpairs]
      exact List.mem_map.2 ⟨e, he, rfl⟩
    refine ⟨(sleepS_after_le_iff e.2 e.1.jitter).1 (h.capped _ (List.of_mem_zip hpair).2), ?_⟩
    intro hlater
    by_contra hrows
    have hfirst := (sleepS_after_eq_first_iff e.2 e.1.jitter).1 (h.recovered _ hpair hrows)
    exact absurd hfirst (Nat.one_le_iff_ne_zero.1 hlater)
  · intro h
    refine ⟨?_, ?_, ?_⟩
    · rw [hsleeps, List.length_map, List.length_zipIdx]
    · intro d hd
      rw [hsleeps] at hd
      rcases List.mem_map.1 hd with ⟨e, he, rfl⟩
      exact (sleepS_after_le_iff e.2 e.1.jitter).2 (h e he).1
    · intro p hp hrows
      rw [hpairs] at hp
      rcases List.mem_map.1 hp with ⟨e, he, rfl⟩
      refine (sleepS_after_eq_first_iff e.2 e.1.jitter).2 ?_
      by_contra hlater
      exact hrows ((h e he).2 (Nat.one_le_iff_ne_zero.2 hlater))

end Worker

def tradesWorker : IngestWorker where
  sourceName := "kraken"
  stream := .trades
  symbols := ["BTC-USD"]

/-- Six crashes before the first row, and a stream that delivers one. -/
def outageAndRecovery : List (Attempt Trade) :=
  let jitter : Jitter := ⟨3 / 4, by decide +kernel⟩
  let trade : Trade := { tsNs := 1000, price := 1, size := some 1 }
  List.replicate 6 ⟨[], .crashed none, jitter⟩ ++ [⟨[trade], .ended, jitter⟩]

/-- The delay behind the row is the longest of all. -/
theorem delay_after_recovery_is_longest :
    restarted outageAndRecovery = outageAndRecovery ∧
      sleeps (tradesWorker.run WorkerState.init outageAndRecovery) =
        [5 / 4, 5 / 2, 5, 10, 20, 40, 75] ∧
      ¬ RestartsPromptly (restarted outageAndRecovery)
        (sleeps (tradesWorker.run WorkerState.init outageAndRecovery)) := by
  have hsleeps : sleeps (tradesWorker.run WorkerState.init outageAndRecovery) =
      [5 / 4, 5 / 2, 5, 10, 20, 40, 75] := by decide +kernel
  refine ⟨rfl, hsleeps, ?_⟩
  intro h
  have hcapped := h.capped 75
  rw [hsleeps] at hcapped
  exact absurd (hcapped (by decide +kernel)) (by decide +kernel)

end CryptoData
