import CryptoData.Core.Worker
import Mathlib.Data.List.Induction

/-!
# Reconnect — two loops around one connection

An adapter opens its socket again by itself, with a backoff that every successful connection sets
back; what it does not handle leaves its stream, and the worker opens a new one, with a backoff that
nothing sets back.  Which loop handles a lost connection depends on where its frames are read: in
`_ws_messages` of the Binance adapters within the `try`, with `_connect` of all others by the
caller, outside of it.

Through all this no row is lost or repeated, and each delay is fixed by two numbers of the history,
the crashes of the stream and the failures since the last connection (`feed_snoc`).
-/

namespace CryptoData

open Foundation

/-! ## The adapters' loops -/

/-- How a connection ends once its frames are read. -/
inductive Drop
  -- The closing handshake: the loop over the frames ends.
  | clean
  -- `ConnectionClosedError`, from the loop over the frames.
  | lost
  -- The adapter raises for a frame.
  | faulty
  deriving DecidableEq, Repr

/-- What an iteration of `while True` meets. -/
inductive Link (ρ : Type)
  -- `TimeoutError`, `ConnectionClosed` or `OSError` before the socket is open.
  | unreachable
  -- Any other exception before the socket is open.
  | refused
  | opened (rows : List ρ) (drop : Drop)

lemma one_lt_doubling : (1 : ℚ) < 2 :=
  one_lt_two

/-- The backoff doubles from one second to a minute. -/
def reconnectPolicy : BackoffPolicy ℚ :=
  ⟨1, 60, 2, by decide +kernel, by decide +kernel, one_lt_doubling⟩

/-- What the adapter does in an iteration: the rows it yields, the sleep, and the backoff it goes on
with; without one, the exception leaves the stream. -/
structure Handled (ρ : Type) where
  rows : List ρ
  sleep : Option ℚ
  backoff : Option (Backoff reconnectPolicy)

/-- The two ways of the adapters to stay connected. -/
inductive Plumbing
  | connect
  | wsMessages
  deriving DecidableEq, Repr

section Adapter

variable {ρ : Type}

/-- `await asyncio.sleep(min(backoff, 60.0)); backoff = min(backoff * 2, 60.0)`. -/
def Handled.retry (rows : List ρ) (b : Backoff reconnectPolicy) : Handled ρ :=
  ⟨rows, some (min b.delay 60), some b.next⟩

/-- The exception is not caught. -/
def Handled.leave (rows : List ρ) : Handled ρ :=
  ⟨rows, none, none⟩

/-- An iteration of `_connect()`, whose caller reads the frames. -/
def connect (b : Backoff reconnectPolicy) : Link ρ → Handled ρ
  | .unreachable => .retry [] b
  | .refused => .leave []
  | .opened rows .clean => .retry rows (Backoff.first reconnectPolicy)
  | .opened rows .lost => .leave rows
  | .opened rows .faulty => .leave rows

/-- An iteration of `_ws_messages(url)`, which reads the frames itself. -/
def wsMessages (b : Backoff reconnectPolicy) : Link ρ → Handled ρ
  | .unreachable => .retry [] b
  | .refused => .leave []
  -- The sleep is in the `except`.
  | .opened rows .clean => ⟨rows, none, some (Backoff.first reconnectPolicy)⟩
  | .opened rows .lost => .retry rows (Backoff.first reconnectPolicy)
  | .opened rows .faulty => .leave rows

def Plumbing.handle : Plumbing → Backoff reconnectPolicy → Link ρ → Handled ρ
  | .connect => CryptoData.connect
  | .wsMessages => CryptoData.wsMessages

/-! ## Adapter and worker -/

/-- What a feed does: a row, a delay of the adapter, or one of the worker. -/
inductive FeedEvent (ρ : Type)
  | row (r : ρ)
  | reconnect (seconds : ℚ)
  | restart (seconds : ℚ)
  deriving DecidableEq

/-- The worker's state, and the backoff of the stream that is open. -/
structure FeedState where
  worker : WorkerState
  backoff : Backoff reconnectPolicy

def FeedState.init : FeedState :=
  ⟨WorkerState.init, Backoff.first reconnectPolicy⟩

/-- An iteration of the adapter and, if its stream breaks, the restart of the worker. -/
def feedStep (p : Plumbing) (s : FeedState) (link : Link ρ) (jitter : Jitter) :
    List (FeedEvent ρ) × FeedState :=
  let h := p.handle s.backoff link
  let events := h.rows.map .row ++ h.sleep.toList.map .reconnect
  match h.backoff with
  | some b => (events, ⟨s.worker, b⟩)
  | none =>
      (events ++ [.restart (sleepS s.worker.backoff jitter)],
        ⟨s.worker.restart, Backoff.first reconnectPolicy⟩)

/-- The feed over its connections; each comes with the draw of the restart it may cause. -/
def feed (p : Plumbing) : FeedState → List (Link ρ × Jitter) → List (FeedEvent ρ) × FeedState
  | s, [] => ([], s)
  | s, (link, jitter) :: links =>
      let first := feedStep p s link jitter
      let rest := feed p first.2 links
      (first.1 ++ rest.1, rest.2)

/-- The tries of the worker that the connections make up; the last one is under way. -/
def attemptsOf (p : Plumbing) :
    Backoff reconnectPolicy → List ρ → List (Link ρ × Jitter) → List (Attempt ρ)
  | _, rows, [] => [⟨rows, .cancelled, ⟨1 / 2, by decide +kernel⟩⟩]
  | b, rows, (link, jitter) :: links =>
      let h := p.handle b link
      match h.backoff with
      | some b' => attemptsOf p b' (rows ++ h.rows) links
      | none =>
          ⟨rows ++ h.rows, .crashed none, jitter⟩ ::
            attemptsOf p (Backoff.first reconnectPolicy) [] links

/-! ## What a history amounts to -/

def Link.rows : Link ρ → List ρ
  | .unreachable => []
  | .refused => []
  | .opened rows _ => rows

/-- The stream breaks. -/
def Plumbing.breaks : Plumbing → Link ρ → Bool
  | _, .unreachable => false
  | _, .refused => true
  | _, .opened _ .clean => false
  | p, .opened _ .lost => decide (p = .connect)
  | _, .opened _ .faulty => true

/-- The adapter sleeps after a connection that it has had. -/
def Plumbing.pauses : Plumbing → Drop → Bool
  | p, .clean => decide (p = .connect)
  | p, .lost => decide (p = .wsMessages)
  | _, .faulty => false

/-- How often the stream has broken. -/
def breaks (p : Plumbing) (links : List (Link ρ × Jitter)) : ℕ :=
  (links.filter fun l => p.breaks l.1).length

/-- The doublings of the backoff after the next connection. -/
def nextDoublings (p : Plumbing) (d : ℕ) : Link ρ → ℕ
  | .unreachable => d + 1
  | .refused => 0
  | .opened _ drop => (p.pauses drop).toNat

/-- The doublings of the backoff since it was set back. -/
def doublings (p : Plumbing) (links : List (Link ρ × Jitter)) : ℕ :=
  links.foldl (fun d l => nextDoublings p d l.1) 0

/-- The delay after a connection, when the stream has broken `n` times and the backoff has been
doubled `d` times. -/
def delayAfter (p : Plumbing) (n d : ℕ) (link : Link ρ) (jitter : Jitter) : Option (FeedEvent ρ) :=
  if p.breaks link then some (.restart (min (2 ^ n) 60 * (1 / 2 + jitter.val)))
  else
    match link with
    | .opened _ drop => if p.pauses drop then some (.reconnect 1) else none
    | _ => some (.reconnect (min (2 ^ d) 60))

def FeedEvent.row? : FeedEvent ρ → Option ρ
  | .row r => some r
  | _ => none

def FeedEvent.restart? : FeedEvent ρ → Option ℚ
  | .restart seconds => some seconds
  | _ => none

/-! ## One connection -/

variable (p : Plumbing)

/-- The state of a feed after `n` breaks and `d` doublings. -/
def FeedState.after (n d : ℕ) : FeedState :=
  ⟨⟨Backoff.after restartPolicy n, n⟩, Backoff.after reconnectPolicy d⟩

lemma min_delay (b : Backoff reconnectPolicy) : min b.delay 60 = b.delay :=
  min_eq_left b.le_greatest

lemma reconnect_delay (d : ℕ) : (Backoff.after reconnectPolicy d).delay = min (2 ^ d) 60 := by
  have h : (Backoff.after reconnectPolicy d).delay = min (1 * 2 ^ d) 60 := Backoff.delay_after d
  rw [h, one_mul]

/-- The rows of the connection, then the delay, whatever came before. -/
lemma feedStep_after (n d : ℕ) (link : Link ρ) (jitter : Jitter) :
    feedStep p (FeedState.after n d) link jitter =
      (link.rows.map .row ++ (delayAfter p n d link jitter).toList,
        FeedState.after (n + (p.breaks link).toNat) (nextDoublings p d link)) := by
  have hrestart : sleepS (FeedState.after n d).worker.backoff jitter =
      min (2 ^ n) 60 * (1 / 2 + jitter.val) := sleepS_after n jitter
  have hretry : min (FeedState.after n d).backoff.delay 60 = min (2 ^ d) 60 :=
    (min_delay _).trans (reconnect_delay d)
  have hfirst : min (Backoff.first reconnectPolicy).delay 60 = 1 := min_delay _
  cases link with
  | unreachable =>
      cases p with
      | connect =>
          simp only [feedStep, Plumbing.handle, connect, Handled.retry, hretry]
          rfl
      | wsMessages =>
          simp only [feedStep, Plumbing.handle, wsMessages, Handled.retry, hretry]
          rfl
  | refused =>
      cases p with
      | connect =>
          simp only [feedStep, Plumbing.handle, connect, Handled.leave, hrestart]
          rfl
      | wsMessages =>
          simp only [feedStep, Plumbing.handle, wsMessages, Handled.leave, hrestart]
          rfl
  | opened rows drop =>
      cases p with
      | connect =>
          cases drop with
          | clean =>
              simp only [feedStep, Plumbing.handle, connect, Handled.retry, hfirst]
              rfl
          | lost =>
              simp only [feedStep, Plumbing.handle, connect, Handled.leave, hrestart]
              rw [Option.toList_none, List.map_nil, List.append_nil]
              rfl
          | faulty =>
              simp only [feedStep, Plumbing.handle, connect, Handled.leave, hrestart]
              rw [Option.toList_none, List.map_nil, List.append_nil]
              rfl
      | wsMessages =>
          cases drop with
          | clean => rfl
          | lost =>
              simp only [feedStep, Plumbing.handle, wsMessages, Handled.retry, hfirst]
              rfl
          | faulty =>
              simp only [feedStep, Plumbing.handle, wsMessages, Handled.leave, hrestart]
              rw [Option.toList_none, List.map_nil, List.append_nil]
              rfl

/-! ## A feed over its connections -/

lemma feed_append :
    ∀ (links later : List (Link ρ × Jitter)) (s : FeedState),
      feed p s (links ++ later) =
        ((feed p s links).1 ++ (feed p (feed p s links).2 later).1,
          (feed p (feed p s links).2 later).2)
  | [], _, _ => rfl
  | (link, jitter) :: links, later, s => by
      rw [List.cons_append, feed, feed, feed_append links later, List.append_assoc]

/-- The state of a feed is its number of breaks and its number of doublings. -/
lemma feed_state (links : List (Link ρ × Jitter)) :
    (feed p FeedState.init links).2 = FeedState.after (breaks p links) (doublings p links) := by
  induction links using List.reverseRecOn with
  | nil => rfl
  | append_singleton links l ih =>
      have hbreaks : breaks p (links ++ [l]) = breaks p links + (p.breaks l.1).toNat := by
        rw [breaks, List.filter_append, List.length_append]
        cases hl : p.breaks l.1 with
        | true => simp [breaks, hl]
        | false => simp [breaks, hl]
      have hdoublings : doublings p (links ++ [l]) = nextDoublings p (doublings p links) l.1 :=
        List.foldl_concat _ _ _ _
      rw [feed_append, ih, hbreaks, hdoublings]
      exact congrArg Prod.snd (feedStep_after p _ _ l.1 l.2)

/-- What the feed does at one more connection. -/
theorem feed_snoc (links : List (Link ρ × Jitter)) (link : Link ρ) (jitter : Jitter) :
    (feed p FeedState.init (links ++ [(link, jitter)])).1 =
      (feed p FeedState.init links).1 ++ (link.rows.map .row ++
        (delayAfter p (breaks p links) (doublings p links) link jitter).toList) := by
  have hstep : (feed p (FeedState.after (breaks p links) (doublings p links))
      [(link, jitter)]).1 = link.rows.map .row ++
        (delayAfter p (breaks p links) (doublings p links) link jitter).toList := by
    rw [feed, feedStep_after, feed, List.append_nil]
  rw [feed_append, feed_state, hstep]

/-! ## The worker's part -/

/-- The rows of a feed. -/
def rowsOf (events : List (FeedEvent ρ)) : List ρ :=
  events.filterMap FeedEvent.row?

/-- The delays of its worker. -/
def restartsOf (events : List (FeedEvent ρ)) : List ℚ :=
  events.filterMap FeedEvent.restart?

lemma rowsOf_append (events later : List (FeedEvent ρ)) :
    rowsOf (events ++ later) = rowsOf events ++ rowsOf later :=
  List.filterMap_append

lemma restartsOf_append (events later : List (FeedEvent ρ)) :
    restartsOf (events ++ later) = restartsOf events ++ restartsOf later :=
  List.filterMap_append

lemma rowsOf_feedStep (s : FeedState) (link : Link ρ) (jitter : Jitter) :
    rowsOf (feedStep p s link jitter).1 = (p.handle s.backoff link).rows := by
  have hrows : ∀ rows : List ρ, rowsOf (rows.map FeedEvent.row) = rows := by
    intro rows
    rw [rowsOf, List.filterMap_map]
    exact List.filterMap_some
  have hsleep : ∀ sleep : Option ℚ,
      rowsOf (sleep.toList.map FeedEvent.reconnect : List (FeedEvent ρ)) = [] := by
    intro sleep
    cases sleep with
    | none => rfl
    | some seconds => rfl
  unfold feedStep
  cases hbackoff : (p.handle s.backoff link).backoff with
  | some b =>
      simp only [hbackoff]
      rw [rowsOf_append, hrows, hsleep, List.append_nil]
  | none =>
      simp only [hbackoff]
      rw [rowsOf_append, rowsOf_append, hrows, hsleep, List.append_nil]
      exact List.append_nil _

lemma restartsOf_feedStep (s : FeedState) (link : Link ρ) (jitter : Jitter) :
    restartsOf (feedStep p s link jitter).1 =
      if (p.handle s.backoff link).backoff.isSome then []
      else [sleepS s.worker.backoff jitter] := by
  have hrows : ∀ rows : List ρ, restartsOf (rows.map FeedEvent.row) = [] := by
    intro rows
    refine List.filterMap_eq_nil_iff.2 ?_
    intro e he
    rcases List.mem_map.1 he with ⟨r, _, rfl⟩
    rfl
  have hsleep : ∀ sleep : Option ℚ,
      restartsOf (sleep.toList.map FeedEvent.reconnect : List (FeedEvent ρ)) = [] := by
    intro sleep
    cases sleep with
    | none => rfl
    | some seconds => rfl
  unfold feedStep
  cases hbackoff : (p.handle s.backoff link).backoff with
  | some b =>
      simp only [hbackoff]
      rw [restartsOf_append, hrows, hsleep]
      rfl
  | none =>
      simp only [hbackoff]
      rw [restartsOf_append, restartsOf_append, hrows, hsleep]
      rfl

lemma handle_rows (b : Backoff reconnectPolicy) (link : Link ρ) :
    (p.handle b link).rows = link.rows := by
  cases p with
  | connect =>
      cases link with
      | unreachable => rfl
      | refused => rfl
      | opened rows drop => cases drop <;> rfl
  | wsMessages =>
      cases link with
      | unreachable => rfl
      | refused => rfl
      | opened rows drop => cases drop <;> rfl

/-- All rows of all connections, once and in order. -/
lemma rowsOf_feed : ∀ (links : List (Link ρ × Jitter)) (s : FeedState),
    rowsOf (feed p s links).1 = links.flatMap fun l => l.1.rows
  | [], _ => rfl
  | (link, jitter) :: links, s => by
      have hcons : (feed p s ((link, jitter) :: links)).1 =
          (feedStep p s link jitter).1 ++ (feed p (feedStep p s link jitter).2 links).1 := rfl
      have hfirst := rowsOf_feedStep p s link jitter
      rw [handle_rows] at hfirst
      rw [List.flatMap_cons, ← hfirst, ← rowsOf_feed links (feedStep p s link jitter).2, hcons]
      exact rowsOf_append _ _

variable [Row ρ] (w : IngestWorker)

/-- The worker that supervises the streams of the feed appends its rows and sleeps its restarts. -/
theorem run_attemptsOf :
    ∀ (links : List (Link ρ × Jitter)) (s : FeedState) (rows : List ρ),
      appended (w.run s.worker (attemptsOf p s.backoff rows links)) =
          rows ++ rowsOf (feed p s links).1 ∧
        sleeps (w.run s.worker (attemptsOf p s.backoff rows links)) =
          restartsOf (feed p s links).1
  | [], s, rows => by
      have hlast : w.run s.worker (attemptsOf p s.backoff rows []) =
          w.consume ⟨rows, .cancelled, ⟨1 / 2, by decide +kernel⟩⟩ := rfl
      rw [hlast, appended_consume, sleeps_consume]
      exact ⟨rfl, rfl⟩
  | (link, jitter) :: links, s, rows => by
      have hcons : (feed p s ((link, jitter) :: links)).1 =
          (feedStep p s link jitter).1 ++ (feed p (feedStep p s link jitter).2 links).1 := rfl
      have hrows := rowsOf_feedStep p s link jitter
      have hrestarts := restartsOf_feedStep p s link jitter
      rw [hcons, rowsOf_append, restartsOf_append, hrows, hrestarts]
      cases hbackoff : (p.handle s.backoff link).backoff with
      | some b =>
          have hattempts : attemptsOf p s.backoff rows ((link, jitter) :: links) =
              attemptsOf p b (rows ++ (p.handle s.backoff link).rows) links := by
            simp only [attemptsOf, hbackoff]
          have hnext : (feedStep p s link jitter).2 = ⟨s.worker, b⟩ := by
            simp only [feedStep, hbackoff]
          have hrest := run_attemptsOf links ⟨s.worker, b⟩
            (rows ++ (p.handle s.backoff link).rows)
          rw [hattempts, hnext, hrest.1, hrest.2, List.append_assoc]
          exact ⟨rfl, rfl⟩
      | none =>
          have hattempts : attemptsOf p s.backoff rows ((link, jitter) :: links) =
              ⟨rows ++ (p.handle s.backoff link).rows, .crashed none, jitter⟩ ::
                attemptsOf p (Backoff.first reconnectPolicy) [] links := by
            simp only [attemptsOf, hbackoff]
          have hnext : (feedStep p s link jitter).2 =
              ⟨s.worker.restart, Backoff.first reconnectPolicy⟩ := by
            simp only [feedStep, hbackoff]
          have hrest := run_attemptsOf links ⟨s.worker.restart, Backoff.first reconnectPolicy⟩ []
          have hbetween : appended (w.beforeRestart s.worker jitter : List (WorkerCall ρ)) = [] :=
            rfl
          have hdelay : sleeps (w.beforeRestart s.worker jitter : List (WorkerCall ρ)) =
              [sleepS s.worker.backoff jitter] := rfl
          rw [hattempts, run_of_restarts w s.worker _ rfl, appended_append, appended_append,
            sleeps_append, sleeps_append, appended_consume, sleeps_consume, hbetween, hdelay, hnext,
            hrest.1, hrest.2]
          refine ⟨?_, rfl⟩
          simp [Attempt.delivered, Finish.handled]

/-- However its connections fail, a feed hands on all their rows once and in order, and the delay
after each is that of `delayAfter`; the worker over its streams appends the rows and sleeps the
restarts. -/
theorem feed_delays :
    (∀ (links : List (Link ρ × Jitter)) (link : Link ρ) (jitter : Jitter),
      (feed p FeedState.init (links ++ [(link, jitter)])).1 =
        (feed p FeedState.init links).1 ++ (link.rows.map .row ++
          (delayAfter p (breaks p links) (doublings p links) link jitter).toList)) ∧
    ∀ links : List (Link ρ × Jitter),
      appended (w.run WorkerState.init (attemptsOf p (Backoff.first reconnectPolicy) [] links)) =
          links.flatMap (fun l => l.1.rows) ∧
        sleeps (w.run WorkerState.init (attemptsOf p (Backoff.first reconnectPolicy) [] links)) =
          restartsOf (feed p FeedState.init links).1 := by
  refine ⟨feed_snoc p, fun links => ?_⟩
  have hrun := run_attemptsOf p w links FeedState.init []
  rw [List.nil_append, rowsOf_feed] at hrun
  exact hrun

end Adapter

/-- The same outages, once for each way of reading the frames. -/
def lostTwice : List (Link ℕ × Jitter) :=
  let jitter : Jitter := ⟨1 / 4, by decide +kernel⟩
  [(.opened [1] .lost, jitter), (.unreachable, jitter), (.opened [2] .lost, jitter)]

example : (feed .connect FeedState.init lostTwice).1 =
    [.row 1, .restart (3 / 4), .reconnect 1, .row 2, .restart (3 / 2)] := by decide +kernel

example : (feed .wsMessages FeedState.init lostTwice).1 =
    [.row 1, .reconnect 1, .reconnect 2, .row 2, .reconnect 1] := by decide +kernel

end CryptoData
