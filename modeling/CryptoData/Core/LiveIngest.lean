import CryptoData.Core.Reconciler
import CryptoData.Sources.Binance
import CryptoData.Storage.Writer

/-!
# LiveIngest — the live feed and the reconciler on one set of files

Live trades go through the buffers of the writer, the reconciler reads the newest stored timestamp
and writes what it fetches next to them.  Rows are logged together with the venue trade they came
from, which no code looks at.

The reconciler asks for what lies past the newest stored nanosecond, the adapter floors that to the
millisecond of the newest stored trade, and nobody filters the answer: a request always covers the
trade it was taken from (`query_covers_stored`).  What keeps a run free of repetitions is that no
row of the requested milliseconds is stored or buffered when the answer is written
(`stored_at_most_once`).  What a request fetches is what a round of the reconciler fetches
(`refetched_binance`).
-/

namespace CryptoData

open Foundation

/-! ## The state -/

/-- A row, with the venue trade it records. -/
structure Logged where
  trade : VenueTrade
  row : Trade
  deriving DecidableEq, Repr

instance : Row Logged where
  tsNs := fun e => e.row.tsNs
  symbol := fun e => e.row.symbol
  venue := fun e => e.row.venueName

/-- A request for `(start_ns, end_ns)` whose answer is awaited. -/
structure Request where
  symbol : String
  startNs : Int
  endNs : Int

structure Ingest where
  buffers : Buffers Logged
  files : Store Logged
  pending : Option Request

namespace Ingest

def init : Ingest :=
  ⟨Dict.empty, Dict.empty, none⟩

/-- The stored rows as the code has them. -/
def rows (s : Ingest) : Store Trade :=
  s.files.mapValues fun _ rows => rows.map Logged.row

/-- `append("trades", row)` up to the end of its locked section. -/
def append (cfg : WriterConfig) (s : Ingest) (v : VenueTrade)
    (recvNs ingestedAtNs openedNs checkedNs : Int) : Ingest :=
  { s with
    buffers := (lockedAppend cfg s.buffers "trades" ⟨v, v.streamRow recvNs ingestedAtNs⟩ openedNs
      checkedNs).1 }

/-- `_flush_key(key)`, called by an append whose buffer is full or old, or by `flush_all`. -/
def flush (s : Ingest) (key : Key) (suffixNs : Int) : Ingest :=
  let popped := lockedPop s.buffers key
  match popped.2 with
  | none => { s with buffers := popped.1 }
  | some buf =>
      match buf.rows with
      | [] => { s with buffers := popped.1 }
      | first :: rest =>
          { s with
            buffers := popped.1
            files := s.files.write (partFile key first suffixNs) (first :: rest) }

/-- The reconciler's look at one symbol; the coroutine then waits for the answer. -/
def query (s : Ingest) (symbol : String) (lookbackMinutes nowNs : Int) : Ingest :=
  let last := lastSeen (venueRows s.rows "binance" symbol) (windowStart nowNs lookbackMinutes)
  if nowNs - last < 60 * nsPerSec then s
  else { s with pending := some ⟨symbol, last + 1, nowNs⟩ }

/-- `write_dataframe` for each date, the `i`-th at the clock reading `suffixNs i`. -/
def writeByDate (symbol : String) (suffixNs : ℕ → Int) :
    Store Logged → List ((String × List Logged) × ℕ) → Store Logged
  | files, [] => files
  | files, group :: groups =>
      writeByDate symbol suffixNs
        (files.write ⟨⟨"trades", symbol, "binance", group.1.1⟩, .part (suffixNs group.2)⟩
          group.1.2) groups

/-- The answer arrives and is written, all of it. -/
def deliver (history : List VenueTrade) (s : Ingest) (ingestedAtNs : Int) (suffixNs : ℕ → Int) :
    Ingest :=
  match s.pending with
  | none => s
  | some req =>
      let fetched := (fetchTrades history req.symbol req.startNs req.endNs).map fun v =>
        Logged.mk v (v.restRow ingestedAtNs)
      let byDate := bucket (fun e : Logged => dateStr e.row.tsNs) fetched
      { s with
        files := writeByDate req.symbol suffixNs s.files byDate.entries.zipIdx
        pending := none }

end Ingest

/-- What happens next on the event loop.  `fail` is a request that raises. -/
inductive IngestStep
  | append (v : VenueTrade) (recvNs ingestedAtNs openedNs checkedNs : Int)
  | flush (key : Key) (suffixNs : Int)
  | query (symbol : String) (lookbackMinutes nowNs : Int)
  | deliver (ingestedAtNs : Int) (suffixNs : ℕ → Int)
  | fail

/-- The trade that a step appends. -/
def IngestStep.appended : IngestStep → Option VenueTrade
  | .append v _ _ _ _ => some v
  | _ => none

def Ingest.step (cfg : WriterConfig) (history : List VenueTrade) (s : Ingest) :
    IngestStep → Ingest
  | .append v recvNs ingestedAtNs openedNs checkedNs =>
      s.append cfg v recvNs ingestedAtNs openedNs checkedNs
  | .flush key suffixNs => s.flush key suffixNs
  -- The reconciler runs one request at a time.
  | .query symbol lookbackMinutes nowNs =>
      if s.pending.isSome then s else s.query symbol lookbackMinutes nowNs
  | .deliver ingestedAtNs suffixNs => s.deliver history ingestedAtNs suffixNs
  | .fail => { s with pending := none }

/-! ## What is held -/

namespace Ingest

/-- The trades of the stored rows. -/
def stored (s : Ingest) : Multiset VenueTrade :=
  (filed s.files).map fun e => e.2.trade

/-- The trades of the stored and the buffered rows. -/
def held (s : Ingest) : Multiset VenueTrade :=
  s.stored + (buffered s.buffers).map fun e => e.2.trade

end Ingest

/-- The condition on a step: a live trade is new, and when an answer is written, no trade of the
requested milliseconds is stored or buffered. -/
def Clean (s : Ingest) : IngestStep → Prop
  | .append v _ _ _ _ => v ∉ s.held
  | .deliver _ _ => ∀ req ∈ s.pending, ∀ v ∈ s.held, v.symbol = req.symbol →
      ¬ (req.startNs / 1000000 ≤ v.timeMs ∧ v.timeMs ≤ req.endNs / 1000000)
  | _ => True

instance (s : Ingest) : (step : IngestStep) → Decidable (Clean s step)
  | .append v _ _ _ _ => inferInstanceAs (Decidable (v ∉ s.held))
  | .flush _ _ => inferInstanceAs (Decidable True)
  | .query _ _ _ => inferInstanceAs (Decidable True)
  | .deliver _ _ => inferInstanceAs (Decidable (∀ req ∈ s.pending, ∀ v ∈ s.held,
      v.symbol = req.symbol →
        ¬ (req.startNs / 1000000 ≤ v.timeMs ∧ v.timeMs ≤ req.endNs / 1000000)))
  | .fail => inferInstanceAs (Decidable True)

/-- Every step of the run meets the condition in the state it is taken in. -/
def CleanRun (cfg : WriterConfig) (history : List VenueTrade) : Ingest → List IngestStep → Prop
  | _, [] => True
  | s, step :: steps => Clean s step ∧ CleanRun cfg history (s.step cfg history step) steps

/-! ## One step -/

section Step

variable {s : Ingest}

/-- A write adds at most its rows; under a name that is in use it replaces some. -/
lemma filed_write_le (files : Store Logged) (path : PartPath) (rows : List Logged) :
    filed (files.write path rows) ≤ tagged path.partition.table rows + filed files := by
  have hset := Dict.measure_set files path rows fun path (rows : List Logged) =>
    tagged path.partition.table rows
  refine le_trans ?_ hset.le
  exact Multiset.le_add_right _ _

lemma map_tagged (table : String) (rows : List Logged) :
    ((tagged table rows).map fun e => e.2.trade) =
      (rows.map Logged.trade : Multiset VenueTrade) := by
  simp [tagged, Function.comp_def]

lemma held_append (cfg : WriterConfig) (v : VenueTrade)
    (recvNs ingestedAtNs openedNs checkedNs : Int) :
    (s.append cfg v recvNs ingestedAtNs openedNs checkedNs).held = v ::ₘ s.held := by
  have hbuf := buffered_lockedAppend cfg s.buffers "trades"
    ⟨v, v.streamRow recvNs ingestedAtNs⟩ openedNs checkedNs
  unfold Ingest.held Ingest.append
  simp only [hbuf, Multiset.map_add, Multiset.map_singleton]
  rw [← add_assoc, add_comm, Multiset.singleton_add]
  rfl

/-- A pop on its own only takes rows away. -/
lemma held_pop_le (key : Key) :
    Ingest.held { s with buffers := (lockedPop s.buffers key).1 } ≤ s.held := by
  rw [Ingest.held, Ingest.held, buffered_lockedPop s.buffers key, Multiset.map_add]
  refine add_le_add_right ?_ _
  exact Multiset.le_add_left _ _

lemma held_flush_le (key : Key) (suffixNs : Int) : (s.flush key suffixNs).held ≤ s.held := by
  cases hbuf : (lockedPop s.buffers key).2 with
  | none =>
      have hflush : s.flush key suffixNs = { s with buffers := (lockedPop s.buffers key).1 } := by
        simp only [Ingest.flush, hbuf]
      rw [hflush]
      exact held_pop_le key
  | some buf =>
      cases hrows : buf.rows with
      | nil =>
          have hflush : s.flush key suffixNs =
              { s with buffers := (lockedPop s.buffers key).1 } := by
            simp only [Ingest.flush, hbuf, hrows]
          rw [hflush]
          exact held_pop_le key
      | cons first rest =>
          have hflush : s.flush key suffixNs =
              { s with
                buffers := (lockedPop s.buffers key).1
                files := s.files.write (partFile key first suffixNs) (first :: rest) } := by
            simp only [Ingest.flush, hbuf, hrows]
          have hpop := buffered_lockedPop s.buffers key
          rw [hbuf, Option.elim_some, hrows] at hpop
          have hle := Multiset.map_le_map (f := fun e : String × Logged => e.2.trade)
            (filed_write_le s.files (partFile key first suffixNs) (first :: rest))
          rw [Multiset.map_add] at hle
          rw [hflush, Ingest.held, Ingest.held, hpop, Multiset.map_add]
          -- The rows leave the buffers and enter the files.
          rw [add_left_comm, ← add_assoc]
          exact add_le_add_left hle _

lemma stored_writeByDate_le (symbol : String) (suffixNs : ℕ → Int) :
    ∀ (groups : List ((String × List Logged) × ℕ)) (files : Store Logged),
      (filed (Ingest.writeByDate symbol suffixNs files groups)).map (fun e => e.2.trade) ≤
        ((groups.flatMap fun group => group.1.2).map Logged.trade : Multiset VenueTrade) +
          (filed files).map fun e => e.2.trade
  | [], files => Multiset.le_add_left _ _
  | group :: groups, files => by
      have htail := stored_writeByDate_le symbol suffixNs groups
        (files.write ⟨⟨"trades", symbol, "binance", group.1.1⟩, .part (suffixNs group.2)⟩
          group.1.2)
      have hhead := Multiset.map_le_map (f := fun e : String × Logged => e.2.trade)
        (filed_write_le files
          ⟨⟨"trades", symbol, "binance", group.1.1⟩, .part (suffixNs group.2)⟩ group.1.2)
      rw [Multiset.map_add, map_tagged] at hhead
      refine le_trans htail (le_trans (add_le_add_right hhead _) ?_)
      rw [List.flatMap_cons, List.map_append, ← Multiset.coe_add, add_left_comm, add_assoc]

/-- An answer adds the fetched trades, each once. -/
lemma held_deliver_le (history : List VenueTrade) (ingestedAtNs : Int) (suffixNs : ℕ → Int)
    {req : Request} (hreq : s.pending = some req) :
    (s.deliver history ingestedAtNs suffixNs).held ≤
      (fetchTrades history req.symbol req.startNs req.endNs : Multiset VenueTrade) + s.held := by
  let fetched := (fetchTrades history req.symbol req.startNs req.endNs).map fun v =>
    Logged.mk v (v.restRow ingestedAtNs)
  let byDate := bucket (fun e : Logged => dateStr e.row.tsNs) fetched
  have hdeliver : s.deliver history ingestedAtNs suffixNs =
      { s with
        files := Ingest.writeByDate req.symbol suffixNs s.files byDate.entries.zipIdx
        pending := none } := by
    simp only [Ingest.deliver, hreq]
    rfl
  have hgroups : byDate.entries.zipIdx.flatMap (fun group => group.1.2) =
      byDate.entries.flatMap Prod.snd := by
    rw [← List.flatMap_map, List.zipIdx_map_fst]
  have hwrites := stored_writeByDate_le req.symbol suffixNs byDate.entries.zipIdx s.files
  have hfetched : ((byDate.entries.flatMap Prod.snd).map Logged.trade : Multiset VenueTrade) =
      fetchTrades history req.symbol req.startNs req.endNs := by
    rw [Multiset.coe_eq_coe]
    refine ((flatMap_entries_perm _ fetched).map Logged.trade).trans ?_
    simp [fetched, Function.comp_def]
  rw [hgroups, hfetched] at hwrites
  rw [hdeliver, Ingest.held, Ingest.held, ← add_assoc]
  exact add_le_add_left hwrites _

/-- A step that meets the condition repeats nothing. -/
lemma Clean.held_nodup (cfg : WriterConfig) {history : List VenueTrade}
    (hhistory : history.Nodup) (hsorted : history.Pairwise fun x y => x.timeMs ≤ y.timeMs)
    {step : IngestStep} (hclean : Clean s step) (hs : s.held.Nodup) :
    (s.step cfg history step).held.Nodup := by
  cases step with
  | append v recvNs ingestedAtNs openedNs checkedNs =>
      rw [Ingest.step, held_append]
      exact Multiset.nodup_cons.2 ⟨hclean, hs⟩
  | flush key suffixNs => exact Multiset.nodup_of_le (held_flush_le key suffixNs) hs
  | query symbol lookbackMinutes nowNs =>
      rw [Ingest.step, Ingest.query]
      split_ifs
      · exact hs
      · exact hs
      · exact hs
  | deliver ingestedAtNs suffixNs =>
      cases hreq : s.pending with
      | none =>
          rw [Ingest.step, Ingest.deliver, hreq]
          exact hs
      | some req =>
          refine Multiset.nodup_of_le (held_deliver_le history ingestedAtNs suffixNs hreq) ?_
          refine (Multiset.Nodup.add_iff (Multiset.coe_nodup.2
            (fetchTrades_nodup hhistory hsorted)) hs).2 ?_
          -- A trade on both sides would be one of the requested milliseconds that is held.
          refine Multiset.disjoint_left.2 ?_
          intro v hfetched hheld
          have hmem := mem_fetchTrades hfetched
          exact hclean req hreq v hheld hmem.2.1 hmem.2.2
  | fail => exact hs

end Step

/-- A request that was taken from a stored row of a whole millisecond asks for that millisecond
again. -/
theorem query_covers_stored (s : Ingest) (symbol : String) (lookbackMinutes nowNs timeMs : Int)
    (hlast : lastSeen (venueRows s.rows "binance" symbol) (windowStart nowNs lookbackMinutes) =
      msToNs timeMs) :
    ∀ req ∈ (s.query symbol lookbackMinutes nowNs).pending, req ∈ s.pending ∨
      req.symbol = symbol ∧ req.startNs / 1000000 = timeMs ∧ timeMs ≤ req.endNs / 1000000 := by
  intro req hreq
  by_cases hrecent : nowNs - msToNs timeMs < 60 * nsPerSec
  · have hquery : s.query symbol lookbackMinutes nowNs = s := by
      simp only [Ingest.query, hlast]
      exact if_pos hrecent
    rw [hquery] at hreq
    exact Or.inl hreq
  · have hquery : s.query symbol lookbackMinutes nowNs =
        { s with pending := some ⟨symbol, msToNs timeMs + 1, nowNs⟩ } := by
      simp only [Ingest.query, hlast]
      exact if_neg hrecent
    rw [hquery] at hreq
    have heq : ⟨symbol, msToNs timeMs + 1, nowNs⟩ = req := Option.some.inj hreq
    subst heq
    refine Or.inr ⟨rfl, ?_, ?_⟩
    · simp only [msToNs]
      omega
    · simp only [msToNs, nsPerSec] at hrecent ⊢
      omega

/-- The adapter as the reconciler sees it. -/
def binance (history : List VenueTrade) (ingestedAtNs : Int) : Source where
  name := "binance"
  fetchTrades := fun symbol startNs endNs =>
    .ok ((fetchTrades history symbol startNs endNs).map fun v => v.restRow ingestedAtNs)

/-- The answer to a request of an idle reconciler is what a round of `reconcileVenueTrades`
fetches. -/
theorem refetched_binance (history : List VenueTrade) (ingestedAtNs : Int) {s : Ingest}
    (hidle : s.pending = none) (symbol : String) (lookbackMinutes nowNs : Int) :
    refetched (binance history ingestedAtNs) (windowStart nowNs lookbackMinutes) nowNs symbol
        (venueRows s.rows "binance" symbol) =
      (s.query symbol lookbackMinutes nowNs).pending.elim [] fun req =>
        (fetchTrades history req.symbol req.startNs req.endNs).map fun v =>
          v.restRow ingestedAtNs := by
  unfold refetched Ingest.query
  by_cases hrecent : nowNs - lastSeen (venueRows s.rows "binance" symbol)
      (windowStart nowNs lookbackMinutes) < 60 * nsPerSec
  · simp only [hrecent, if_true, hidle, Option.elim_none]
  · simp only [hrecent, if_false, binance, Option.elim_some]

/-! ## Whole runs -/

section Run

variable (cfg : WriterConfig) {history : List VenueTrade}

lemma CleanRun.held_nodup (hhistory : history.Nodup)
    (hsorted : history.Pairwise fun x y => x.timeMs ≤ y.timeMs) :
    ∀ (steps : List IngestStep) {s : Ingest}, CleanRun cfg history s steps → s.held.Nodup →
      ∀ k, ((steps.take k).foldl (Ingest.step cfg history) s).held.Nodup
  | [], _, _, hs, k => by
      rw [List.take_nil]
      exact hs
  | _ :: _, _, _, hs, 0 => hs
  | _ :: steps, _, hclean, hs, k + 1 =>
      CleanRun.held_nodup hhistory hsorted steps hclean.2
        (hclean.1.held_nodup cfg hhistory hsorted hs) k

end Run

/-- In a run whose steps all meet the condition, no state stores a trade twice. -/
theorem stored_at_most_once (cfg : WriterConfig) {history : List VenueTrade}
    (hhistory : history.Nodup) (hsorted : history.Pairwise fun x y => x.timeMs ≤ y.timeMs)
    {steps : List IngestStep} (hclean : CleanRun cfg history Ingest.init steps) :
    ∀ k v, ((steps.take k).foldl (Ingest.step cfg history) Ingest.init).stored.count v ≤ 1 := by
  intro k v
  have hheld := CleanRun.held_nodup cfg hhistory hsorted steps hclean Multiset.nodup_zero k
  have hstored := Multiset.nodup_of_le (Multiset.le_add_right _ _) hheld
  exact Multiset.nodup_iff_count_le_one.1 hstored v

/-- A trade that is appended and flushed, and one that the reconciler finds. -/
theorem backfill_then_live_at_most_once :
    let old : VenueTrade := ⟨"BTC-USD", 1, 1, 1700000000000, 100, 1, false⟩
    let new : VenueTrade := ⟨"BTC-USD", 2, 2, 1700000100000, 101, 1, true⟩
    let nowNs := 1700000090000000000
    let steps : List IngestStep :=
      [.query "BTC-USD" 120 nowNs, .deliver nowNs fun n => nowNs + n,
        .append new 1700000100005000000 1700000100005000000 1700000100005000000
          1700000100005000000,
        .flush ⟨"trades", "BTC-USD", "binance", 472222⟩ 1700000160000000000]
    ∀ k v, ((steps.take k).foldl (Ingest.step {} [old, new]) Ingest.init).stored.count v ≤ 1 :=
  stored_at_most_once {} (by decide +kernel) (by decide +kernel)
    ⟨trivial, by decide +kernel, by decide +kernel, trivial, trivial⟩

/-- One trade is appended and flushed.  A run of the reconciler ninety seconds later fetches it
again and stores it a second time. -/
theorem reconcile_stores_twice :
    ¬ ∀ (cfg : WriterConfig) (history : List VenueTrade) (steps : List IngestStep),
      history.Nodup → (history.Pairwise fun x y => x.timeMs ≤ y.timeMs) →
      (steps.filterMap IngestStep.appended).Nodup →
      (∀ v ∈ steps.filterMap IngestStep.appended, v ∈ history) →
      ∀ k v, ((steps.take k).foldl (Ingest.step cfg history) Ingest.init).stored.count v ≤ 1 := by
  intro h
  let v : VenueTrade := ⟨"BTC-USD", 1, 1, 1700000000000, 100, 1, false⟩
  let nowNs := 1700000090000000000
  let steps : List IngestStep :=
    [.append v 1700000000005000000 1700000000005000000 1700000000005000000 1700000000005000000,
      .flush ⟨"trades", "BTC-USD", "binance", 472222⟩ 1700000060000000000,
      .query "BTC-USD" 120 nowNs, .deliver nowNs fun n => nowNs + n]
  have hcount := h {} [v] steps (by decide +kernel) (by decide +kernel) (by decide +kernel)
    (by decide +kernel) 4 v
  revert hcount
  decide +kernel

end CryptoData
