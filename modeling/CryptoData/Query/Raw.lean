import CryptoData.Quality.Report
import CryptoData.Scripts.Backfill
import CryptoData.Sources.CoinbaseBook
import CryptoData.Sources.GeminiQuotes
import CryptoData.Storage.History

/-!
# Raw — the queries for stored rows

`get_trades`, `get_quotes`, `get_funding`, `get_ref_bars` and `get_book_snapshots` are one `SELECT`
over the view of a table: the rows of a symbol in `[start, end)`, of some venues or of all, in order
of time and venue.  The view reads all part files of the table and takes symbol and venue from the
directories.

What such a query returns depends on the tree only through the rows in its directories
(`coe_run`), so compactions do not show.  After any history of the tree that ends with a
`flush_all`, each query returns what has been stored for it, each row as often as it was stored,
exactly if no flush has failed (`raw_queries_complete_iff`).
-/

namespace CryptoData

open Foundation

/-! ## The view of a table -/

/-- `venues`. -/
inductive VenueArg
  | none
  | one (venue : String)
  | many (venues : List String)

/-- The condition on `venue`. -/
def VenueArg.admits : VenueArg → String → Bool
  | .none, _ => true
  -- The one name "all" stands for no condition.
  | .one v, venue => decide (v = "all") || decide (venue = v)
  | .many vs, venue => vs.contains venue

/-- What distinguishes the queries: the table, a condition on other columns, and the order. -/
structure RawQuery (ρ : Type) where
  table : String
  keep : ρ → Bool := fun _ => true
  byVenue : Bool := false

section Query

variable {ρ : Type}

/-- `SELECT * FROM read_parquet('<table>/**/*.parquet', hive_partitioning=true)`. -/
def viewRows (s : Store ρ) (table : String) : List (Partition × ρ) :=
  (s.entries.filter fun e => decide (e.1.partition.table = table)).flatMap fun e =>
    e.2.map fun r => (e.1.partition, r)

variable [Row ρ]

namespace RawQuery

variable (q : RawQuery ρ)

/-- The `WHERE`. -/
def selects (symbol : String) (venues : VenueArg) (startNs endNs : Int) (row : Partition × ρ) :
    Bool :=
  decide (row.1.symbol = symbol) && decide (Row.tsNs row.2 ≥ startNs) &&
    decide (Row.tsNs row.2 < endNs) && venues.admits row.1.venue && q.keep row.2

/-- The `ORDER BY`. -/
def key (row : Partition × ρ) : String ×ₗ (Int ×ₗ String) :=
  if q.byVenue then toLex (row.1.venue, toLex (Row.tsNs row.2, ""))
  else toLex ("", toLex (Row.tsNs row.2, row.1.venue))

def run (scan : Scan) (s : Store ρ) (symbol : String) (venues : VenueArg) (startNs endNs : Int) :
    List (Partition × ρ) :=
  ((scan.rows (viewRows s q.table)).filter (q.selects symbol venues startNs endNs)).insertionSort
    fun a b => q.key a ≤ q.key b

end RawQuery

end Query

/-! ## The queries -/

instance : Row Funding where
  tsNs := Funding.tsNs
  symbol := Funding.symbol
  venue := Funding.venue

instance : Row RefBar where
  tsNs := RefBar.tsNs
  symbol := RefBar.symbol
  venue := RefBar.venue

instance : Row BookSnapshot where
  tsNs := BookSnapshot.tsNs
  symbol := BookSnapshot.symbol
  venue := BookSnapshot.venue

instance : Row GeminiSpot.Quote where
  tsNs := GeminiSpot.Quote.tsNs
  symbol := GeminiSpot.Quote.symbol
  venue := GeminiSpot.Quote.venue

/-- A row of the frame of `get_trades`; the index is `ts`. -/
structure TradeTick where
  ts : Int
  recvNs : Option Int
  venue : String
  price : ℚ
  size : Option ℚ
  side : Int
  tradeId : Option String
  deriving DecidableEq, Repr

def tradesQuery : RawQuery Trade where
  table := "trades"

def getTrades (scan : Scan) (s : Store Trade) (symbol : String) (startNs endNs : Int)
    (venues : VenueArg) : List TradeTick :=
  (tradesQuery.run scan s symbol venues startNs endNs).map fun row =>
    { ts := row.2.tsNs, recvNs := row.2.recvNs, venue := row.1.venue, price := row.2.price
      size := row.2.size, side := row.2.side, tradeId := row.2.tradeId }

/-- A row of the frame of `get_quotes`. -/
structure QuoteTick where
  ts : Int
  recvNs : Int
  venue : String
  bidPx : ℚ
  askPx : ℚ
  bidSz : ℚ
  askSz : ℚ
  deriving DecidableEq, Repr

def quotesQuery : RawQuery GeminiSpot.Quote where
  table := "quotes"

def getQuotes (scan : Scan) (s : Store GeminiSpot.Quote) (symbol : String) (startNs endNs : Int)
    (venues : VenueArg) : List QuoteTick :=
  (quotesQuery.run scan s symbol venues startNs endNs).map fun row =>
    { ts := row.2.tsNs, recvNs := row.2.recvNs, venue := row.1.venue, bidPx := row.2.bidPx
      askPx := row.2.askPx, bidSz := row.2.bidSz, askSz := row.2.askSz }

/-- A row of the frame of `get_funding`. -/
structure FundingTick where
  ts : Int
  recvNs : Int
  venue : String
  fundingRate : ℚ
  markPrice : Option ℚ
  nextTsNs : Option Int
  deriving DecidableEq, Repr

def fundingQuery : RawQuery Funding where
  table := "funding"

def getFunding (scan : Scan) (s : Store Funding) (symbol : String) (startNs endNs : Int)
    (venues : VenueArg) : List FundingTick :=
  (fundingQuery.run scan s symbol venues startNs endNs).map fun row =>
    { ts := row.2.tsNs, recvNs := row.2.recvNs, venue := row.1.venue
      fundingRate := row.2.fundingRate, markPrice := row.2.markPrice, nextTsNs := row.2.nextTsNs }

/-- A row of the frame of `get_ref_bars`. -/
structure RefBarTick where
  ts : Int
  venue : String
  «open» : ℚ
  high : ℚ
  low : ℚ
  close : ℚ
  volume : ℚ
  trades : ℕ
  deriving DecidableEq, Repr

/-- `interval` is one more condition, and the venues come one after the other. -/
def refBarsQuery (interval : String) : RawQuery RefBar where
  table := "bars_ref"
  keep := fun r => decide (r.interval = interval)
  byVenue := true

def getRefBars (scan : Scan) (s : Store RefBar) (symbol : String) (startNs endNs : Int)
    (interval : String) (venues : VenueArg) : List RefBarTick :=
  ((refBarsQuery interval).run scan s symbol venues startNs endNs).map fun row =>
    { ts := row.2.tsNs, venue := row.1.venue, «open» := row.2.open, high := row.2.high
      low := row.2.low, close := row.2.close, volume := row.2.volume, trades := row.2.trades }

/-- A row of the frame of `get_book_snapshots`. -/
structure BookTick where
  ts : Int
  recvNs : Int
  venue : String
  depth : ℕ
  bids : List (ℚ × ℚ)
  asks : List (ℚ × ℚ)
  deriving DecidableEq, Repr

def bookQuery : RawQuery BookSnapshot where
  table := "book_l2_snapshot"

/-- `venue = ?`, so "all" is a name like any other here. -/
def getBookSnapshots (scan : Scan) (s : Store BookSnapshot) (symbol : String)
    (startNs endNs : Int) (venue : String) (levels : Option ℕ) : List BookTick :=
  (bookQuery.run scan s symbol (.many [venue]) startNs endNs).map fun row =>
    { ts := row.2.tsNs, recvNs := row.2.recvNs, venue := row.1.venue, depth := row.2.depth
      bids := levels.elim row.2.bids row.2.bids.take
      asks := levels.elim row.2.asks row.2.asks.take }

/-! ## What a query returns -/

section Query

variable {ρ : Type}

/-- The view shows the rows in the directories of the table. -/
lemma coe_viewRows (s : Store ρ) (table : String) :
    (viewRows s table : Multiset (Partition × ρ)) =
      s.located.filter fun row => row.1.table = table := by
  rw [s.filter_located fun dir => dir.table = table, viewRows]
  induction s.entries.filter fun e => decide (e.1.partition.table = table) with
  | nil => rfl
  | cons e es ih =>
      rw [List.flatMap_cons, ← Multiset.coe_add, ih, List.map_cons, List.sum_cons]

variable [Row ρ] (q : RawQuery ρ) (scan : Scan) (symbol : String) (venues : VenueArg)
variable (startNs endNs : Int)

/-- The rows of a table that a query asks for. -/
def RawQuery.wants (row : Partition × ρ) : Bool :=
  decide (row.1.table = q.table) && q.selects symbol venues startNs endNs row

/-- A query returns the wanted rows of the tree, each as often as it lies there. -/
lemma RawQuery.coe_run (s : Store ρ) :
    (q.run scan s symbol venues startNs endNs : Multiset (Partition × ρ)) =
      s.located.filter fun row => q.wants symbol venues startNs endNs row = true := by
  have hperm := (List.perm_insertionSort (fun a b => q.key a ≤ q.key b) _).trans
    ((scan.rows_perm (viewRows s q.table)).filter (q.selects symbol venues startNs endNs))
  have hview : (q.run scan s symbol venues startNs endNs : Multiset (Partition × ρ)) =
      ((viewRows s q.table).filter (q.selects symbol venues startNs endNs) :
        List (Partition × ρ)) := Multiset.coe_eq_coe.2 hperm
  have hfilter : ((viewRows s q.table).filter (q.selects symbol venues startNs endNs) :
      Multiset (Partition × ρ)) = (viewRows s q.table : Multiset (Partition × ρ)).filter fun row =>
        q.selects symbol venues startNs endNs row = true := by
    rw [Multiset.filter_coe]
    simp only [Bool.decide_eq_true]
  rw [hview, hfilter, coe_viewRows, Multiset.filter_filter]
  refine Multiset.filter_congr ?_
  intro row _
  rw [wants, Bool.and_eq_true, decide_eq_true_iff]
  exact and_comm

lemma RawQuery.run_sorted (s : Store ρ) :
    (q.run scan s symbol venues startNs endNs).Pairwise fun a b => q.key a ≤ q.key b :=
  List.pairwise_insertionSort _ _

/-- Trees that answer all queries in the same way hold the same rows. -/
lemma eq_of_wanted_eq {stored stored' : Multiset (Partition × ρ)}
    (h : ∀ (q : RawQuery ρ) symbol venues startNs endNs,
      (stored.filter fun row => q.wants symbol venues startNs endNs row = true) =
        stored'.filter fun row => q.wants symbol venues startNs endNs row = true) :
    stored = stored' := by
  classical
  refine Multiset.ext.2 ?_
  intro row
  -- The query for the nanosecond of the row.
  let q : RawQuery ρ := { table := row.1.table }
  have hwants : q.wants row.1.symbol .none (Row.tsNs row.2) (Row.tsNs row.2 + 1) row = true := by
    simp [q, RawQuery.wants, RawQuery.selects, VenueArg.admits]
  have hcount := congrArg (Multiset.count row)
    (h q row.1.symbol .none (Row.tsNs row.2) (Row.tsNs row.2 + 1))
  rw [Multiset.count_filter, Multiset.count_filter, if_pos hwants, if_pos hwants] at hcount
  exact hcount

/-- After any appends, flushes, one-shot writes and compactions and a `flush_all`, every query
returns what was stored for it, in order, if and only if no flush has failed. -/
theorem raw_queries_complete_iff (env : WriteEnv) (cfg : WriterConfig)
    (events : List (StorageEvent ρ)) (hreadings : (readingsIn events).Nodup) :
    (∀ (q : RawQuery ρ) (scan : Scan) (symbol : String) (venues : VenueArg) (startNs endNs : Int),
        (q.run scan (runStorage env cfg (events ++ [.call .flushAll])).files symbol venues startNs
            endNs : Multiset (Partition × ρ)) =
          (storedBy events).filter (fun row => q.wants symbol venues startNs endNs row = true) ∧
        (q.run scan (runStorage env cfg (events ++ [.call .flushAll])).files symbol venues startNs
            endNs).Pairwise fun a b => q.key a ≤ q.key b) ↔
      ∀ n, n < (runStorage env cfg (events ++ [.call .flushAll])).attempts →
        env.failure n = none := by
  have hiff := located_after_flush_iff env cfg events hreadings
  constructor
  · intro hqueries n hn
    refine hiff.1 (eq_of_wanted_eq ?_) n (Nat.zero_le n) hn
    intro q symbol venues startNs endNs
    rw [← q.coe_run Scan.plain]
    exact (hqueries q Scan.plain symbol venues startNs endNs).1
  · intro hok q scan symbol venues startNs endNs
    refine ⟨?_, q.run_sorted scan symbol venues startNs endNs _⟩
    rw [q.coe_run, hiff.2 fun n _ hn => hok n hn]

end Query

/-- Two trades by way of the writer, one by a backfill, and a compaction in between. -/
def tradeHistory : List (StorageEvent Trade) :=
  let trade (ns : Int) : Trade :=
    { tsNs := ns, symbol := "BTC-USD", venue := some "kraken", price := 100 }
  [.call (.append "trades" (trade 2000) 0 0), .call .flushAll,
    .writeDataframe "trades" [trade 1000] "BTC-USD" "kraken" "1970-01-01" 5,
    .compact ⟨"trades", "BTC-USD", "kraken", "1970-01-01"⟩ 6,
    .call (.append "trades" (trade 3000) 0 0)]

theorem raw_queries_complete_trades :
    (tradesQuery.run Scan.plain
        (runStorage quietDisk {} (tradeHistory ++ [.call .flushAll])).files "BTC-USD" .none 0 3000 :
        Multiset (Partition × Trade)) =
      (storedBy tradeHistory).filter fun row =>
        tradesQuery.wants "BTC-USD" .none 0 3000 row = true :=
  ((raw_queries_complete_iff quietDisk {} tradeHistory (by decide)).2 (fun _ _ => rfl) tradesQuery
    Scan.plain "BTC-USD" .none 0 3000).1

/-- Rows of both ways come back in the order of time. -/
example : (getTrades Scan.plain
    (runStorage quietDisk {} (tradeHistory ++ [.call .flushAll])).files "BTC-USD" 0 3000
      (.one "all")).map TradeTick.ts = [1000, 2000] := by decide +kernel

end CryptoData
