import CryptoData.Sources.Binance
import Mathlib.Data.List.Sort

/-!
# Bitfinex — the trades of the spot adapter

`fetchTrades` pages through the history of a pair ten thousand trades at a time, oldest first, and
sorts what it has collected.
-/

namespace CryptoData

namespace BitfinexSpot

/-! ## The REST range -/

/-- A row `[id, mts, amount, price]`. -/
structure HistRow where
  id : Int
  mts : Int
  amount : ℚ
  price : ℚ
  deriving DecidableEq, Repr

namespace HistRow

def tsNs (r : HistRow) : Int :=
  msToNs r.mts

end HistRow

/-- The `limit` of a request. -/
def histLimit : ℕ := 10000

/-- `for _ in range(2000)`. -/
def pageCap : ℕ := 2000

/-- What the venue answers to `{"limit": 10000, "sort": 1, "start": cur, "end": end_ms}`. -/
def hist (history : List HistRow) (startMs endMs : Int) : List HistRow :=
  (history.filter fun r => decide (startMs ≤ r.mts) && decide (r.mts ≤ endMs)).take histLimit

def fetchPages (history : List HistRow) (endNs : Int) : ℕ → Int → List HistRow
  | 0, _ => []
  | rounds + 1, cur =>
      match hist history cur (endNs / 1000000) with
      | [] => []
      | first :: rest =>
          let rows := first :: rest
          -- `if ts_ns > end_ns: break`
          let kept := rows.takeWhile fun r => !decide (r.tsNs > endNs)
          let newCur := (rows.getLast (List.cons_ne_nil first rest)).mts + 1
          if newCur ≤ cur ∨ rows.length < histLimit then kept
          else kept ++ fetchPages history endNs rounds newCur

/-- `fetch_trades(symbol, start_ns, end_ns)`, before the records are turned into rows. -/
def fetchTrades (history : List HistRow) (startNs endNs : Int) : List HistRow :=
  (fetchPages history endNs pageCap (startNs / 1000000)).insertionSort
    fun a b => a.tsNs ≤ b.tsNs

end BitfinexSpot

end CryptoData
