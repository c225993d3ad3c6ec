import CryptoData.Core.Time
import Mathlib.Algebra.Order.Ring.Rat

/-!
# Trade — the rows that flow through the pipeline

`Trade` is a trade row as the merge and the consolidator receive it: a dictionary whose
timestamp and price are always read directly, while receive time, venue and size are read through
`dict.get` with a default.  `Bar` is a row of `bars_1s`.  Prices and sizes are exact rationals.
-/

namespace CryptoData

structure Trade where
  tsNs : Int
  recvNs : Option Int := none
  symbol : String := ""
  venue : Option String := none
  price : ℚ
  size : Option ℚ := none
  side : Int := 0
  tradeId : Option String := none
  ingestedAtNs : Int := 0
  deriving DecidableEq, Repr

namespace Trade

/-- `t.get("recv_ns", t["ts_ns"])`. -/
def recv (t : Trade) : Int :=
  t.recvNs.getD t.tsNs

/-- `t.get("venue", "")`. -/
def venueName (t : Trade) : String :=
  t.venue.getD ""

/-- `t.get("size", 0.0)`, and `t["size"]` where the key is present. -/
def qty (t : Trade) : ℚ :=
  t.size.getD 0

/-- The left edge of the trade's second. -/
def second (t : Trade) : Int :=
  secondOf t.tsNs

end Trade

/-- A row of `bars_1s`; `venue` is `agg` for the consolidated tape. -/
structure Bar where
  tsNs : Int
  symbol : String
  venue : String
  «open» : ℚ
  high : ℚ
  low : ℚ
  close : ℚ
  volume : ℚ
  vwap : ℚ
  trades : ℕ
  sourcesMask : ℕ
  ingestedAtNs : Option Int
  deriving DecidableEq, Repr

/-- What identifies a bar of a symbol: its series and its second. -/
def Bar.slot (b : Bar) : String × Int :=
  (b.venue, b.tsNs)

end CryptoData
