import CryptoData.Quality.BarSeries
import CryptoData.Quality.Report

/-!
# TradeChecks — the checks of trades and quotes

As the bar checks, these count the rows that break a rule.  Every issue carries the name of the rule
(`namedIn_checkTradeInvariants`, `namedIn_checkQuoteInvariants`), and trades in the order of their
timestamps are never called out of order (`namedIn_of_sorted_trades`).
-/

namespace CryptoData

open Foundation

/-! ## Trades -/

/-- `lag_ms`; a missing `recv_ns` makes it `NaN`. -/
def lagMs (t : Trade) : Option ℚ :=
  t.recvNs.map fun recvNs => ((recvNs - t.tsNs : Int) : ℚ) / 1000000

/-- `f"{p99:.0f}"`. -/
def p99Text (lags : List (Option ℚ)) : String :=
  if lags.all Option.isSome then fixedPoint 0 (percentile 99 (lags.filterMap id)) else "nan"

/-- `check_trade_invariants(trades)`. -/
def checkTradeInvariants (trades : List Trade) : List Issue :=
  if trades.isEmpty then
    []
  else
    let nonposPx := trades.countP fun t => decide (t.price ≤ 0)
    -- A missing size compares false.
    let nonposSz := trades.countP fun t => t.size.any fun q => decide (q ≤ 0)
    let badSide := trades.countP fun t => !([-1, 0, 1].contains t.side)
    let ts := trades.map Trade.tsNs
    let nNonmono := if ts.length ≥ 2 then (diffs ts).countP fun d => decide (d < 0) else 0
    let ids := (trades.filterMap Trade.tradeId).filter fun i => decide (i ≠ "")
    let nDup := ids.length - ids.dedup.length
    let px := trades.map Trade.price
    let med := median px
    -- More than half of the day's median away from it.
    let nWild :=
      if px.length ≥ 20 ∧ med > 0 then px.countP fun p => decide (|p - med| / med > 1 / 2) else 0
    let lags := trades.map lagMs
    let nStale := lags.countP fun lag => lag.any fun ms => decide (ms > 5000)
    issueIf "trade.nonpositive_price" .critical nonposPx "trade price <= 0" ++
    issueIf "trade.nonpositive_size" .major nonposSz "trade size <= 0" ++
    issueIf "trade.bad_side" .minor badSide "side not in \x7b-1, 0, +1\x7d" ++
    issueIf "trade.timestamps_out_of_order" .minor nNonmono
      "trades within a (symbol, venue) slice not in ts order on disk" ++
    issueIf "trade.duplicate_trade_id" .major nDup
      "repeated venue trade_id within the slice (likely double-ingest)" ++
    issueIf "trade.extreme_price" .major nWild ">50% deviation from the slice median price" ++
    issueIf "trade.high_receive_lag" .minor nStale
      (toString nStale ++ " trades with recv lag > 5s (p99 lag " ++ p99Text lags ++ " ms)")

/-! ## Quotes -/

/-- `spread_bps`; a midpoint of zero makes it `NaN`. -/
def spreadBps (q : Quote) : Option ℚ :=
  let mid := (q.bidPx + q.askPx) / 2
  if mid = 0 then none else some ((q.askPx - q.bidPx) / mid * 10000)

/-- `check_quote_invariants(quotes)`. -/
def checkQuoteInvariants (quotes : List Quote) : List Issue :=
  if quotes.isEmpty then
    []
  else
    let crossed := quotes.countP fun q => decide (q.askPx < q.bidPx - 1 / 1000000000000)
    let locked := quotes.countP fun q => decide (q.askPx = q.bidPx)
    let nonpos := quotes.countP fun q => [q.bidPx, q.askPx].any fun px => decide (px ≤ 0)
    let nWide := (quotes.map spreadBps).countP fun s => s.any fun bps => decide (bps > 500)
    issueIf "quote.crossed_book" .major crossed "ask < bid" ++
    issueIf "quote.locked_book" .info locked "ask == bid (locked)" ++
    issueIf "quote.nonpositive_price" .critical nonpos "bid or ask <= 0" ++
    issueIf "quote.implausible_spread" .minor nWide "spread > 500 bps"

/-! ## The names of the issues -/

/-- All issues are named after one of the rules. -/
def NamedIn (names : List String) (issues : List Issue) : Prop :=
  ∀ issue ∈ issues, issue.check ∈ names

section Names

variable {names : List String} {issues more : List Issue}

lemma namedIn_nil : NamedIn names [] := fun _ h => absurd h List.not_mem_nil

lemma namedIn_issueIf {check : String} {severity : Severity} {n : ℕ} {detail : String}
    (h : check ∈ names) : NamedIn names (issueIf check severity n detail) := by
  intro issue hissue
  rw [eq_of_mem_issueIf hissue]
  exact h

lemma NamedIn.append (h : NamedIn names issues) (hmore : NamedIn names more) :
    NamedIn names (issues ++ more) := by
  intro issue hissue
  rcases List.mem_append.1 hissue with hold | hnew
  · exact h issue hold
  · exact hmore issue hnew

end Names

def tradeRules : List String :=
  ["trade.nonpositive_price", "trade.nonpositive_size", "trade.bad_side",
    "trade.timestamps_out_of_order", "trade.duplicate_trade_id", "trade.extreme_price",
    "trade.high_receive_lag"]

def quoteRules : List String :=
  ["quote.crossed_book", "quote.locked_book", "quote.nonpositive_price",
    "quote.implausible_spread"]

lemma namedIn_checkTradeInvariants (trades : List Trade) :
    NamedIn tradeRules (checkTradeInvariants trades) := by
  unfold checkTradeInvariants
  by_cases hempty : trades.isEmpty = true
  · rw [if_pos hempty]
    exact namedIn_nil
  · rw [if_neg hempty]
    refine NamedIn.append (NamedIn.append (NamedIn.append (NamedIn.append (NamedIn.append
      (NamedIn.append ?_ ?_) ?_) ?_) ?_) ?_) ?_
    all_goals exact namedIn_issueIf (by decide)

lemma namedIn_checkQuoteInvariants (quotes : List Quote) :
    NamedIn quoteRules (checkQuoteInvariants quotes) := by
  unfold checkQuoteInvariants
  by_cases hempty : quotes.isEmpty = true
  · rw [if_pos hempty]
    exact namedIn_nil
  · rw [if_neg hempty]
    refine NamedIn.append (NamedIn.append (NamedIn.append ?_ ?_) ?_) ?_
    all_goals exact namedIn_issueIf (by decide)

/-- Trades in the order of their timestamps are not called out of order. -/
theorem namedIn_of_sorted_trades {trades : List Trade}
    (hsorted : (trades.map Trade.tsNs).Pairwise (· ≤ ·)) :
    NamedIn (tradeRules.erase "trade.timestamps_out_of_order") (checkTradeInvariants trades) := by
  have hcount : (if (trades.map Trade.tsNs).length ≥ 2 then
      (diffs (trades.map Trade.tsNs)).countP fun d => decide (d < 0) else 0) = 0 := by
    rw [countP_falls_eq_zero hsorted]
    exact ite_self 0
  unfold checkTradeInvariants
  by_cases hempty : trades.isEmpty = true
  · rw [if_pos hempty]
    exact namedIn_nil
  · rw [if_neg hempty]
    dsimp only
    rw [hcount]
    -- The fourth rule has nothing to count; the names of the others are still allowed.
    refine NamedIn.append (NamedIn.append (NamedIn.append (NamedIn.append (NamedIn.append
      (NamedIn.append ?_ ?_) ?_) namedIn_nil) ?_) ?_) ?_
    all_goals exact namedIn_issueIf (by decide)

end CryptoData
