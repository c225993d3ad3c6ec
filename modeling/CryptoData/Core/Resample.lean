import CryptoData.Core.Trade
import CryptoData.Foundation.Bucket
import Mathlib.Algebra.Order.Field.Basic

/-!
# Resample — one-second bars to higher timeframes

Left-closed, left-labelled: a window of width `T` is `[kT, (k+1)T)` and its label is `kT`.  Rows of
a window are aggregated in their order; windows without rows are dropped.
-/

namespace CryptoData

open Foundation

/-- What a timeframe string denotes: `1s` is the copy branch, everything else a window width. -/
inductive Timeframe
  | oneSecond
  | windows (widthNs : ℕ) (pos : 0 < widthNs)

/-- The label of the window of width `widthNs` that holds `tsNs`. -/
def windowLabel (widthNs : ℕ) (tsNs : Int) : Int :=
  tsNs / widthNs * widthNs

/-- The aggregation map `_AGG`, with the volume-weighted `vwap`; an empty window has no bar. -/
def rollWindow (label : Int) : List Bar → Option Bar
  | [] => none
  | first :: rest =>
      let group := first :: rest
      let volume := (group.map Bar.volume).sum
      let close := (group.getLast (by simp [group])).close
      some
        { tsNs := label
          symbol := first.symbol
          venue := first.venue
          «open» := first.open
          high := (group.map Bar.high).max (by simp [group])
          low := (group.map Bar.low).min (by simp [group])
          -- Prices and vwap of the group in stored order; `sources_mask` and the stamp by maximum.
          close := close
          volume := volume
          vwap := if volume > 0 then (group.map fun b => b.vwap * b.volume).sum / volume else close
          trades := (group.map Bar.trades).sum
          sourcesMask := (group.map Bar.sourcesMask).max (by simp [group])
          ingestedAtNs := (group.filterMap Bar.ingestedAtNs).max? }

/-- `resample_bars(bars_1s, timeframe)`. -/
def resampleBars (bars : List Bar) : Timeframe → List Bar
  | .oneSecond => bars
  | .windows widthNs _ =>
      let byWindow := bucket (fun b : Bar => windowLabel widthNs b.tsNs) bars
      byWindow.sortedKeys.filterMap fun label => rollWindow label (byWindow.getD label [])

end CryptoData
