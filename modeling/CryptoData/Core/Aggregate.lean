import CryptoData.Core.Trade
import Mathlib.Algebra.Order.Field.Basic
import Mathlib.Data.List.TakeWhile

/-!
# Aggregate — one-second bars of a single venue

`barsFromTrades` is a fold with one open bar: a trade in another second emits the open bar and
opens the next, every trade updates the open bar, and the last bar is emitted at the end.

`barsFromTrades_cons` is its recursive characterisation: the leading run of trades in one second
makes the first bar, and the remaining trades make the remaining bars.  On sorted trades the bars
are therefore one per second, in strictly increasing order.
-/

namespace CryptoData

/-! ## The algorithm -/

/-- The local variables of `bars_from_trades`. -/
structure BarFold where
  bars : List Bar
  current : Option Bar
  currentSecNs : Int
  cumPxv : ℚ
  cumV : ℚ

namespace BarFold

def init : BarFold :=
  ⟨[], none, -1, 0, 0⟩

/-- The two fields that `_emit` fills in. -/
def closeBar (b : Bar) (cumPxv cumV : ℚ) : Bar :=
  { b with vwap := if cumV > 0 then cumPxv / cumV else b.close, volume := cumV }

/-- `_emit()`. -/
def emit (s : BarFold) : BarFold :=
  match s.current with
  | none => s
  | some b => { s with bars := s.bars ++ [closeBar b s.cumPxv s.cumV] }

/-- The dictionary literal of a new bar. -/
def openBar (symbol venue : String) (nowNs : Int) (t : Trade) : Bar where
  tsNs := t.second
  symbol := symbol
  venue := venue
  «open» := t.price
  high := t.price
  low := t.price
  close := t.price
  volume := 0
  vwap := t.price
  trades := 0
  sourcesMask := 0
  ingestedAtNs := some nowNs

/-- The updates that every trade makes to the open bar. -/
def touch (b : Bar) (t : Trade) : Bar :=
  { b with
    high := max b.high t.price
    low := min b.low t.price
    close := t.price
    trades := b.trades + 1 }

/-- The loop body; `t["size"]` is present in every stored row. -/
def step (symbol venue : String) (nowNs : Int) (s : BarFold) (t : Trade) : BarFold :=
  let s' :=
    -- Another second: `_emit()`, then a new bar with empty accumulators.
    if t.second ≠ s.currentSecNs then
      { s.emit with
        current := some (openBar symbol venue nowNs t)
        currentSecNs := t.second
        cumPxv := 0
        cumV := 0 }
    else
      s
  { s' with
    current := s'.current.map fun b => touch b t
    cumPxv := s'.cumPxv + t.price * t.qty
    cumV := s'.cumV + t.qty }

end BarFold

/-- `bars_from_trades(trades, symbol=..., venue=...)` at the clock reading `nowNs`. -/
def barsFromTrades (symbol venue : String) (nowNs : Int) (trades : List Trade) : List Bar :=
  (trades.foldl (BarFold.step symbol venue nowNs) BarFold.init).emit.bars

/-! ## The leading second -/

/-- The bar of a run of trades that starts with `first`. -/
def secondBar (symbol venue : String) (nowNs : Int) (first : Trade) (rest : List Trade) : Bar :=
  BarFold.closeBar
    ((first :: rest).foldl BarFold.touch (BarFold.openBar symbol venue nowNs first))
    ((first :: rest).map fun t => t.price * t.qty).sum ((first :: rest).map Trade.qty).sum

section Recursion

variable (symbol venue : String) (nowNs : Int)

open BarFold

/-- Bars already emitted stay in front. -/
lemma emit_bars_foldl (xs : List Bar) :
    ∀ (trades : List Trade) (s : BarFold),
      (trades.foldl (step symbol venue nowNs) { s with bars := xs ++ s.bars }).emit.bars =
        xs ++ (trades.foldl (step symbol venue nowNs) s).emit.bars
  | [], s => by
      cases hcurrent : s.current with
      | none => simp [emit, hcurrent]
      | some b => simp [emit, hcurrent]
  | t :: trades, s => by
      have hstep : step symbol venue nowNs { s with bars := xs ++ s.bars } t =
          { step symbol venue nowNs s t with
            bars := xs ++ (step symbol venue nowNs s t).bars } := by
        -- The step looks at the emitted bars only to append to them.
        by_cases hsec : t.second = s.currentSecNs
        · simp [step, hsec]
        · cases hcurrent : s.current with
          | none => simp [step, hsec, emit, hcurrent]
          | some b => simp [step, hsec, emit, hcurrent]
      rw [List.foldl_cons, List.foldl_cons, hstep]
      exact emit_bars_foldl xs trades _

/-- A trade never lies in the second that the fold starts with. -/
lemma second_ne_neg_one (t : Trade) : t.second ≠ -1 := by
  intro h
  have hgrid := secondOf_emod t.tsNs
  rw [show secondOf t.tsNs = -1 from h] at hgrid
  exact absurd hgrid (by decide)

lemma step_init (t : Trade) :
    step symbol venue nowNs init t =
      ⟨[], some (touch (openBar symbol venue nowNs t) t), t.second, t.price * t.qty, t.qty⟩ := by
  have hsec : t.second ≠ -1 := second_ne_neg_one t
  simp [step, init, emit, hsec]

/-- With a bar open, the trades of its second are folded into it; the rest starts afresh. -/
lemma emit_bars_open (sec : Int) :
    ∀ (trades : List Trade) (b : Bar) (pxv v : ℚ),
      (trades.foldl (step symbol venue nowNs) ⟨[], some b, sec, pxv, v⟩).emit.bars =
        closeBar ((trades.takeWhile fun t => decide (t.second = sec)).foldl touch b)
            (pxv + ((trades.takeWhile fun t => decide (t.second = sec)).map
              fun t => t.price * t.qty).sum)
            (v + ((trades.takeWhile fun t => decide (t.second = sec)).map Trade.qty).sum) ::
          barsFromTrades symbol venue nowNs (trades.dropWhile fun t => decide (t.second = sec))
  | [], b, pxv, v => by simp [emit, barsFromTrades, init]
  | t :: trades, b, pxv, v => by
      by_cases hsec : t.second = sec
      · have hstep : step symbol venue nowNs ⟨[], some b, sec, pxv, v⟩ t =
            ⟨[], some (touch b t), sec, pxv + t.price * t.qty, v + t.qty⟩ := by
          simp [step, hsec]
        rw [List.foldl_cons, hstep, emit_bars_open sec trades]
        simp [hsec, add_assoc]
      · -- Another second: the open bar is emitted and the fold restarts on this trade.
        have hstep : step symbol venue nowNs ⟨[], some b, sec, pxv, v⟩ t =
            { step symbol venue nowNs init t with
              bars := [closeBar b pxv v] ++ (step symbol venue nowNs init t).bars } := by
          rw [step_init]
          simp [step, hsec, emit]
        rw [List.foldl_cons, hstep, emit_bars_foldl]
        simp [hsec, barsFromTrades]

/-- The leading run of one second makes the first bar, the rest of the trades the others. -/
theorem barsFromTrades_cons (t : Trade) (trades : List Trade) :
    barsFromTrades symbol venue nowNs (t :: trades) =
      secondBar symbol venue nowNs t (trades.takeWhile fun u => decide (u.second = t.second)) ::
        barsFromTrades symbol venue nowNs
          (trades.dropWhile fun u => decide (u.second = t.second)) := by
  have hopen := emit_bars_open symbol venue nowNs t.second trades
    (touch (openBar symbol venue nowNs t) t) (t.price * t.qty) t.qty
  rw [← step_init] at hopen
  exact hopen

/-- Induction over the runs of equal seconds, the recursion of `barsFromTrades_cons`. -/
@[elab_as_elim]
theorem secondRuns_induction {P : List Trade → Prop} (nil : P [])
    (cons : ∀ t trades, P (trades.dropWhile fun u => decide (u.second = t.second)) →
      P (t :: trades)) : ∀ trades, P trades := by
  -- The rest of the list after a run is shorter; the induction is on a bound of the length.
  have hall : ∀ (n : ℕ) (trades : List Trade), trades.length ≤ n → P trades := by
    intro n
    induction n with
    | zero =>
        intro trades hlen
        rw [List.length_eq_zero_iff.1 (Nat.le_zero.1 hlen)]
        exact nil
    | succ n ih =>
        intro trades hlen
        cases trades with
        | nil => exact nil
        | cons t trades =>
            refine cons t trades (ih _ ?_)
            exact le_trans (List.dropWhile_sublist _).length_le (Nat.le_of_succ_le_succ hlen)
  intro trades
  exact hall trades.length trades (le_refl _)

/-! ## The labels of the bars -/

lemma foldl_touch_labels (trades : List Trade) :
    ∀ b : Bar, (trades.foldl touch b).tsNs = b.tsNs ∧ (trades.foldl touch b).symbol = b.symbol ∧
      (trades.foldl touch b).venue = b.venue := by
  induction trades with
  | nil =>
      intro b
      exact ⟨rfl, rfl, rfl⟩
  | cons t trades ih =>
      intro b
      exact ih (touch b t)

lemma secondBar_labels (t : Trade) (rest : List Trade) :
    (secondBar symbol venue nowNs t rest).tsNs = t.second ∧
      (secondBar symbol venue nowNs t rest).symbol = symbol ∧
      (secondBar symbol venue nowNs t rest).venue = venue :=
  foldl_touch_labels (t :: rest) (openBar symbol venue nowNs t)

/-- Every bar carries the symbol and venue it was built for, and the second of some trade. -/
theorem labels_of_mem_barsFromTrades (trades : List Trade) :
    ∀ b ∈ barsFromTrades symbol venue nowNs trades,
      b.symbol = symbol ∧ b.venue = venue ∧ ∃ t ∈ trades, b.tsNs = t.second := by
  induction trades using secondRuns_induction with
  | nil =>
      intro b hb
      cases hb
  | cons t trades ih =>
      intro b hb
      rw [barsFromTrades_cons] at hb
      rcases List.mem_cons.1 hb with rfl | hb
      · have hlabels := secondBar_labels symbol venue nowNs t
          (trades.takeWhile fun u => decide (u.second = t.second))
        exact ⟨hlabels.2.1, hlabels.2.2, t, List.mem_cons_self, hlabels.1⟩
      · rcases ih b hb with ⟨hsymbol, hvenue, u, hu, hts⟩
        have hmem : u ∈ trades := (List.dropWhile_sublist _).subset hu
        exact ⟨hsymbol, hvenue, u, List.mem_cons_of_mem t hmem, hts⟩

lemma foldl_touch_stamp (trades : List Trade) :
    ∀ b : Bar, (trades.foldl touch b).ingestedAtNs = b.ingestedAtNs := by
  induction trades with
  | nil =>
      intro b
      rfl
  | cons t trades ih =>
      intro b
      exact ih (touch b t)

/-- Every bar carries the clock reading of its run. -/
theorem stamp_of_mem_barsFromTrades (trades : List Trade) :
    ∀ b ∈ barsFromTrades symbol venue nowNs trades, b.ingestedAtNs = some nowNs := by
  induction trades using secondRuns_induction with
  | nil =>
      intro b hb
      cases hb
  | cons t trades ih =>
      intro b hb
      rw [barsFromTrades_cons] at hb
      rcases List.mem_cons.1 hb with rfl | hb
      · exact foldl_touch_stamp (t :: _) (openBar symbol venue nowNs t)
      · exact ih b hb

theorem barsFromTrades_ne_nil {trades : List Trade} (h : trades ≠ []) :
    barsFromTrades symbol venue nowNs trades ≠ [] := by
  cases trades with
  | nil => exact absurd rfl h
  | cons t trades =>
      rw [barsFromTrades_cons]
      exact List.cons_ne_nil _ _

/-- After the leading run of a sorted list only later seconds remain. -/
lemma second_lt_of_mem_dropWhile {t : Trade} {trades : List Trade}
    (hsorted : (t :: trades).Pairwise fun x y => x.tsNs ≤ y.tsNs) {u : Trade}
    (hu : u ∈ trades.dropWhile fun u => decide (u.second = t.second)) : t.second < u.second := by
  have hcons := List.pairwise_cons.1 hsorted
  cases hrest : trades.dropWhile fun u => decide (u.second = t.second) with
  | nil => simp [hrest] at hu
  | cons v rest =>
      have hsub := List.dropWhile_sublist (fun u : Trade => decide (u.second = t.second))
        (l := trades)
      have hv : v ∈ trades := hsub.subset (by simp [hrest])
      have hle : t.second ≤ v.second := secondOf_mono (hcons.1 v hv)
      -- The first trade that is left is in another second, and sortedness makes that a later one.
      have hne : v.second ≠ t.second := by
        have hhead := List.head_dropWhile_not (fun u : Trade => decide (u.second = t.second))
          (l := trades) (by simp [hrest])
        simpa [hrest] using hhead
      have hlt : t.second < v.second := lt_of_le_of_ne hle (Ne.symm hne)
      have htail : (v :: rest).Pairwise fun x y => x.tsNs ≤ y.tsNs := by
        rw [← hrest]
        exact hcons.2.sublist hsub
      rw [hrest] at hu
      rcases List.mem_cons.1 hu with rfl | hu
      · exact hlt
      · exact lt_of_lt_of_le hlt (secondOf_mono ((List.pairwise_cons.1 htail).1 u hu))

/-- On sorted trades the bars come in strictly increasing order of their seconds. -/
theorem barsFromTrades_sorted (trades : List Trade) :
    (trades.Pairwise fun x y => x.tsNs ≤ y.tsNs) →
      ((barsFromTrades symbol venue nowNs trades).map Bar.tsNs).Pairwise (· < ·) := by
  induction trades using secondRuns_induction with
  | nil =>
      intro _
      exact List.Pairwise.nil
  | cons t trades ih =>
      intro hsorted
      have htail : (trades.dropWhile fun u => decide (u.second = t.second)).Pairwise
          fun x y => x.tsNs ≤ y.tsNs :=
        (List.pairwise_cons.1 hsorted).2.sublist (List.dropWhile_sublist _)
      rw [barsFromTrades_cons, List.map_cons]
      refine List.pairwise_cons.2 ⟨?_, ih htail⟩
      intro ts hts
      rcases List.mem_map.1 hts with ⟨b, hb, rfl⟩
      rcases labels_of_mem_barsFromTrades symbol venue nowNs _ b hb with ⟨_, _, u, hu, hbu⟩
      rw [(secondBar_labels symbol venue nowNs t _).1, hbu]
      exact second_lt_of_mem_dropWhile hsorted hu

end Recursion

end CryptoData
