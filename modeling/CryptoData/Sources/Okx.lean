import CryptoData.Foundation.StableSort
import CryptoData.Sources.Binance
import Mathlib.Algebra.BigOperators.Group.List.Basic
import Mathlib.Data.List.Sort

/-!
# Okx — the trades of the spot adapter

`fetchTrades` pages backwards from the newest trade, by trade id, until a page holds a trade older
than the window.  A page is the newest part of what is left, of any size up to a hundred, so the
pages are consecutive pieces of the history and what is kept of them is the window
(`fetchPages_eq`).
-/

namespace CryptoData

namespace OKXSpot

/-! ## The loop -/

/-- A row of `history-trades`. -/
structure TradeRow where
  tradeId : Int
  ts : Int
  px : ℚ
  sz : ℚ
  side : String
  deriving DecidableEq, Repr

namespace TradeRow

def tsNs (r : TradeRow) : Int :=
  msToNs r.ts

/-- The record that the adapter makes of a row. -/
def toTrade (symbol : String) (r : TradeRow) : Trade where
  tsNs := r.tsNs
  recvNs := some r.tsNs
  symbol := symbol
  venue := some "okx"
  price := r.px
  size := some r.sz
  side := if r.side = "buy" then 1 else -1
  tradeId := some (toString r.tradeId)

end TradeRow

/-- The hard page cap. -/
def pageCap : ℕ := 2000

/-- The trades that are still eligible behind a cursor. -/
def below (history : List TradeRow) (after : Option Int) : List TradeRow :=
  match after with
  | none => history
  | some id => history.filter fun r => decide (r.tradeId < id)

/-- What the venue answers: the newest eligible trades, as many as it likes. -/
def historyTrades (history : List TradeRow) (size : ℕ) (after : Option Int) : List TradeRow :=
  (below history after).take size

/-- `start_ns <= ts_ns <= end_ns`. -/
def inRange (startNs endNs : Int) (r : TradeRow) : Bool :=
  decide (startNs ≤ r.tsNs) && decide (r.tsNs ≤ endNs)

/-- `for _ in range(2000): ...`; the sizes of the answers are those of the rounds from `k` on. -/
def fetchPages (history : List TradeRow) (size : ℕ → ℕ) (startNs endNs : Int) :
    ℕ → ℕ → Option Int → List TradeRow
  | 0, _, _ => []
  | rounds + 1, k, after =>
      match historyTrades history (size k) after with
      | [] => []
      | first :: rest =>
          let rows := first :: rest
          let out := rows.filter (inRange startNs endNs)
          let stop := rows.any fun r => decide (r.tsNs < startNs)
          let oldest := rows.getLast (List.cons_ne_nil first rest)
          if stop then out
          else out ++ fetchPages history size startNs endNs rounds (k + 1) (some oldest.tradeId)

/-- `fetch_trades(symbol, start_ns, end_ns)`, before the records are turned into rows. -/
def fetchTrades (history : List TradeRow) (size : ℕ → ℕ) (startNs endNs : Int) : List TradeRow :=
  (fetchPages history size startNs endNs pageCap 0 none).insertionSort fun a b => a.tsNs ≤ b.tsNs

/-- How many trades the answers of some rounds hold, from the round `k` on. -/
def capacity (size : ℕ → ℕ) : ℕ → ℕ → ℕ
  | 0, _ => 0
  | rounds + 1, k => size k + capacity size rounds (k + 1)

/-- An answer holds at least one trade. -/
lemma le_capacity {size : ℕ → ℕ} (hsize : ∀ k, 0 < size k) :
    ∀ rounds k : ℕ, rounds ≤ capacity size rounds k := by
  intro rounds
  induction rounds with
  | zero =>
      intro k
      exact le_refl 0
  | succ rounds ih =>
      intro k
      have htail := ih (k + 1)
      have hhead := hsize k
      rw [capacity]
      omega

/-! ## The pages are consecutive -/

section Pages

variable {history : List TradeRow} {size : ℕ → ℕ} {startNs endNs : Int}

lemma below_sublist (after : Option Int) : (below history after).Sublist history := by
  cases after with
  | none => exact List.Sublist.refl history
  | some id => exact List.filter_sublist

/-- What is below the oldest row of a page is what is behind the page. -/
lemma below_of_take (hids : history.Pairwise fun x y => y.tradeId < x.tradeId) {n : ℕ}
    {after : Option Int} {rows : List TradeRow} {oldest : TradeRow}
    (hrows : (below history after).take n = rows ++ [oldest]) :
    below history (some oldest.tradeId) = (below history after).drop n := by
  have hsplit : below history after = rows ++ oldest :: (below history after).drop n := by
    calc
      below history after = (below history after).take n ++ (below history after).drop n :=
        (List.take_append_drop n _).symm
      _ = rows ++ oldest :: (below history after).drop n := by
        rw [hrows, List.append_assoc, List.singleton_append]
  have hbelow : below history (some oldest.tradeId) =
      (below history after).filter fun r => decide (r.tradeId < oldest.tradeId) := by
    cases after with
    | none => rfl
    | some id =>
        have hlt : oldest.tradeId < id := by
          have hmem : oldest ∈ below history (some id) := by
            rw [hsplit]
            exact List.mem_append_right rows List.mem_cons_self
          exact of_decide_eq_true (List.mem_filter.1 hmem).2
        simp only [below]
        rw [List.filter_filter]
        refine List.filter_congr ?_
        intro r _
        by_cases hr : r.tradeId < oldest.tradeId
        · simp [hr, lt_trans hr hlt]
        · simp [hr]
  have hdesc : (rows ++ oldest :: (below history after).drop n).Pairwise
      fun x y => y.tradeId < x.tradeId := by
    rw [← hsplit]
    exact hids.sublist (below_sublist after)
  have happend := List.pairwise_append.1 hdesc
  have hnewer : (rows.filter fun r => decide (r.tradeId < oldest.tradeId)) = [] := by
    refine List.filter_eq_nil_iff.2 ?_
    intro r hr hlt
    exact lt_asymm (of_decide_eq_true hlt) (happend.2.2 r hr oldest List.mem_cons_self)
  have holder : ((oldest :: (below history after).drop n).filter fun r =>
      decide (r.tradeId < oldest.tradeId)) = (below history after).drop n := by
    rw [List.filter_cons_of_neg (by simp)]
    refine List.filter_eq_self.2 ?_
    intro r hr
    exact decide_eq_true ((List.pairwise_cons.1 happend.2.1).1 r hr)
  rw [hbelow]
  nth_rewrite 1 [hsplit]
  rw [List.filter_append, hnewer, holder, List.nil_append]

/-- What is kept of the pages is what is in the window, as far back as the pages reach. -/
theorem fetchPages_eq (hids : history.Pairwise fun x y => y.tradeId < x.tradeId)
    (htimes : history.Pairwise fun x y => y.ts ≤ x.ts) (hsize : ∀ k, 0 < size k) :
    ∀ (rounds k : ℕ) (after : Option Int),
      fetchPages history size startNs endNs rounds k after =
        ((below history after).take (capacity size rounds k)).filter (inRange startNs endNs) := by
  intro rounds
  induction rounds with
  | zero =>
      intro k after
      rw [capacity, List.take_zero]
      rfl
  | succ rounds ih =>
      intro k after
      rw [capacity, List.take_add, List.filter_append, fetchPages, historyTrades]
      cases hrows : (below history after).take (size k) with
      | nil =>
          have hnil : below history after = [] :=
            (List.take_eq_nil_iff.1 hrows).resolve_left (hsize k).ne'
          rw [hnil, List.drop_nil, List.take_nil]
          rfl
      | cons first rest =>
          have hsnoc : (below history after).take (size k) =
              (first :: rest).dropLast ++
                [(first :: rest).getLast (List.cons_ne_nil first rest)] := by
            rw [hrows, List.dropLast_append_getLast]
          cases hstop : (first :: rest).any fun r => decide (r.tsNs < startNs) with
          | true =>
              -- Behind an old row everything is old.
              have hnone : (((below history after).drop (size k)).take
                  (capacity size rounds (k + 1))).filter (inRange startNs endNs) = [] := by
                refine List.filter_eq_nil_iff.2 ?_
                intro r hr hin
                rcases List.any_eq_true.1 hstop with ⟨u, hu, hold⟩
                have hbelow := htimes.sublist (below_sublist after)
                rw [← List.take_append_drop (size k) (below history after), hrows] at hbelow
                have hle := (List.pairwise_append.1 hbelow).2.2 u hu r (List.mem_of_mem_take hr)
                have hlt := of_decide_eq_true hold
                simp only [inRange, Bool.and_eq_true, decide_eq_true_eq] at hin
                simp only [TradeRow.tsNs, msToNs] at hlt hin
                omega
              simp only [hstop, if_true, hnone, List.append_nil]
          | false =>
              simp only [hstop, Bool.false_eq_true, if_false]
              rw [ih, below_of_take hids hsnoc]

/-- Trades that are not older than the window are the newest ones, so none lies behind as many. -/
lemma filter_drop_eq_nil (htimes : history.Pairwise fun x y => y.ts ≤ x.ts) {n : ℕ}
    (hcount : history.countP (fun r => decide (startNs ≤ r.tsNs)) ≤ n) :
    (history.drop n).filter (inRange startNs endNs) = [] := by
  refine List.filter_eq_nil_iff.2 ?_
  intro r hr hin
  have hrecent : startNs ≤ r.tsNs := by
    simp only [inRange, Bool.and_eq_true, decide_eq_true_eq] at hin
    exact hin.1
  have hsplit := htimes
  rw [← List.take_append_drop n history] at hsplit
  have hnewer : ∀ u ∈ history.take n, decide (startNs ≤ u.tsNs) = true := by
    intro u hu
    have hle := (List.pairwise_append.1 hsplit).2.2 u hu r hr
    simp only [TradeRow.tsNs, msToNs] at hrecent ⊢
    exact decide_eq_true (by omega)
  have hlength : n < history.length := by
    by_contra hle
    rw [List.drop_of_length_le (not_lt.1 hle)] at hr
    cases hr
  have htake : (history.take n).countP (fun r => decide (startNs ≤ r.tsNs)) = n := by
    rw [List.countP_eq_length.2 hnewer, List.length_take_of_le hlength.le]
  have hdrop : 0 < (history.drop n).countP (fun r => decide (startNs ≤ r.tsNs)) :=
    List.countP_pos_iff.2 ⟨r, hr, decide_eq_true hrecent⟩
  have htotal : history.countP (fun r => decide (startNs ≤ r.tsNs)) =
      (history.take n).countP (fun r => decide (startNs ≤ r.tsNs)) +
        (history.drop n).countP (fun r => decide (startNs ≤ r.tsNs)) := by
    rw [← List.countP_append, List.take_append_drop]
  omega

end Pages

/-- If the trades that are not older than the window fit on two thousand pages, the backfill returns
the trades of the window, each once, in the order of their times. -/
theorem backward_backfill_exact (history : List TradeRow) (size : ℕ → ℕ) (startNs endNs : Int)
    (hids : history.Pairwise fun x y => y.tradeId < x.tradeId)
    (htimes : history.Pairwise fun x y => y.ts ≤ x.ts) (hsize : ∀ k, 0 < size k)
    (hpages : history.countP (fun r => decide (startNs ≤ r.tsNs)) ≤ capacity size pageCap 0) :
    (fetchTrades history size startNs endNs).Perm (history.filter (inRange startNs endNs)) ∧
      (fetchTrades history size startNs endNs).Pairwise fun a b => a.tsNs ≤ b.tsNs := by
  have hsort : (fetchTrades history size startNs endNs).Perm
      (fetchPages history size startNs endNs pageCap 0 none) := List.perm_insertionSort _ _
  refine ⟨hsort.trans ?_, Foundation.insertionSort_key_sorted TradeRow.tsNs _⟩
  have hall : history.filter (inRange startNs endNs) =
      (history.take (capacity size pageCap 0)).filter (inRange startNs endNs) := by
    nth_rewrite 1 [← List.take_append_drop (capacity size pageCap 0) history]
    rw [List.filter_append, filter_drop_eq_nil htimes hpages, List.append_nil]
  rw [fetchPages_eq hids htimes hsize, hall]
  rfl

theorem backward_backfill_exact_three_trades :
    let rows : List TradeRow :=
      [{ tradeId := 9, ts := 7, px := 100, sz := 1, side := "buy" },
        { tradeId := 8, ts := 5, px := 101, sz := 2, side := "sell" },
        { tradeId := 4, ts := 5, px := 99, sz := 1, side := "buy" }]
    (fetchTrades rows (fun k => k % 100 + 1) 5000000 6000000).Perm
        (rows.filter (inRange 5000000 6000000)) ∧
      (fetchTrades rows (fun k => k % 100 + 1) 5000000 6000000).Pairwise
        fun a b => a.tsNs ≤ b.tsNs :=
  backward_backfill_exact _ _ 5000000 6000000 (by decide) (by decide)
    (fun k => Nat.succ_pos (k % 100))
    (le_trans (by decide) (le_capacity (fun k => Nat.succ_pos (k % 100)) pageCap 0))

end OKXSpot

end CryptoData
