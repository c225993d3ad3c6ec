import CryptoData.Foundation.StableSort
import CryptoData.Sources.Binance

/-!
# Gemini — the trades of the spot adapter

`fetchTrades` asks for what is newer than a millisecond, sorts the answer by its milliseconds and
continues behind the last one, until an answer is empty or reaches beyond the window.
-/

namespace CryptoData

open Foundation

namespace GeminiSpot

/-! ## The loop -/

/-- A row of `/v1/trades/{native}`. -/
structure TradeRow where
  tid : Int
  timestampms : Int
  price : ℚ
  amount : ℚ
  type : String
  deriving DecidableEq, Repr

namespace TradeRow

def tsNs (r : TradeRow) : Int :=
  msToNs r.timestampms

/-- The record that the adapter makes of a row. -/
def toTrade (symbol : String) (r : TradeRow) : Trade where
  tsNs := r.tsNs
  recvNs := some r.tsNs
  symbol := symbol
  venue := some "gemini"
  price := r.price
  size := some r.amount
  side := if r.type.toLower = "buy" then 1 else -1
  tradeId := some (toString r.tid)

end TradeRow

/-- `for _ in range(2000)`. -/
def pageCap : ℕ := 2000

/-- The loop over the rows of a page: what it appends, and whether it returns. -/
def scanRows (startNs endNs : Int) : List TradeRow → List TradeRow × Bool
  | [] => ([], false)
  | r :: rest =>
      if r.tsNs < startNs then scanRows startNs endNs rest
      else if r.tsNs > endNs then ([], true)
      else
        let (out, done) := scanRows startNs endNs rest
        (r :: out, done)

/-- `sorted(rows, key=lambda r: r["timestampms"])`. -/
def sortPage (rows : List TradeRow) : List TradeRow :=
  rows.insertionSort fun a b => a.timestampms ≤ b.timestampms

/-- The loop, against a venue that answers a `since` with some rows. -/
def fetchPages (answer : Int → List TradeRow) (startNs endNs : Int) : ℕ → Int → List TradeRow
  | 0, _ => []
  | rounds + 1, sinceMs =>
      let rows := sortPage (answer sinceMs)
      match rows.getLast? with
      -- `if not rows: break`
      | none => []
      | some last =>
          let (out, done) := scanRows startNs endNs rows
          let newSince := last.timestampms + 1
          if done ∨ newSince ≤ sinceMs then out
          else out ++ fetchPages answer startNs endNs rounds newSince

/-- `fetch_trades(symbol, start_ns, end_ns)`, before the records are turned into rows. -/
def fetchTrades (answer : Int → List TradeRow) (startNs endNs : Int) : List TradeRow :=
  (fetchPages answer startNs endNs pageCap (startNs / 1000000)).insertionSort
    fun a b => a.tsNs ≤ b.tsNs

/-- `start_ns <= ts_ns <= end_ns`. -/
def inRange (startNs endNs : Int) (r : TradeRow) : Bool :=
  decide (startNs ≤ r.tsNs) && decide (r.tsNs ≤ endNs)

/-! ## One page -/

section Pages

variable {startNs endNs : Int}

lemma tsNs_le_tsNs_iff {a b : TradeRow} : a.tsNs ≤ b.tsNs ↔ a.timestampms ≤ b.timestampms := by
  unfold TradeRow.tsNs msToNs
  omega

lemma sortPage_sorted (rows : List TradeRow) :
    (sortPage rows).Pairwise fun a b => a.timestampms ≤ b.timestampms :=
  insertionSort_key_sorted TradeRow.timestampms rows

/-- On rows in the order of time, what is appended is what lies in the window. -/
lemma scanRows_out :
    ∀ {rows : List TradeRow}, (rows.Pairwise fun a b => a.timestampms ≤ b.timestampms) →
      (scanRows startNs endNs rows).1 = rows.filter (inRange startNs endNs)
  | [], _ => rfl
  | r :: rest, h => by
      have hcons := List.pairwise_cons.1 h
      have htail := scanRows_out hcons.2
      by_cases hold : r.tsNs < startNs
      · have hout : ¬ startNs ≤ r.tsNs := not_le.2 hold
        simp [scanRows, hold, htail, inRange, hout]
      · have hstart : startNs ≤ r.tsNs := not_lt.1 hold
        by_cases hnew : r.tsNs > endNs
        · -- Everything behind a row beyond the window is beyond it.
          have hnone : (r :: rest).filter (inRange startNs endNs) = [] := by
            refine List.filter_eq_nil_iff.2 ?_
            intro u hu hin
            have hle : r.tsNs ≤ u.tsNs := by
              rcases List.mem_cons.1 hu with rfl | hu
              · exact le_refl _
              · exact tsNs_le_tsNs_iff.2 (hcons.1 u hu)
            simp only [inRange, Bool.and_eq_true, decide_eq_true_eq] at hin
            omega
          rw [hnone]
          simp [scanRows, hold, hnew]
        · have hin : r.tsNs ≤ endNs := not_lt.1 hnew
          simp [scanRows, hold, hnew, htail, inRange, hstart, hin]

/-- The adapter returns at a row beyond the window. -/
lemma exists_of_scanRows_done :
    ∀ {rows : List TradeRow}, (scanRows startNs endNs rows).2 = true → ∃ r ∈ rows, r.tsNs > endNs
  | [], h => absurd h Bool.false_ne_true
  | r :: rest, h => by
      by_cases hnew : r.tsNs > endNs
      · exact ⟨r, List.mem_cons_self, hnew⟩
      · have hrest : (scanRows startNs endNs rest).2 = true := by
          by_cases hold : r.tsNs < startNs
          · simpa [scanRows, hold] using h
          · simpa [scanRows, hold, hnew] using h
        rcases exists_of_scanRows_done hrest with ⟨u, hu, hlt⟩
        exact ⟨u, List.mem_cons_of_mem r hu, hlt⟩

end Pages

end GeminiSpot

end CryptoData
