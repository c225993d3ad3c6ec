import CryptoData.Core.Trade
import Mathlib.Data.List.Nodup
import Mathlib.Data.List.Pairwise

/-!
# Binance — the trades of the spot adapter

The adapter sees a venue trade twice: in the live stream, and in the answer to an `aggTrades`
request.  Times are whole milliseconds; `fetchTrades` floors its bounds to milliseconds and pages
through the range a thousand trades at a time.

Every trade that is fetched lies in the requested milliseconds (`mem_fetchTrades`), and none is
fetched twice by one call (`fetchTrades_nodup`).
-/

namespace CryptoData

/-! ## Messages and rows -/

/-- A trade of the venue under its canonical symbol: the ids of the stream (`t`) and of the
aggregate feed (`a`), the time `T`, the price `p`, the size `q` and the flag `m`. -/
structure VenueTrade where
  symbol : String
  streamId : Int
  aggId : Int
  timeMs : Int
  price : ℚ
  qty : ℚ
  buyerIsMaker : Bool
  deriving DecidableEq, Repr

/-- `_ms_to_ns(ms)`. -/
def msToNs (ms : Int) : Int :=
  ms * 1000000

namespace VenueTrade

/-- A buyer who is the maker means a sell aggressor. -/
def side (v : VenueTrade) : Int :=
  if v.buyerIsMaker then -1 else 1

/-- The row of the live stream. -/
def streamRow (v : VenueTrade) (recvNs ingestedAtNs : Int) : Trade where
  tsNs := msToNs v.timeMs
  recvNs := some recvNs
  symbol := v.symbol
  venue := some "binance"
  price := v.price
  size := some v.qty
  side := v.side
  tradeId := some (toString v.streamId)
  ingestedAtNs := ingestedAtNs

/-- The row of a backfill, which has no receive time of its own. -/
def restRow (v : VenueTrade) (ingestedAtNs : Int) : Trade where
  tsNs := msToNs v.timeMs
  recvNs := some (msToNs v.timeMs)
  symbol := v.symbol
  venue := some "binance"
  price := v.price
  size := some v.qty
  side := v.side
  tradeId := some (toString v.aggId)
  ingestedAtNs := ingestedAtNs

end VenueTrade

/-! ## The REST range -/

/-- The `limit` of a request. -/
def pageLimit : ℕ := 1000

/-- What the venue answers: its trades of the millisecond range, oldest first, up to the limit. -/
def aggTrades (history : List VenueTrade) (symbol : String) (startMs endMs : Int) :
    List VenueTrade :=
  (history.filter fun v => decide (v.symbol = symbol) && decide (startMs ≤ v.timeMs) &&
    decide (v.timeMs ≤ endMs)).take pageLimit

/-- `while cursor_ms < end_ms: ...`.  A round moves the cursor by a millisecond or more, so the
width of the range bounds the rounds (`fetchPages_succ`). -/
def fetchPages (history : List VenueTrade) (symbol : String) (endMs : Int) :
    ℕ → Int → List VenueTrade
  | 0, _ => []
  | rounds + 1, cursorMs =>
      if cursorMs < endMs then
        match aggTrades history symbol cursorMs endMs with
        | [] => []
        | first :: rest =>
            let rows := first :: rest
            let last := rows.getLast (List.cons_ne_nil first rest)
            -- A short page is the last one.
            if rows.length < pageLimit then rows
            else rows ++ fetchPages history symbol endMs rounds (last.timeMs + 1)
      else
        []

/-- `fetch_trades(symbol, start_ns, end_ns)`, before the records are turned into rows. -/
def fetchTrades (history : List VenueTrade) (symbol : String) (startNs endNs : Int) :
    List VenueTrade :=
  fetchPages history symbol (endNs / 1000000) (endNs / 1000000 - startNs / 1000000).toNat
    (startNs / 1000000)

section Pages

variable {history : List VenueTrade} {symbol : String} {endMs : Int}

lemma aggTrades_sublist (startMs : Int) :
    (aggTrades history symbol startMs endMs).Sublist history :=
  (List.take_sublist _ _).trans List.filter_sublist

lemma mem_aggTrades {startMs : Int} {v : VenueTrade}
    (h : v ∈ aggTrades history symbol startMs endMs) :
    v.symbol = symbol ∧ startMs ≤ v.timeMs ∧ v.timeMs ≤ endMs := by
  have hmem := (List.mem_filter.1 (List.mem_of_mem_take h)).2
  simp only [Bool.and_eq_true, decide_eq_true_eq] at hmem
  exact ⟨hmem.1.1, hmem.1.2, hmem.2⟩

/-- What one round of the loop adds. -/
lemma fetchPages_cases (rounds : ℕ) (cursorMs : Int) :
    (∃ rows, fetchPages history symbol endMs (rounds + 1) cursorMs = rows ∧
        rows.Sublist (aggTrades history symbol cursorMs endMs)) ∨
      ∃ hne : aggTrades history symbol cursorMs endMs ≠ [],
        fetchPages history symbol endMs (rounds + 1) cursorMs =
          aggTrades history symbol cursorMs endMs ++ fetchPages history symbol endMs rounds
            (((aggTrades history symbol cursorMs endMs).getLast hne).timeMs + 1) := by
  by_cases hcursor : cursorMs < endMs
  · cases hpage : aggTrades history symbol cursorMs endMs with
    | nil =>
        refine Or.inl ⟨_, rfl, ?_⟩
        simp only [fetchPages, hcursor, if_true, hpage]
        exact List.Sublist.refl []
    | cons first rest =>
        by_cases hshort : (first :: rest).length < pageLimit
        · refine Or.inl ⟨_, rfl, ?_⟩
          simp only [fetchPages, hcursor, if_true, hpage, hshort]
          exact List.Sublist.refl _
        · refine Or.inr ⟨List.cons_ne_nil first rest, ?_⟩
          simp only [fetchPages, hcursor, if_true, hpage, hshort, if_false]
  · refine Or.inl ⟨_, rfl, ?_⟩
    simp only [fetchPages, hcursor, if_false]
    exact List.nil_sublist _

/-- Every trade of every page lies in the range. -/
lemma mem_fetchPages :
    ∀ (rounds : ℕ) (cursorMs : Int) {v : VenueTrade},
      v ∈ fetchPages history symbol endMs rounds cursorMs →
        v ∈ history ∧ v.symbol = symbol ∧ cursorMs ≤ v.timeMs ∧ v.timeMs ≤ endMs := by
  intro rounds
  induction rounds with
  | zero =>
      intro cursorMs v hv
      cases hv
  | succ rounds ih =>
      intro cursorMs v hv
      have hpage : ∀ {u}, u ∈ aggTrades history symbol cursorMs endMs →
          u ∈ history ∧ u.symbol = symbol ∧ cursorMs ≤ u.timeMs ∧ u.timeMs ≤ endMs :=
        fun hu => ⟨(aggTrades_sublist cursorMs).subset hu, mem_aggTrades hu⟩
      rcases fetchPages_cases rounds cursorMs with ⟨rows, hrows, hsub⟩ | ⟨hne, hmore⟩
      · rw [hrows] at hv
        exact hpage (hsub.subset hv)
      · rw [hmore] at hv
        rcases List.mem_append.1 hv with hv | hv
        · exact hpage hv
        · have hlast := (hpage (List.getLast_mem hne)).2.2.1
          rcases ih _ hv with ⟨hin, hsymbol, hle, hend⟩
          exact ⟨hin, hsymbol, by omega, hend⟩

/-- The pages of an ordered history without repetitions do not overlap. -/
lemma fetchPages_nodup (hnodup : history.Nodup)
    (hsorted : history.Pairwise fun x y => x.timeMs ≤ y.timeMs) :
    ∀ (rounds : ℕ) (cursorMs : Int),
      (fetchPages history symbol endMs rounds cursorMs).Nodup := by
  intro rounds
  induction rounds with
  | zero =>
      intro cursorMs
      exact List.nodup_nil
  | succ rounds ih =>
      intro cursorMs
      have hsub : (aggTrades history symbol cursorMs endMs).Sublist history :=
        aggTrades_sublist cursorMs
      have hpage := hnodup.sublist hsub
      rcases fetchPages_cases rounds cursorMs with ⟨rows, hrows, hrowsSub⟩ | ⟨hne, hmore⟩
      · rw [hrows]
        exact hpage.sublist hrowsSub
      · rw [hmore, List.nodup_append]
        refine ⟨hpage, ih _, ?_⟩
        intro u hu v hv heq
        have hle := (hsorted.sublist hsub).rel_getLast_of_rel_getLast_getLast hu (le_refl _)
        have hgt := (mem_fetchPages rounds _ hv).2.2.1
        rw [← heq] at hgt
        omega

/-- Rounds past the width of the range change nothing. -/
lemma fetchPages_succ :
    ∀ (rounds : ℕ) (cursorMs : Int), (endMs - cursorMs).toNat ≤ rounds →
      fetchPages history symbol endMs (rounds + 1) cursorMs =
        fetchPages history symbol endMs rounds cursorMs := by
  intro rounds
  induction rounds with
  | zero =>
      intro cursorMs hrounds
      have hdone : ¬ cursorMs < endMs := by omega
      simp only [fetchPages, hdone, if_false]
  | succ rounds ih =>
      intro cursorMs hrounds
      by_cases hcursor : cursorMs < endMs
      · cases hpage : aggTrades history symbol cursorMs endMs with
        | nil => simp only [fetchPages, hcursor, if_true, hpage]
        | cons first rest =>
            have hlast := (mem_aggTrades (v := (first :: rest).getLast
              (List.cons_ne_nil first rest)) (by rw [hpage]; exact List.getLast_mem _)).2.1
            have htail := ih (((first :: rest).getLast
              (List.cons_ne_nil first rest)).timeMs + 1) (by omega)
            rw [fetchPages]
            simp only [hcursor, if_true, hpage, htail]
            simp only [fetchPages, hcursor, if_true, hpage]
      · simp only [fetchPages, hcursor, if_false]

end Pages

section Fetch

variable {history : List VenueTrade} {symbol : String} {startNs endNs : Int}

theorem mem_fetchTrades {v : VenueTrade} (h : v ∈ fetchTrades history symbol startNs endNs) :
    v ∈ history ∧ v.symbol = symbol ∧ startNs / 1000000 ≤ v.timeMs ∧
      v.timeMs ≤ endNs / 1000000 :=
  mem_fetchPages _ _ h

theorem fetchTrades_nodup (hnodup : history.Nodup)
    (hsorted : history.Pairwise fun x y => x.timeMs ≤ y.timeMs) :
    (fetchTrades history symbol startNs endNs).Nodup :=
  fetchPages_nodup hnodup hsorted _ _

end Fetch

end CryptoData
