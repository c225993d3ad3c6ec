import CryptoData.Core.Trade
import Mathlib.Data.List.Perm.Lattice

/-!
# Coinbase — the trades of the spot adapter

`fetchTrades` reads the newest thousand trades and then, as long as nothing is older than the
window, asks for what lies `before` the oldest one.  For the venue that is what is newer, so the
second answer repeats all of the first but its last row, is short, and ends the loop
(`fetchLoop_eq`).
-/

namespace CryptoData

namespace Coinbase

/-! ## The loop -/

/-- A row of `/products/{native}/trades`; `tsNs` is its `time`, read by `_iso_to_ns`. -/
structure TradeRow where
  tradeId : Int
  tsNs : Int
  price : ℚ
  size : ℚ
  side : String
  deriving DecidableEq, Repr

/-- The `limit` of a request. -/
def tradeLimit : ℕ := 1000

/-- What the venue answers, newest first: the trades newer than `before`, up to the limit. -/
def trades (history : List TradeRow) (before : Option Int) : List TradeRow :=
  match before with
  | none => history.take tradeLimit
  | some id => (history.filter fun r => decide (id < r.tradeId)).take tradeLimit

/-- The loop over the rows of a page: what it appends, and whether it sets `stop`. -/
def scanRows (startNs endNs : Int) : List TradeRow → List TradeRow × Bool
  | [] => ([], false)
  | r :: rest =>
      if r.tsNs < startNs then ([], true)
      else
        let (out, stop) := scanRows startNs endNs rest
        if r.tsNs > endNs then (out, stop) else (r :: out, stop)

/-- `while True: ...`, for at most as many rounds as given. -/
def fetchLoop (history : List TradeRow) (startNs endNs : Int) :
    ℕ → Option Int → Option (List TradeRow)
  | 0, _ => none
  | rounds + 1, cursor =>
      match trades history cursor with
      | [] => some []
      | first :: rest =>
          let rows := first :: rest
          let (out, stop) := scanRows startNs endNs rows
          if stop || decide (rows.length < tradeLimit) then some out
          else
            let oldest := rows.getLast (List.cons_ne_nil first rest)
            (fetchLoop history startNs endNs rounds (some oldest.tradeId)).map (out ++ ·)

/-- `fetch_trades(symbol, start_ns, end_ns)`, before the records are turned into rows. -/
def fetchTrades (history : List TradeRow) (startNs endNs : Int) (rounds : ℕ) :
    Option (List TradeRow) :=
  fetchLoop history startNs endNs rounds none

/-- `start_ns <= ts_ns <= end_ns`. -/
def inRange (startNs endNs : Int) (r : TradeRow) : Bool :=
  decide (startNs ≤ r.tsNs) && decide (r.tsNs ≤ endNs)

/-! ## One page -/

section Pages

variable {startNs endNs : Int} {rows : List TradeRow}

lemma scanRows_stop_iff :
    ∀ rows : List TradeRow, (scanRows startNs endNs rows).2 = true ↔ ∃ r ∈ rows, r.tsNs < startNs
  | [] => by simp [scanRows]
  | r :: rest => by
      have htail := scanRows_stop_iff rest
      by_cases hold : r.tsNs < startNs
      · simp [scanRows, hold]
      · by_cases hnew : r.tsNs > endNs
        · simp [scanRows, hold, hnew, htail]
        · simp [scanRows, hold, hnew, htail]

/-- On rows that go back in time, what is appended is what lies in the window. -/
lemma scanRows_out :
    ∀ {rows : List TradeRow}, (rows.Pairwise fun x y => y.tsNs ≤ x.tsNs) →
      (scanRows startNs endNs rows).1 = rows.filter (inRange startNs endNs)
  | [], _ => rfl
  | r :: rest, h => by
      have hcons := List.pairwise_cons.1 h
      have htail := scanRows_out hcons.2
      by_cases hold : r.tsNs < startNs
      · -- Everything behind an old row is old.
        have hnone : (r :: rest).filter (inRange startNs endNs) = [] := by
          refine List.filter_eq_nil_iff.2 ?_
          intro u hu hin
          have hle : u.tsNs ≤ r.tsNs := by
            rcases List.mem_cons.1 hu with rfl | hu
            · exact le_refl _
            · exact hcons.1 u hu
          simp only [inRange, Bool.and_eq_true, decide_eq_true_eq] at hin
          omega
        rw [hnone]
        simp [scanRows, hold]
      · have hstart : startNs ≤ r.tsNs := not_lt.1 hold
        by_cases hnew : r.tsNs > endNs
        · have hout : ¬ r.tsNs ≤ endNs := not_le.2 hnew
          simp [scanRows, hold, hnew, htail, inRange, hout]
        · have hin : r.tsNs ≤ endNs := not_lt.1 hnew
          simp [scanRows, hold, hnew, htail, inRange, hstart, hin]

end Pages

/-! ## The run -/

section Run

variable {history newer older : List TradeRow} {oldest : TradeRow} {startNs endNs : Int}

/-- When the backfill is exact: the venue has less than a page, or its newest page reaches back
behind the window, or at most the oldest row of that page lies in the window. -/
def BackfillExact (history : List TradeRow) (startNs endNs : Int) : Prop :=
  history.length < tradeLimit ∨ (∃ r ∈ history.take tradeLimit, r.tsNs < startNs) ∨
    ∀ r ∈ history.take (tradeLimit - 1) ++ history.drop tradeLimit,
      inRange startNs endNs r = false

/-- A history of a page or more, cut at the last row of its newest page. -/
lemma exists_split (hfull : tradeLimit ≤ history.length) :
    ∃ oldest, history = history.take (tradeLimit - 1) ++ oldest :: history.drop tradeLimit ∧
      history.take tradeLimit = history.take (tradeLimit - 1) ++ [oldest] := by
  have hlt : tradeLimit - 1 < history.length := lt_of_lt_of_le (by decide) hfull
  have htake : history.take tradeLimit =
      history.take (tradeLimit - 1) ++ [history[tradeLimit - 1]] :=
    (List.take_concat_get' history (tradeLimit - 1) hlt).symm
  refine ⟨history[tradeLimit - 1], ?_, htake⟩
  calc
    history = history.take tradeLimit ++ history.drop tradeLimit :=
      (List.take_append_drop tradeLimit history).symm
    _ = history.take (tradeLimit - 1) ++ history[tradeLimit - 1] :: history.drop tradeLimit := by
      rw [htake, List.append_assoc, List.singleton_append]

/-- What the venue has before the oldest row of a page is the rest of that page. -/
lemma trades_before (hids : (newer ++ oldest :: older).Pairwise fun x y => y.tradeId < x.tradeId)
    (hlength : newer.length < tradeLimit) :
    trades (newer ++ oldest :: older) (some oldest.tradeId) = newer := by
  have happend := List.pairwise_append.1 hids
  have hcons := List.pairwise_cons.1 happend.2.1
  have hnewer : (newer.filter fun r => decide (oldest.tradeId < r.tradeId)) = newer :=
    List.filter_eq_self.2 fun r hr => decide_eq_true (happend.2.2 r hr oldest List.mem_cons_self)
  have holder : ((oldest :: older).filter fun r => decide (oldest.tradeId < r.tradeId)) = [] := by
    refine List.filter_eq_nil_iff.2 ?_
    intro r hr hlt
    have hlt' := of_decide_eq_true hlt
    rcases List.mem_cons.1 hr with rfl | hr
    · exact lt_irrefl _ hlt'
    · exact lt_asymm hlt' (hcons.1 r hr)
  simp only [trades]
  rw [List.filter_append, hnewer, holder, List.append_nil, List.take_of_length_le hlength.le]

/-- A page with an old row, or a short one, is the last. -/
lemma fetchLoop_last {cursor : Option Int} (rounds : ℕ)
    (hlast : (scanRows startNs endNs (trades history cursor)).2 = true ∨
      (trades history cursor).length < tradeLimit) :
    fetchLoop history startNs endNs (rounds + 1) cursor =
      some (scanRows startNs endNs (trades history cursor)).1 := by
  unfold fetchLoop
  cases hrows : trades history cursor with
  | nil => rfl
  | cons first rest =>
      rw [hrows] at hlast
      have hcond : ((scanRows startNs endNs (first :: rest)).2 ||
          decide ((first :: rest).length < tradeLimit)) = true := by
        rw [Bool.or_eq_true, decide_eq_true_eq]
        exact hlast
      simp only [hcond, if_true]

/-- Behind any other page the loop continues from its oldest row. -/
lemma fetchLoop_more {cursor : Option Int} (rounds : ℕ)
    (hrows : trades history cursor = newer ++ [oldest])
    (hstop : (scanRows startNs endNs (newer ++ [oldest])).2 = false)
    (hfull : (newer ++ [oldest]).length = tradeLimit) :
    fetchLoop history startNs endNs (rounds + 1) cursor =
      (fetchLoop history startNs endNs rounds (some oldest.tradeId)).map
        ((scanRows startNs endNs (newer ++ [oldest])).1 ++ ·) := by
  have hcond : ((scanRows startNs endNs (newer ++ [oldest])).2 ||
      decide ((newer ++ [oldest]).length < tradeLimit)) = false := by
    rw [hstop, hfull]
    rfl
  rw [fetchLoop, hrows]
  cases hcons : newer ++ [oldest] with
  | nil => exact absurd hcons (List.append_ne_nil_of_right_ne_nil newer (List.cons_ne_nil _ _))
  | cons first rest =>
      have hlast : (first :: rest).getLast (List.cons_ne_nil first rest) = oldest := by
        simp only [← hcons, List.getLast_append_singleton]
      rw [hcons] at hcond
      simp only [hcond, Bool.false_eq_true, if_false, hlast]

/-- One request is enough if its page is short or reaches behind the window. -/
lemma fetchTrades_one_page (htimes : history.Pairwise fun x y => y.tsNs ≤ x.tsNs) (more : ℕ)
    (hlast : (∃ r ∈ history.take tradeLimit, r.tsNs < startNs) ∨ history.length < tradeLimit) :
    fetchTrades history startNs endNs (2 + more) =
      some ((history.take tradeLimit).filter (inRange startNs endNs)) := by
  have hpage : trades history none = history.take tradeLimit := rfl
  have hout : (scanRows startNs endNs (history.take tradeLimit)).1 = _ :=
    scanRows_out (htimes.sublist (List.take_sublist tradeLimit history))
  have hrounds : 2 + more = 1 + more + 1 := by omega
  unfold fetchTrades
  rw [hrounds, fetchLoop_last, hpage, hout]
  rw [hpage, scanRows_stop_iff]
  refine hlast.imp_right ?_
  intro hshort
  exact lt_of_le_of_lt (List.length_take_le' _ _) hshort

/-- Otherwise there are two, and the second repeats the first but for its oldest row. -/
lemma fetchTrades_two_pages (hids : history.Pairwise fun x y => y.tradeId < x.tradeId)
    (htimes : history.Pairwise fun x y => y.tsNs ≤ x.tsNs) (more : ℕ)
    (hstop : ¬ ∃ r ∈ history.take tradeLimit, r.tsNs < startNs)
    (hfull : tradeLimit ≤ history.length) :
    fetchTrades history startNs endNs (2 + more) =
      some ((history.take tradeLimit).filter (inRange startNs endNs) ++
        (history.take (tradeLimit - 1)).filter (inRange startNs endNs)) := by
  rcases exists_split hfull with ⟨oldest, hhistory, hpage⟩
  have hlength : (history.take (tradeLimit - 1)).length = tradeLimit - 1 :=
    List.length_take_of_le (le_trans (Nat.sub_le _ _) hfull)
  have hsecond : trades history (some oldest.tradeId) = history.take (tradeLimit - 1) := by
    rw [hhistory] at hids
    have hbefore := trades_before hids (by rw [hlength]; decide)
    rw [← hhistory] at hbefore
    exact hbefore
  have hstopFirst : (scanRows startNs endNs (history.take (tradeLimit - 1) ++ [oldest])).2 =
      false := by
    rw [← hpage, Bool.eq_false_iff, ne_eq, scanRows_stop_iff]
    exact hstop
  have hlengthFirst : (history.take (tradeLimit - 1) ++ [oldest]).length = tradeLimit := by
    rw [← hpage]
    exact List.length_take_of_le hfull
  have hfirst : (scanRows startNs endNs (history.take tradeLimit)).1 = _ :=
    scanRows_out (htimes.sublist (List.take_sublist tradeLimit history))
  have hrest : (scanRows startNs endNs (history.take (tradeLimit - 1))).1 = _ :=
    scanRows_out (htimes.sublist (List.take_sublist (tradeLimit - 1) history))
  have hnewest : trades history none = history.take (tradeLimit - 1) ++ [oldest] := hpage
  have hrounds : 2 + more = more + 1 + 1 := by omega
  unfold fetchTrades
  rw [hrounds, fetchLoop_more (more + 1) hnewest hstopFirst hlengthFirst,
    fetchLoop_last more (Or.inr (by rw [hsecond, hlength]; decide)), hsecond, hrest, ← hpage,
    hfirst]
  rfl

/-- The trades of the newest page but its oldest row are not among those behind the page. -/
lemma filter_perm_older_iff (hids : history.Pairwise fun x y => y.tradeId < x.tradeId)
    (hfull : tradeLimit ≤ history.length) (q : TradeRow → Bool) :
    ((history.take (tradeLimit - 1)).filter q).Perm ((history.drop tradeLimit).filter q) ↔
      ∀ r ∈ history.take (tradeLimit - 1) ++ history.drop tradeLimit, q r = false := by
  rcases exists_split hfull with ⟨oldest, hhistory, _⟩
  rw [hhistory] at hids
  have hnewer := (List.pairwise_append.1 hids).2.2
  constructor
  · intro hperm
    have hnone : (history.take (tradeLimit - 1)).filter q = [] := by
      refine List.eq_nil_iff_forall_not_mem.2 ?_
      intro r hr
      have hr' := (List.mem_filter.1 (hperm.mem_iff.1 hr)).1
      exact lt_irrefl _ (hnewer r (List.mem_filter.1 hr).1 r (List.mem_cons_of_mem _ hr'))
    rw [hnone, List.nil_perm] at hperm
    intro r hr
    rcases List.mem_append.1 hr with hr | hr
    · exact Bool.eq_false_iff.2 (List.filter_eq_nil_iff.1 hnone r hr)
    · exact Bool.eq_false_iff.2 (List.filter_eq_nil_iff.1 hperm r hr)
  · intro hnone
    have hnil : ∀ rows : List TradeRow, (∀ r ∈ rows, q r = false) → rows.filter q = [] := by
      intro rows hrows
      refine List.filter_eq_nil_iff.2 ?_
      intro r hr
      rw [hrows r hr]
      exact Bool.false_ne_true
    rw [hnil _ fun r hr => hnone r (List.mem_append_left _ hr),
      hnil _ fun r hr => hnone r (List.mem_append_right _ hr)]

end Run

/-- The backfill ends after two requests, and returns exactly the trades of the window under the
condition above. -/
theorem backfill_exact_iff (history : List TradeRow) (startNs endNs : Int)
    (hids : history.Pairwise fun x y => y.tradeId < x.tradeId)
    (htimes : history.Pairwise fun x y => y.tsNs ≤ x.tsNs) :
    ∃ out, (∀ more, fetchTrades history startNs endNs (2 + more) = some out) ∧
      (out.Perm (history.filter (inRange startNs endNs)) ↔
        BackfillExact history startNs endNs) := by
  have hsplit : history.filter (inRange startNs endNs) =
      (history.take tradeLimit).filter (inRange startNs endNs) ++
        (history.drop tradeLimit).filter (inRange startNs endNs) := by
    rw [← List.filter_append, List.take_append_drop]
  by_cases hlast : (∃ r ∈ history.take tradeLimit, r.tsNs < startNs) ∨ history.length < tradeLimit
  · refine ⟨_, fun more => fetchTrades_one_page htimes more hlast, iff_of_true ?_ ?_⟩
    · have hnone : (history.drop tradeLimit).filter (inRange startNs endNs) = [] := by
        refine List.filter_eq_nil_iff.2 ?_
        intro r hr hin
        rcases hlast with ⟨u, hu, hold⟩ | hshort
        · -- Behind an old row everything is old.
          rw [← List.take_append_drop tradeLimit history] at htimes
          have hle := (List.pairwise_append.1 htimes).2.2 u hu r hr
          simp only [inRange, Bool.and_eq_true, decide_eq_true_eq] at hin
          omega
        · rw [List.drop_of_length_le hshort.le] at hr
          cases hr
      rw [hsplit, hnone, List.append_nil]
    · exact hlast.elim (fun h => Or.inr (Or.inl h)) Or.inl
  · rw [not_or, not_lt] at hlast
    refine ⟨_, fun more => fetchTrades_two_pages hids htimes more hlast.1 hlast.2, ?_⟩
    rw [hsplit, List.perm_append_left_iff, filter_perm_older_iff hids hlast.2]
    unfold BackfillExact
    constructor
    · exact fun h => Or.inr (Or.inr h)
    · rintro (hshort | hold | hnone)
      · exact absurd hlast.2 (not_le.2 hshort)
      · exact absurd hold hlast.1
      · exact hnone

theorem backfill_exact_iff_two_trades :
    let rows : List TradeRow :=
      [{ tradeId := 2, tsNs := 90, price := 100, size := 1, side := "buy" },
        { tradeId := 1, tsNs := 90, price := 101, size := 2, side := "sell" }]
    ∃ out, (∀ more, fetchTrades rows 80 95 (2 + more) = some out) ∧
      (out.Perm (rows.filter (inRange 80 95)) ↔ BackfillExact rows 80 95) :=
  backfill_exact_iff _ 80 95 (by decide) (by decide)

/-- A thousand and one trades in the window: the second request returns what is newer than the
oldest trade of the first, and the last trade of the window is never asked for. -/
theorem second_page_repeats_first :
    let row : ℕ → TradeRow := fun i =>
      { tradeId := 2000 - i, tsNs := 90, price := 100, size := 1, side := "buy" }
    let rows := (List.range 1001).map row
    ∃ out, fetchTrades rows 80 95 2 = some out ∧ ¬ out.Perm (rows.filter (inRange 80 95)) := by
  intro row rows
  have hids : rows.Pairwise fun x y => y.tradeId < x.tradeId := by
    refine List.pairwise_map.2 (List.pairwise_lt_range.imp ?_)
    intro i j hij
    change (2000 : Int) - j < 2000 - i
    omega
  have htimes : rows.Pairwise fun x y => y.tsNs ≤ x.tsNs :=
    List.pairwise_map.2 (List.pairwise_of_forall fun _ _ => le_refl (90 : Int))
  have hlength : rows.length = 1001 := by rw [List.length_map, List.length_range]
  have hnew : ∀ r ∈ rows, r.tsNs = 90 := by
    intro r hr
    rcases List.mem_map.1 hr with ⟨i, _, rfl⟩
    rfl
  have hstop : ¬ ∃ r ∈ rows.take tradeLimit, r.tsNs < 80 := by
    rintro ⟨r, hr, hlt⟩
    rw [hnew r (List.mem_of_mem_take hr)] at hlt
    exact absurd hlt (by decide)
  have hall : ∀ n, (rows.take n).filter (inRange 80 95) = rows.take n := by
    intro n
    refine List.filter_eq_self.2 ?_
    intro r hr
    simp [inRange, hnew r (List.mem_of_mem_take hr)]
  refine ⟨_, fetchTrades_two_pages hids htimes 0 hstop (by rw [hlength]; decide), ?_⟩
  intro hperm
  have hcount := hperm.length_eq
  have hrows : rows.filter (inRange 80 95) = rows := by
    have htake := hall rows.length
    rwa [List.take_length] at htake
  rw [hall, hall, hrows, List.length_append, List.length_take, List.length_take, hlength] at hcount
  exact absurd hcount (by decide)

end Coinbase

end CryptoData
