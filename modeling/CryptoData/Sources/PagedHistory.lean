import CryptoData.Sources.Klines

/-!
# PagedHistory — candles and funding rates, page after page

Binance Futures continues behind the last row of a full page, a millisecond for funding rates and a
minute for candles, as long as it is before the end; so what comes behind a full page is skipped if
it is closer than that, or if the page ends right before the end of the range
(`BinanceFutures.fetchFunding_eq_iff`).  Bitfinex has no such guard, only a number of pages.  OKX
reads backwards, from candles older than the end, so it never returns the one that opens there.
-/

namespace CryptoData

open Foundation

/-! ## A loop with a guard -/

section Forward

variable {α : Type*} (timeMs : α → Int) (limit : ℕ) (step : Int)

/-- `while cursor_ms < end_ms: ...`, for a venue that answers the first `limit` rows of the range,
oldest first. -/
def forwardPages (history : List α) (endMs : Int) : ℕ → Int → List α
  | 0, _ => []
  | rounds + 1, cursorMs =>
      if cursorMs < endMs then
        match (inMs timeMs history cursorMs endMs).take limit with
        | [] => []
        | first :: rest =>
            let rows := first :: rest
            let last := rows.getLast (List.cons_ne_nil first rest)
            if rows.length < limit then rows
            else rows ++ forwardPages history endMs rounds (timeMs last + step)
      else []

variable {timeMs limit step} {history : List α} {startMs endMs : Int}

lemma forwardPages_eq_pages :
    ∀ (rounds : ℕ) (cursorMs : Int),
      forwardPages timeMs limit step history endMs rounds cursorMs =
        if cursorMs < endMs then
          pages timeMs (· + step) (fun c => decide (c < endMs)) limit
            (upToMs timeMs history endMs) rounds cursorMs
        else [] := by
  intro rounds
  induction rounds with
  | zero =>
      intro cursorMs
      simp [forwardPages, pages]
  | succ rounds ih =>
      intro cursorMs
      by_cases hcursor : cursorMs < endMs
      · simp only [forwardPages, pages, hcursor, if_true, inMs_eq_fromCursor]
        cases (fromCursor timeMs (upToMs timeMs history endMs) cursorMs).take limit with
        | nil => rfl
        | cons first rest =>
            rw [List.getLast?_eq_some_getLast (List.cons_ne_nil first rest)]
            simp only [ih, decide_eq_true_eq]
      · simp only [forwardPages, hcursor, if_false]

/-- With as many rounds as there are rows, the loop reads the range exactly if no page boundary cuts
something off. -/
theorem forwardPages_eq_iff (hsorted : history.Pairwise fun a b => timeMs a < timeMs b)
    (hstep : 0 < step) (hlimit : 0 < limit) (hrange : startMs < endMs) (more : ℕ) :
    forwardPages timeMs limit step history endMs (history.length + more) startMs =
        inMs timeMs history startMs endMs ↔
      PageSeparated timeMs (· + step) (fun c => decide (c < endMs)) limit
        (inMs timeMs history startMs endMs) := by
  have hupTo : (upToMs timeMs history endMs).Pairwise fun a b => timeMs a ≤ timeMs b :=
    (hsorted.sublist List.filter_sublist).imp fun hlt => hlt.le
  have hadvance : ∀ ms : Int, ms < ms + step := fun ms => lt_add_of_pos_right ms hstep
  have hlength : (inMs timeMs history startMs endMs).length ≤
      (history.length + more) * limit := by
    calc
      (inMs timeMs history startMs endMs).length ≤ history.length :=
        List.filter_sublist.length_le
      _ ≤ history.length + more := Nat.le_add_right _ _
      _ ≤ (history.length + more) * limit := Nat.le_mul_of_pos_right _ hlimit
  rw [forwardPages_eq_pages, if_pos hrange, inMs_eq_fromCursor, pages_eq_iff hupTo hadvance hlimit]
  rw [inMs_eq_fromCursor] at hlength
  exact and_iff_right hlength

/-- In a strictly ordered list the row behind a page is later than the last one of the page. -/
lemma lt_behind {rows : List α} (hsorted : rows.Pairwise fun a b => timeMs a < timeMs b)
    (hlimit : 0 < limit) {k : ℕ} {x y : α} (hx : rows[(k + 1) * limit - 1]? = some x)
    (hy : rows[(k + 1) * limit]? = some y) : timeMs x < timeMs y := by
  rcases List.getElem?_eq_some_iff.1 hx with ⟨hi, rfl⟩
  rcases List.getElem?_eq_some_iff.1 hy with ⟨hj, rfl⟩
  have hpos : 0 < (k + 1) * limit := Nat.mul_pos (Nat.succ_pos k) hlimit
  exact List.pairwise_iff_getElem.1 hsorted _ _ hi hj (Nat.sub_lt hpos Nat.one_pos)

/-- With a step of a millisecond nothing is too close; only the guard can cut something off. -/
lemma pageSeparated_one_iff {rows : List α}
    (hsorted : rows.Pairwise fun a b => timeMs a < timeMs b) (hlimit : 0 < limit) :
    PageSeparated timeMs (· + 1) (fun c => decide (c < endMs)) limit rows ↔
      ∀ k x y, rows[(k + 1) * limit - 1]? = some x → rows[(k + 1) * limit]? = some y →
        timeMs x + 1 < endMs := by
  constructor
  · intro h k x y hx hy
    exact of_decide_eq_true (h k x y hx hy).2
  · intro h k x y hx hy
    exact ⟨Int.add_one_le_of_lt (lt_behind hsorted hlimit hx hy),
      decide_eq_true (h k x y hx hy)⟩

end Forward

/-! ## Binance Futures -/

namespace BinanceFutures

/-- A row of `/fapi/v1/fundingRate` (the fields read). -/
structure FundingRow where
  fundingTime : Int
  fundingRate : ℚ
  deriving DecidableEq, Repr

def fundingLimit : ℕ := 1000

def klineLimit : ℕ := 1500

/-- `fetch_funding(symbol, start_ns, end_ns)` on the rates of the symbol. -/
def fetchFunding (history : List FundingRow) (startNs endNs : Int) : List FundingRow :=
  forwardPages FundingRow.fundingTime fundingLimit 1 history (endNs / 1000000) history.length
    (startNs / 1000000)

/-- `fetch_klines(symbol, start_ns, end_ns, interval)` on the candles of the interval. -/
def fetchKlines (history : List KlineRow) (startNs endNs : Int) : List KlineRow :=
  forwardPages KlineRow.openMs klineLimit 60000 history (endNs / 1000000) history.length
    (startNs / 1000000)

variable {startNs endNs : Int}

/-- The rates of the range come back unless a full page ends a millisecond before its end. -/
theorem fetchFunding_eq_iff {history : List FundingRow}
    (hsorted : history.Pairwise fun a b => a.fundingTime < b.fundingTime)
    (hrange : startNs / 1000000 < endNs / 1000000) :
    fetchFunding history startNs endNs =
        inMs FundingRow.fundingTime history (startNs / 1000000) (endNs / 1000000) ↔
      ∀ k x y, (inMs FundingRow.fundingTime history (startNs / 1000000)
          (endNs / 1000000))[(k + 1) * fundingLimit - 1]? = some x →
        (inMs FundingRow.fundingTime history (startNs / 1000000)
          (endNs / 1000000))[(k + 1) * fundingLimit]? = some y →
          x.fundingTime + 1 < endNs / 1000000 := by
  have hwindow : (inMs FundingRow.fundingTime history (startNs / 1000000)
      (endNs / 1000000)).Pairwise fun a b => a.fundingTime < b.fundingTime :=
    hsorted.sublist List.filter_sublist
  rw [← pageSeparated_one_iff hwindow (by decide : 0 < fundingLimit)]
  exact forwardPages_eq_iff hsorted Int.one_pos (by decide) hrange 0

/-- Candles a minute apart come back unless a full page ends within a minute of the end. -/
theorem fetchKlines_eq_iff {history : List KlineRow}
    (hsorted : history.Pairwise fun a b => a.openMs + 60000 ≤ b.openMs)
    (hrange : startNs / 1000000 < endNs / 1000000) :
    fetchKlines history startNs endNs =
        inMs KlineRow.openMs history (startNs / 1000000) (endNs / 1000000) ↔
      ∀ k x y, (inMs KlineRow.openMs history (startNs / 1000000)
          (endNs / 1000000))[(k + 1) * klineLimit - 1]? = some x →
        (inMs KlineRow.openMs history (startNs / 1000000)
          (endNs / 1000000))[(k + 1) * klineLimit]? = some y →
          x.openMs + 60000 < endNs / 1000000 := by
  have hlt : history.Pairwise fun a b => a.openMs < b.openMs :=
    hsorted.imp fun hle => lt_of_lt_of_le (lt_add_of_pos_right _ (by decide)) hle
  refine (forwardPages_eq_iff hlt (by decide : (0 : Int) < 60000) (by decide) hrange 0).trans ?_
  constructor
  · intro h k x y hx hy
    exact of_decide_eq_true (h k x y hx hy).2
  · intro h k x y hx hy
    refine ⟨?_, decide_eq_true (h k x y hx hy)⟩
    have hwindow : (inMs KlineRow.openMs history (startNs / 1000000)
        (endNs / 1000000)).Pairwise fun a b => a.openMs + 60000 ≤ b.openMs :=
      hsorted.sublist List.filter_sublist
    rcases List.getElem?_eq_some_iff.1 hx with ⟨hi, rfl⟩
    rcases List.getElem?_eq_some_iff.1 hy with ⟨hj, rfl⟩
    have hpos : 0 < (k + 1) * klineLimit := Nat.mul_pos (Nat.succ_pos k) (by decide)
    exact List.pairwise_iff_getElem.1 hwindow _ _ hi hj (Nat.sub_lt hpos Nat.one_pos)

end BinanceFutures

/-! ## Bitfinex -/

namespace BitfinexSpot

def candleLimit : ℕ := 10000

/-- `for _ in range(5000)`. -/
def candleRounds : ℕ := 5000

/-- The loop of `fetch_klines`. -/
def fetchKlinePages (history : List KlineRow) (endNs : Int) : ℕ → Int → List KlineRow
  | 0, _ => []
  | rounds + 1, cur =>
      match (inMs KlineRow.openMs history cur (endNs / 1000000)).take candleLimit with
      | [] => []
      | first :: rest =>
          let rows := first :: rest
          let out := rows.takeWhile fun r => decide (msToNs r.openMs ≤ endNs)
          let newCur := (rows.getLast (List.cons_ne_nil first rest)).openMs + 1
          if newCur ≤ cur ∨ rows.length < candleLimit then out
          else out ++ fetchKlinePages history endNs rounds newCur

/-- `fetch_klines(symbol, start_ns, end_ns, interval)`. -/
def fetchKlines (history : List KlineRow) (startNs endNs : Int) : List KlineRow :=
  (fetchKlinePages history endNs candleRounds (startNs / 1000000)).insertionSort
    fun a b => a.openMs ≤ b.openMs

variable {history : List KlineRow} {startNs endNs : Int}

lemma fetchKlinePages_eq_pages :
    ∀ (rounds : ℕ) (cur : Int),
      fetchKlinePages history endNs rounds cur =
        pages KlineRow.openMs (· + 1) (fun _ => true) candleLimit
          (upToMs KlineRow.openMs history (endNs / 1000000)) rounds cur
  | 0, _ => rfl
  | rounds + 1, cur => by
      have ih := fetchKlinePages_eq_pages rounds
      have hin : ∀ r ∈ (inMs KlineRow.openMs history cur (endNs / 1000000)).take candleLimit,
          cur ≤ r.openMs ∧ msToNs r.openMs ≤ endNs := by
        intro r hr
        have hrange := (List.mem_filter.1 (List.mem_of_mem_take hr)).2
        simp only [Bool.and_eq_true, decide_eq_true_eq] at hrange
        refine ⟨hrange.1, ?_⟩
        unfold msToNs
        omega
      simp only [fetchKlinePages, pages]
      rw [inMs_eq_fromCursor] at hin ⊢
      cases hpage : (fromCursor KlineRow.openMs (upToMs KlineRow.openMs history
          (endNs / 1000000)) cur).take candleLimit with
      | nil => rfl
      | cons first rest =>
          rw [hpage] at hin
          have hall : (first :: rest).takeWhile (fun r => decide (msToNs r.openMs ≤ endNs)) =
              first :: rest :=
            List.takeWhile_eq_self_iff.2 fun r hr => decide_eq_true (hin r hr).2
          have hlast := (hin _ (List.getLast_mem (List.cons_ne_nil first rest))).1
          have hforward : ¬ ((first :: rest).getLast (List.cons_ne_nil first rest)).openMs + 1 ≤ cur := by
            omega
          rw [List.getLast?_eq_some_getLast (List.cons_ne_nil first rest)]
          simp only [hall, hforward, false_or, ih, if_true]

/-- The candles of the range come back, up to fifty million. -/
theorem fetchKlines_eq_iff (hsorted : history.Pairwise fun a b => a.openMs < b.openMs) :
    fetchKlines history startNs endNs =
        inMs KlineRow.openMs history (startNs / 1000000) (endNs / 1000000) ↔
      (inMs KlineRow.openMs history (startNs / 1000000) (endNs / 1000000)).length ≤
        candleRounds * candleLimit := by
  have hupTo : (upToMs KlineRow.openMs history (endNs / 1000000)).Pairwise
      fun a b => a.openMs ≤ b.openMs :=
    (hsorted.sublist List.filter_sublist).imp fun hlt => hlt.le
  have hadvance : ∀ ms : Int, ms < ms + 1 := fun ms => lt_add_one ms
  have hpages : (pages KlineRow.openMs (· + 1) (fun _ => true) candleLimit
      (upToMs KlineRow.openMs history (endNs / 1000000)) candleRounds (startNs / 1000000)).Sublist
        (fromCursor KlineRow.openMs (upToMs KlineRow.openMs history (endNs / 1000000))
          (startNs / 1000000)) :=
    pages_sublist hupTo hadvance (by decide) _ _
  have hsort : fetchKlines history startNs endNs =
      fetchKlinePages history endNs candleRounds (startNs / 1000000) := by
    refine List.Pairwise.insertionSort_eq ?_
    rw [fetchKlinePages_eq_pages]
    exact (hupTo.sublist List.filter_sublist).sublist hpages
  have hseparated : PageSeparated KlineRow.openMs (· + 1) (fun _ => true) candleLimit
      (inMs KlineRow.openMs history (startNs / 1000000) (endNs / 1000000)) := by
    intro k x y hx hy
    have hwindow : (inMs KlineRow.openMs history (startNs / 1000000)
        (endNs / 1000000)).Pairwise fun a b => a.openMs < b.openMs :=
      hsorted.sublist List.filter_sublist
    exact ⟨Int.add_one_le_of_lt (lt_behind hwindow (by decide) hx hy), rfl⟩
  rw [inMs_eq_fromCursor] at hseparated
  rw [hsort, fetchKlinePages_eq_pages, inMs_eq_fromCursor,
    pages_eq_iff hupTo hadvance (by decide)]
  exact and_iff_left hseparated

end BitfinexSpot

/-! ## OKX -/

namespace OKXSpot

def candleLimit : ℕ := 100

/-- `for _ in range(5000)`. -/
def candleRounds : ℕ := 5000

/-- What the venue answers to `{"after": ..., "limit": 100}`: the newest candles that open before,
newest first. -/
def historyCandles (history : List KlineRow) (afterMs : Int) : List KlineRow :=
  (beforeCursor KlineRow.openMs history afterMs).take candleLimit

/-- The loop of `fetch_klines`. -/
def fetchKlinePages (history : List KlineRow) (startMs : Int) : ℕ → Int → List KlineRow
  | 0, _ => []
  | rounds + 1, afterMs =>
      match historyCandles history afterMs with
      | [] => []
      | first :: rest =>
          let rows := first :: rest
          let out := rows.filter fun r => !decide (r.openMs < startMs)
          let oldest := (rows.getLast (List.cons_ne_nil first rest)).openMs
          if oldest ≤ startMs then out else out ++ fetchKlinePages history startMs rounds oldest

/-- `fetch_klines(symbol, start_ns, end_ns, interval)` on the candles of the interval, newest
first. -/
def fetchKlines (history : List KlineRow) (startNs endNs : Int) : List KlineRow :=
  (fetchKlinePages history (startNs / 1000000) candleRounds (endNs / 1000000)).insertionSort
    fun a b => a.openMs ≤ b.openMs

/-- The candles from the start on that open before the end. -/
def window (history : List KlineRow) (startNs endNs : Int) : List KlineRow :=
  (beforeCursor KlineRow.openMs history (endNs / 1000000)).filter fun r =>
    decide (startNs / 1000000 ≤ r.openMs)

variable {history : List KlineRow} {startNs endNs startMs : Int}

lemma not_early (startMs : Int) (r : KlineRow) :
    (!decide (r.openMs < startMs)) = decide (startMs ≤ r.openMs) := by
  rw [← decide_not]
  exact decide_eq_decide.2 not_lt

lemma fetchKlinePages_eq_pagesBack :
    ∀ (rounds : ℕ) (afterMs : Int),
      fetchKlinePages history startMs rounds afterMs =
        (pagesBack KlineRow.openMs candleLimit startMs history rounds afterMs).filter
          fun r => decide (startMs ≤ r.openMs)
  | 0, _ => rfl
  | rounds + 1, afterMs => by
      have ih := fetchKlinePages_eq_pagesBack rounds
      simp only [fetchKlinePages, pagesBack, historyCandles, not_early]
      cases hpage : (beforeCursor KlineRow.openMs history afterMs).take candleLimit with
      | nil => rfl
      | cons first rest =>
          rw [List.getLast?_eq_some_getLast (List.cons_ne_nil first rest)]
          simp only [List.filter_append, ih]
          split_ifs
          · exact (List.append_nil _).symm
          · rfl

/-- The candles of the window come back, oldest first, up to half a million. -/
theorem fetchKlines_eq_iff (hsorted : history.Pairwise fun a b => b.openMs < a.openMs) :
    fetchKlines history startNs endNs = (window history startNs endNs).reverse ↔
      (window history startNs endNs).length ≤ candleRounds * candleLimit := by
  have hbefore : (beforeCursor KlineRow.openMs history (endNs / 1000000)).Pairwise
      fun a b => b.openMs < a.openMs := hsorted.sublist List.filter_sublist
  have hpages : fetchKlinePages history (startNs / 1000000) candleRounds (endNs / 1000000) =
      (window history startNs endNs).take (candleRounds * candleLimit) := by
    rw [fetchKlinePages_eq_pagesBack, pagesBack_filter hsorted (by decide),
      filter_take_of_sorted _ _ hbefore]
    rfl
  have hsort : fetchKlines history startNs endNs =
      ((window history startNs endNs).take (candleRounds * candleLimit)).reverse := by
    have hdesc : ((window history startNs endNs).take (candleRounds * candleLimit)).Pairwise
        fun a b => b.openMs < a.openMs :=
      (hbefore.sublist List.filter_sublist).sublist (List.take_sublist _ _)
    have hasc := List.pairwise_reverse.2 hdesc
    unfold fetchKlines
    rw [hpages]
    refine List.Perm.eq_of_pairwise ?_ (List.pairwise_insertionSort _ _)
      (hasc.imp fun hlt => hlt.le) ((List.perm_insertionSort _ _).trans (List.reverse_perm _).symm)
    intro a b ha hb hab hba
    have hopen : (((window history startNs endNs).take (candleRounds * candleLimit)).map
        KlineRow.openMs).Nodup := List.pairwise_map.2 (hdesc.imp fun hlt => hlt.ne')
    exact List.inj_on_of_nodup_map hopen (((List.perm_insertionSort _ _).mem_iff).1 ha)
      (List.mem_reverse.1 hb) (le_antisymm hab hba)
  rw [hsort]
  constructor
  · intro heq
    exact (List.take_eq_self_iff _).1 (List.reverse_injective heq)
  · intro hle
    rw [List.take_of_length_le hle]

end OKXSpot

/-- When each of the four fetchers returns what the venue has for its range. -/
theorem paged_history_exact_iff (rates : List BinanceFutures.FundingRow)
    (futures bitfinex okx : List KlineRow) (startNs endNs : Int)
    (hrange : startNs / 1000000 < endNs / 1000000)
    (hrates : rates.Pairwise fun a b => a.fundingTime < b.fundingTime)
    (hfutures : futures.Pairwise fun a b => a.openMs + 60000 ≤ b.openMs)
    (hbitfinex : bitfinex.Pairwise fun a b => a.openMs < b.openMs)
    (hokx : okx.Pairwise fun a b => b.openMs < a.openMs) :
    (BinanceFutures.fetchFunding rates startNs endNs =
        inMs BinanceFutures.FundingRow.fundingTime rates (startNs / 1000000) (endNs / 1000000) ↔
      ∀ k x y, (inMs BinanceFutures.FundingRow.fundingTime rates (startNs / 1000000)
          (endNs / 1000000))[(k + 1) * BinanceFutures.fundingLimit - 1]? = some x →
        (inMs BinanceFutures.FundingRow.fundingTime rates (startNs / 1000000)
          (endNs / 1000000))[(k + 1) * BinanceFutures.fundingLimit]? = some y →
          x.fundingTime + 1 < endNs / 1000000) ∧
    (BinanceFutures.fetchKlines futures startNs endNs =
        inMs KlineRow.openMs futures (startNs / 1000000) (endNs / 1000000) ↔
      ∀ k x y, (inMs KlineRow.openMs futures (startNs / 1000000)
          (endNs / 1000000))[(k + 1) * BinanceFutures.klineLimit - 1]? = some x →
        (inMs KlineRow.openMs futures (startNs / 1000000)
          (endNs / 1000000))[(k + 1) * BinanceFutures.klineLimit]? = some y →
          x.openMs + 60000 < endNs / 1000000) ∧
    (BitfinexSpot.fetchKlines bitfinex startNs endNs =
        inMs KlineRow.openMs bitfinex (startNs / 1000000) (endNs / 1000000) ↔
      (inMs KlineRow.openMs bitfinex (startNs / 1000000) (endNs / 1000000)).length ≤
        BitfinexSpot.candleRounds * BitfinexSpot.candleLimit) ∧
    (OKXSpot.fetchKlines okx startNs endNs = (OKXSpot.window okx startNs endNs).reverse ↔
      (OKXSpot.window okx startNs endNs).length ≤
        OKXSpot.candleRounds * OKXSpot.candleLimit) :=
  ⟨BinanceFutures.fetchFunding_eq_iff hrates hrange, BinanceFutures.fetchKlines_eq_iff hfutures hrange,
    BitfinexSpot.fetchKlines_eq_iff hbitfinex, OKXSpot.fetchKlines_eq_iff hokx⟩

/-- Two candles, of which the second opens at the end of the range. -/
def twoMinutes : List KlineRow :=
  [⟨0, 1, 1, 1, 1, 1, 0⟩, ⟨60000, 2, 2, 2, 2, 1, 0⟩]

/-- Bitfinex returns the candle at the end, OKX does not. -/
theorem paged_history_two_minutes :
    BitfinexSpot.fetchKlines twoMinutes 0 60000000000 = twoMinutes ∧
      OKXSpot.fetchKlines twoMinutes.reverse 0 60000000000 = twoMinutes.take 1 := by
  rcases paged_history_exact_iff [] twoMinutes twoMinutes twoMinutes.reverse 0 60000000000
      (by decide) List.Pairwise.nil (by decide) (by decide) (by decide) with
    ⟨_, _, hbitfinex, hokx⟩
  have hall : inMs KlineRow.openMs twoMinutes (0 / 1000000) (60000000000 / 1000000) = twoMinutes := by
    decide +kernel
  have hfirst : (OKXSpot.window twoMinutes.reverse 0 60000000000).reverse = twoMinutes.take 1 := by
    decide +kernel
  rw [hall] at hbitfinex
  rw [hfirst] at hokx
  exact ⟨hbitfinex.2 (by decide), hokx.2 (by decide)⟩

end CryptoData
