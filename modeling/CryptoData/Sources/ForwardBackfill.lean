import CryptoData.Foundation.Paging
import CryptoData.Sources.Bitfinex
import Mathlib.Data.List.TakeWhile

/-!
# ForwardBackfill — time cursors that move forward

Binance and Bitfinex answer a range of milliseconds oldest first, and their adapters continue a
millisecond behind the last trade of a page.  Both loops are instances of `pages`
(`fetchPages_eq_pages`, `BitfinexSpot.fetchPages_eq_pages`), so what they miss is what a page
boundary cuts off: trades that share the millisecond of the last trade of a full page, and, on
Binance, whatever stands behind a full page that ends a millisecond before the end of the range.
What they return in excess are the trades of the first millisecond that are earlier than the window
(`forward_backfill_exact_iff`).
-/

namespace CryptoData

open Foundation

/-! ## Milliseconds and windows -/

section Window

variable {α : Type*} (timeMs : α → Int)

/-- The elements of a range of milliseconds. -/
def inMs (xs : List α) (startMs endMs : Int) : List α :=
  xs.filter fun x => decide (startMs ≤ timeMs x) && decide (timeMs x ≤ endMs)

/-- The elements of a window of nanoseconds. -/
def inWindow (xs : List α) (startNs endNs : Int) : List α :=
  xs.filter fun x => decide (startNs ≤ msToNs (timeMs x)) && decide (msToNs (timeMs x) ≤ endNs)

variable {timeMs} {xs : List α} {startNs endNs : Int}

/-- The elements up to a millisecond. -/
def upToMs (timeMs : α → Int) (xs : List α) (endMs : Int) : List α :=
  xs.filter fun x => decide (timeMs x ≤ endMs)

lemma inMs_eq_fromCursor (startMs endMs : Int) :
    inMs timeMs xs startMs endMs = fromCursor timeMs (upToMs timeMs xs endMs) startMs := by
  unfold inMs fromCursor upToMs
  rw [List.filter_filter]

lemma inWindow_eq_filter :
    inWindow timeMs xs startNs endNs =
      (inMs timeMs xs (startNs / 1000000) (endNs / 1000000)).filter fun x =>
        decide (startNs ≤ msToNs (timeMs x)) := by
  unfold inWindow inMs
  rw [List.filter_filter]
  refine List.filter_congr ?_
  intro x _
  rw [← Bool.decide_and, ← Bool.decide_and, ← Bool.decide_and]
  refine decide_eq_decide.2 ?_
  unfold msToNs
  omega

/-- What is collected from the milliseconds of a window is the window exactly if nothing precedes
the window and nothing is missing. -/
lemma perm_inWindow_iff (hsorted : xs.Pairwise fun x y => timeMs x ≤ timeMs y) {rows : List α}
    (hsub : rows.Sublist (inMs timeMs xs (startNs / 1000000) (endNs / 1000000)))
    (hhead : ∀ x, (inMs timeMs xs (startNs / 1000000) (endNs / 1000000))[0]? = some x → x ∈ rows) :
    rows.Perm (inWindow timeMs xs startNs endNs) ↔
      (∀ x ∈ inMs timeMs xs (startNs / 1000000) (endNs / 1000000),
        startNs ≤ msToNs (timeMs x)) ∧
        rows = inMs timeMs xs (startNs / 1000000) (endNs / 1000000) := by
  have hlater : (inMs timeMs xs (startNs / 1000000) (endNs / 1000000)).Pairwise fun x y =>
      decide (startNs ≤ msToNs (timeMs x)) = true →
        decide (startNs ≤ msToNs (timeMs y)) = true := by
    refine (hsorted.sublist List.filter_sublist).imp ?_
    intro x y hle hx
    have hmono : msToNs (timeMs x) ≤ msToNs (timeMs y) := by
      unfold msToNs
      omega
    exact decide_eq_true (le_trans (of_decide_eq_true hx) hmono)
  rw [inWindow_eq_filter, perm_filter_iff hsub hlater hhead]
  simp only [decide_eq_true_eq]

/-- A page reader over the milliseconds of a window, with enough rounds. -/
lemma pages_perm_inWindow_iff (hsorted : xs.Pairwise fun x y => timeMs x ≤ timeMs y)
    {going : Int → Bool} {limit rounds : ℕ} (hlimit : 0 < limit) (hrounds : 0 < rounds)
    (hcap : (inMs timeMs xs (startNs / 1000000) (endNs / 1000000)).length ≤ rounds * limit) :
    (pages timeMs (· + 1) going limit (upToMs timeMs xs (endNs / 1000000)) rounds
        (startNs / 1000000)).Perm (inWindow timeMs xs startNs endNs) ↔
      (∀ x ∈ inMs timeMs xs (startNs / 1000000) (endNs / 1000000), startNs ≤ msToNs (timeMs x)) ∧
        PageSeparated timeMs (· + 1) going limit
          (inMs timeMs xs (startNs / 1000000) (endNs / 1000000)) := by
  have hadvance : ∀ ms : Int, ms < ms + 1 := fun ms => Int.lt_add_one_iff.2 (le_refl ms)
  have hupTo : (upToMs timeMs xs (endNs / 1000000)).Pairwise fun x y => timeMs x ≤ timeMs y :=
    hsorted.sublist List.filter_sublist
  obtain ⟨more, rfl⟩ : ∃ more, rounds = more + 1 := ⟨rounds - 1, by omega⟩
  have hwindow : inMs timeMs xs (startNs / 1000000) (endNs / 1000000) = _ :=
    inMs_eq_fromCursor (startNs / 1000000) (endNs / 1000000)
  rw [perm_inWindow_iff hsorted]
  · rw [hwindow, pages_eq_iff hupTo hadvance hlimit, ← hwindow]
    exact and_congr_right fun _ => and_iff_right hcap
  · rw [hwindow]
    exact pages_sublist hupTo hadvance hlimit _ _
  · rw [hwindow]
    exact fun x hx => mem_pages_of_head hlimit more hx

end Window

/-! ## Binance -/

section Binance

variable {history : List VenueTrade} {symbol : String} {startMs endMs : Int}

/-- The venue's trades of a symbol. -/
def symbolTrades (history : List VenueTrade) (symbol : String) : List VenueTrade :=
  history.filter fun v => decide (v.symbol = symbol)

lemma aggTrades_eq_take :
    aggTrades history symbol startMs endMs =
      (fromCursor VenueTrade.timeMs (upToMs VenueTrade.timeMs (symbolTrades history symbol) endMs)
        startMs).take pageLimit := by
  rw [← inMs_eq_fromCursor]
  unfold aggTrades inMs symbolTrades
  rw [List.filter_filter]
  congr 1
  refine List.filter_congr ?_
  intro v _
  rw [Bool.and_assoc, Bool.and_comm]

/-- The loop is a page reader behind its guard. -/
lemma fetchPages_eq_pages :
    ∀ (rounds : ℕ) (cursorMs : Int),
      fetchPages history symbol endMs rounds cursorMs =
        if cursorMs < endMs then
          pages VenueTrade.timeMs (· + 1) (fun c => decide (c < endMs)) pageLimit
            (upToMs VenueTrade.timeMs (symbolTrades history symbol) endMs) rounds cursorMs
        else [] := by
  intro rounds
  induction rounds with
  | zero =>
      intro cursorMs
      simp [fetchPages, pages]
  | succ rounds ih =>
      intro cursorMs
      by_cases hcursor : cursorMs < endMs
      · simp only [fetchPages, pages, hcursor, if_true, ← aggTrades_eq_take]
        cases hpage : aggTrades history symbol cursorMs endMs with
        | nil => rfl
        | cons first rest =>
            rw [List.getLast?_eq_some_getLast (List.cons_ne_nil first rest)]
            simp only [ih, decide_eq_true_eq]
      · simp only [fetchPages, hcursor, if_false]

/-- Any number of further rounds changes nothing. -/
lemma fetchPages_add {cursorMs : Int} {rounds : ℕ} (hrounds : (endMs - cursorMs).toNat ≤ rounds) :
    ∀ more : ℕ, fetchPages history symbol endMs (rounds + more) cursorMs =
      fetchPages history symbol endMs rounds cursorMs := by
  intro more
  induction more with
  | zero => rfl
  | succ more ih =>
      have hle : (endMs - cursorMs).toNat ≤ rounds + more := Nat.le_add_right_of_le hrounds
      calc
        fetchPages history symbol endMs (rounds + (more + 1)) cursorMs =
            fetchPages history symbol endMs (rounds + more) cursorMs := fetchPages_succ _ _ hle
        _ = fetchPages history symbol endMs rounds cursorMs := ih

/-- When `BinanceSpot.fetch_trades` is exact.  In a range of two milliseconds or more: no trade of
its first millisecond is earlier than the window, and no boundary between full pages falls into a
group of equal milliseconds or leaves less than a millisecond to read.  In a range of one
millisecond, which is not requested at all: the window has no trade. -/
def ForwardExact (history : List VenueTrade) (symbol : String) (startNs endNs : Int) : Prop :=
  let trades := symbolTrades history symbol
  let startMs := startNs / 1000000
  let endMs := endNs / 1000000
  if startMs < endMs then
    (∀ v ∈ inMs VenueTrade.timeMs trades startMs endMs, startNs ≤ msToNs v.timeMs) ∧
      PageSeparated VenueTrade.timeMs (· + 1) (fun c => decide (c < endMs)) pageLimit
        (inMs VenueTrade.timeMs trades startMs endMs)
  else
    inWindow VenueTrade.timeMs trades startNs endNs = []

lemma fetchTrades_perm_iff {startNs endNs : Int}
    (hsorted : history.Pairwise fun x y => x.timeMs ≤ y.timeMs) :
    (fetchTrades history symbol startNs endNs).Perm
        (inWindow VenueTrade.timeMs (symbolTrades history symbol) startNs endNs) ↔
      ForwardExact history symbol startNs endNs := by
  have htrades : (symbolTrades history symbol).Pairwise fun x y => x.timeMs ≤ y.timeMs :=
    hsorted.sublist List.filter_sublist
  let width := (endNs / 1000000 - startNs / 1000000).toNat
  let window := inMs VenueTrade.timeMs (symbolTrades history symbol) (startNs / 1000000)
    (endNs / 1000000)
  by_cases hrange : startNs / 1000000 < endNs / 1000000
  · -- With as many more rounds as there are trades, the rounds are no limit.
    have hmore : fetchPages history symbol (endNs / 1000000) (width + window.length)
        (startNs / 1000000) = fetchTrades history symbol startNs endNs :=
      fetchPages_add (le_refl width) window.length
    have hwidth : 0 < width := by omega
    have hcap : window.length ≤ (width + window.length) * pageLimit :=
      le_trans (Nat.le_add_left _ width) (Nat.le_mul_of_pos_right _ (by decide))
    rw [← hmore, fetchPages_eq_pages, if_pos hrange,
      pages_perm_inWindow_iff htrades (by decide) (Nat.add_pos_left hwidth _) hcap]
    simp only [ForwardExact, hrange, if_true]
  · have hnone : fetchTrades history symbol startNs endNs = [] := by
      unfold fetchTrades
      rw [fetchPages_eq_pages, if_neg hrange]
    simp only [ForwardExact, hrange, if_false, hnone, List.nil_perm]

end Binance

/-! ## Bitfinex -/

namespace BitfinexSpot

variable {history : List HistRow} {startNs endNs : Int}

lemma hist_eq_take {startMs endMs : Int} :
    hist history startMs endMs =
      (fromCursor HistRow.mts (upToMs HistRow.mts history endMs) startMs).take histLimit := by
  rw [← inMs_eq_fromCursor]
  rfl

/-- The loop is a page reader: the rows it drops and the cursor it guards against do not occur. -/
lemma fetchPages_eq_pages :
    ∀ (rounds : ℕ) (cur : Int),
      fetchPages history endNs rounds cur =
        pages HistRow.mts (· + 1) (fun _ => true) histLimit
          (upToMs HistRow.mts history (endNs / 1000000)) rounds cur := by
  intro rounds
  induction rounds with
  | zero =>
      intro cur
      rfl
  | succ rounds ih =>
      intro cur
      simp only [fetchPages, pages, ← hist_eq_take]
      cases hpage : hist history cur (endNs / 1000000) with
      | nil => rfl
      | cons first rest =>
          have hmem : ∀ r ∈ first :: rest, cur ≤ r.mts ∧ r.mts ≤ endNs / 1000000 := by
            intro r hr
            rw [← hpage] at hr
            have hrange := (List.mem_filter.1 (List.mem_of_mem_take hr)).2
            simpa using hrange
          have hkept : ((first :: rest).takeWhile fun r => !decide (r.tsNs > endNs)) =
              first :: rest := by
            refine List.takeWhile_eq_self_iff.2 ?_
            intro r hr
            have hend := (hmem r hr).2
            have hle : ¬ r.tsNs > endNs := by
              unfold HistRow.tsNs msToNs
              omega
            simp [hle]
          have hcursor :
              ¬ ((first :: rest).getLast (List.cons_ne_nil first rest)).mts + 1 ≤ cur := by
            have hlast := (hmem _ (List.getLast_mem (List.cons_ne_nil first rest))).1
            omega
          rw [List.getLast?_eq_some_getLast (List.cons_ne_nil first rest)]
          simp only [hkept, hcursor, false_or, ih, if_true]

/-- When `BitfinexSpot.fetch_trades` is exact: no trade of the first millisecond is earlier than the
window, and no boundary between full pages falls into a group of equal milliseconds. -/
def ForwardExact (history : List HistRow) (startNs endNs : Int) : Prop :=
  let window := inMs HistRow.mts history (startNs / 1000000) (endNs / 1000000)
  (∀ r ∈ window, startNs ≤ r.tsNs) ∧
    PageSeparated HistRow.mts (· + 1) (fun _ => true) histLimit window

lemma fetchTrades_perm_iff (hsorted : history.Pairwise fun x y => x.mts ≤ y.mts)
    (hcap : (inMs HistRow.mts history (startNs / 1000000) (endNs / 1000000)).length ≤
      pageCap * histLimit) :
    (fetchTrades history startNs endNs).Perm (inWindow HistRow.mts history startNs endNs) ↔
      ForwardExact history startNs endNs := by
  have hsort : (fetchTrades history startNs endNs).Perm
      (fetchPages history endNs pageCap (startNs / 1000000)) := List.perm_insertionSort _ _
  rw [hsort.congr_left, fetchPages_eq_pages, pages_perm_inWindow_iff hsorted (by decide)
    (by decide) hcap]
  exact Iff.rfl

end BitfinexSpot

/-! ## Both adapters -/

/-- The two backfills end, and return exactly the trades of the window under the conditions above;
for Bitfinex within the two thousand pages it reads. -/
theorem forward_backfill_exact_iff (history : List VenueTrade) (rows : List BitfinexSpot.HistRow)
    (symbol : String) (startNs endNs : Int)
    (hhistory : history.Pairwise fun x y => x.timeMs ≤ y.timeMs)
    (hrows : rows.Pairwise fun x y => x.mts ≤ y.mts)
    (hcap : (inMs BitfinexSpot.HistRow.mts rows (startNs / 1000000) (endNs / 1000000)).length ≤
      BitfinexSpot.pageCap * BitfinexSpot.histLimit) :
    (∀ more, fetchPages history symbol (endNs / 1000000)
        ((endNs / 1000000 - startNs / 1000000).toNat + more) (startNs / 1000000) =
          fetchTrades history symbol startNs endNs) ∧
      ((fetchTrades history symbol startNs endNs).Perm
          (inWindow VenueTrade.timeMs (symbolTrades history symbol) startNs endNs) ↔
        ForwardExact history symbol startNs endNs) ∧
      ((BitfinexSpot.fetchTrades rows startNs endNs).Perm
          (inWindow BitfinexSpot.HistRow.mts rows startNs endNs) ↔
        BitfinexSpot.ForwardExact rows startNs endNs) :=
  ⟨fetchPages_add (le_refl _), fetchTrades_perm_iff hhistory,
    BitfinexSpot.fetchTrades_perm_iff hrows hcap⟩

theorem forward_backfill_exact_iff_burst :
    let trade : Int → VenueTrade := fun id =>
      { symbol := "BTC-USDT", streamId := id, aggId := id, timeMs := 7, price := 100, qty := 1
        buyerIsMaker := false }
    let row : Int → BitfinexSpot.HistRow := fun id =>
      { id := id, mts := 7, amount := 1, price := 100 }
    ((fetchTrades [trade 1, trade 2] "BTC-USDT" 6500000 9000000).Perm
        (inWindow VenueTrade.timeMs (symbolTrades [trade 1, trade 2] "BTC-USDT") 6500000 9000000) ↔
      ForwardExact [trade 1, trade 2] "BTC-USDT" 6500000 9000000) ∧
    ((BitfinexSpot.fetchTrades [row 1, row 2] 6500000 9000000).Perm
        (inWindow BitfinexSpot.HistRow.mts [row 1, row 2] 6500000 9000000) ↔
      BitfinexSpot.ForwardExact [row 1, row 2] 6500000 9000000) :=
  (forward_backfill_exact_iff _ _ "BTC-USDT" 6500000 9000000 (by decide) (by decide)
    (by decide)).2

/-- A thousand and one trades in one millisecond: the last one is not fetched. -/
theorem busy_millisecond_loses_trade :
    let trade : ℕ → VenueTrade := fun id =>
      { symbol := "BTC-USDT", streamId := id, aggId := id, timeMs := 7, price := 100, qty := 1
        buyerIsMaker := false }
    let trades := (List.range 1001).map trade
    ¬ (fetchTrades trades "BTC-USDT" 0 9000000).Perm
      (inWindow VenueTrade.timeMs (symbolTrades trades "BTC-USDT") 0 9000000) := by
  intro trade trades
  have hsorted : trades.Pairwise fun x y => x.timeMs ≤ y.timeMs :=
    List.pairwise_map.2 (List.pairwise_of_forall fun _ _ => le_refl (7 : Int))
  have hall : inMs VenueTrade.timeMs (symbolTrades trades "BTC-USDT") 0 9 = trades := by
    unfold inMs symbolTrades
    rw [List.filter_filter]
    refine List.filter_eq_self.2 ?_
    intro v hv
    rcases List.mem_map.1 hv with ⟨id, _, rfl⟩
    rfl
  have hat : ∀ {id : ℕ}, id < 1001 → trades[id]? = some (trade id) := by
    intro id hid
    rw [List.getElem?_map, List.getElem?_range hid]
    rfl
  rw [fetchTrades_perm_iff hsorted]
  intro hexact
  have hsep : PageSeparated VenueTrade.timeMs (· + 1) (fun c => decide (c < 9)) pageLimit
      (inMs VenueTrade.timeMs (symbolTrades trades "BTC-USDT") 0 9) := hexact.2
  rw [hall] at hsep
  have hboundary : (7 : Int) + 1 ≤ 7 :=
    (hsep 0 (trade 999) (trade 1000) (hat (by decide)) (hat (by decide))).1
  exact absurd hboundary (by decide)

end CryptoData
