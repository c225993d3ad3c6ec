import CryptoData.Foundation.Bucket
import CryptoData.Sources.ForwardBackfill

/-!
# Klines — the candles of Binance and Bybit

Both loops continue sixty seconds behind a candle of a full page, whatever the interval: Binance
behind its last candle, which is right for candles of a minute and more, and Bybit, which is
answered newest first, behind its newest candle, where nothing is left.  So Binance skips whatever
opens within a minute behind a full page (`BinanceSpot.fetchKlines_complete_iff`), and Bybit never
returns more than the newest thousand candles (`BybitPerp.fetchKlines_complete_iff`).
-/

namespace CryptoData

open Foundation

/-- A candle as the venue sends it, of one interval. -/
structure KlineRow where
  openMs : Int
  «open» : ℚ
  high : ℚ
  low : ℚ
  close : ℚ
  volume : ℚ
  trades : ℕ
  deriving DecidableEq, Repr

/-- The `limit` of a request. -/
def klineLimit : ℕ := 1000

section Window

variable {history : List KlineRow} {startNs endNs : Int}

/-- Every candle of the window, once. -/
def Complete (history : List KlineRow) (startNs endNs : Int) (rows : List KlineRow) : Prop :=
  ∀ c ∈ inWindow KlineRow.openMs history startNs endNs, rows.count c = 1

lemma inMs_nodup (hopen : history.Pairwise fun a b => a.openMs < b.openMs) (startMs endMs : Int) :
    (inMs KlineRow.openMs history startMs endMs).Nodup := by
  refine (hopen.sublist List.filter_sublist).imp ?_
  intro a b hlt heq
  rw [heq] at hlt
  exact lt_irrefl _ hlt

/-- A part of the candles of the milliseconds is complete if it holds the candles of the window. -/
lemma complete_iff (hopen : history.Pairwise fun a b => a.openMs < b.openMs) {rows : List KlineRow}
    (hsub : rows.Sublist (inMs KlineRow.openMs history (startNs / 1000000) (endNs / 1000000))) :
    Complete history startNs endNs rows ↔
      ∀ c ∈ inWindow KlineRow.openMs history startNs endNs, c ∈ rows := by
  have hnodup : rows.Nodup := (inMs_nodup hopen _ _).sublist hsub
  refine forall₂_congr ?_
  intro c _
  exact ⟨fun h => List.count_pos_iff.1 (h ▸ Nat.one_pos), List.count_eq_one_of_mem hnodup⟩

/-- The only candle of the first millisecond is the first one, if it precedes the window. -/
lemma early_is_first (hopen : history.Pairwise fun a b => a.openMs < b.openMs) {c : KlineRow}
    (hc : c ∈ inMs KlineRow.openMs history (startNs / 1000000) (endNs / 1000000))
    (hearly : msToNs c.openMs < startNs) :
    (inMs KlineRow.openMs history (startNs / 1000000) (endNs / 1000000))[0]? = some c := by
  have hsorted := hopen.sublist
    (List.filter_sublist (p := fun a : KlineRow => decide (startNs / 1000000 ≤ a.openMs) &&
      decide (a.openMs ≤ endNs / 1000000)))
  change (inMs KlineRow.openMs history _ _).Pairwise _ at hsorted
  cases hwindow : inMs KlineRow.openMs history (startNs / 1000000) (endNs / 1000000) with
  | nil =>
      rw [hwindow] at hc
      cases hc
  | cons first rest =>
      rw [hwindow] at hc hsorted
      rcases List.mem_cons.1 hc with rfl | hrest
      · rfl
      · -- A second candle opens a millisecond or more after the start.
        have hlt := (List.pairwise_cons.1 hsorted).1 c hrest
        have hfirst :
            first ∈ inMs KlineRow.openMs history (startNs / 1000000) (endNs / 1000000) := by
          rw [hwindow]
          exact List.mem_cons_self
        have hrange := (List.mem_filter.1 hfirst).2
        simp only [Bool.and_eq_true, decide_eq_true_eq] at hrange
        unfold msToNs at hearly
        omega

end Window

/-! ## Binance -/

namespace BinanceSpot

/-- What the venue answers to `{"startTime": ..., "endTime": ..., "limit": 1000}`, oldest first. -/
def klines (history : List KlineRow) (startMs endMs : Int) : List KlineRow :=
  (inMs KlineRow.openMs history startMs endMs).take klineLimit

/-- `while cursor_ms < end_ms: ...` -/
def fetchKlinePages (history : List KlineRow) (endMs : Int) : ℕ → Int → List KlineRow
  | 0, _ => []
  | rounds + 1, cursorMs =>
      if cursorMs < endMs then
        match klines history cursorMs endMs with
        | [] => []
        | first :: rest =>
            let rows := first :: rest
            let last := rows.getLast (List.cons_ne_nil first rest)
            -- `1m step; works for finer intervals too thanks to limit`
            if rows.length < klineLimit then rows
            else rows ++ fetchKlinePages history endMs rounds (last.openMs + 60000)
      else
        []

/-- `fetch_klines(symbol, start_ns, end_ns, interval)` on the candles of the interval.  A full page
holds new candles, so their number bounds the rounds (`fetchKlinePages_add`). -/
def fetchKlines (history : List KlineRow) (startNs endNs : Int) : List KlineRow :=
  fetchKlinePages history (endNs / 1000000) history.length (startNs / 1000000)

section Run

variable {history : List KlineRow} {startNs endNs endMs : Int}

/-- The loop is a page reader behind its guard. -/
lemma fetchKlinePages_eq_pages :
    ∀ (rounds : ℕ) (cursorMs : Int),
      fetchKlinePages history endMs rounds cursorMs =
        if cursorMs < endMs then
          pages KlineRow.openMs (· + 60000) (fun c => decide (c < endMs)) klineLimit
            (upToMs KlineRow.openMs history endMs) rounds cursorMs
        else [] := by
  intro rounds
  induction rounds with
  | zero =>
      intro cursorMs
      simp [fetchKlinePages, pages]
  | succ rounds ih =>
      intro cursorMs
      by_cases hcursor : cursorMs < endMs
      · simp only [fetchKlinePages, pages, hcursor, if_true, klines, inMs_eq_fromCursor]
        cases (fromCursor KlineRow.openMs (upToMs KlineRow.openMs history endMs)
            cursorMs).take klineLimit with
        | nil => rfl
        | cons first rest =>
            rw [List.getLast?_eq_some_getLast (List.cons_ne_nil first rest)]
            simp only [ih, decide_eq_true_eq]
      · simp only [fetchKlinePages, hcursor, if_false]

lemma advance_lt (ms : Int) : ms < ms + 60000 := by omega

lemma upToMs_sorted (hopen : history.Pairwise fun a b => a.openMs < b.openMs) (endMs : Int) :
    (upToMs KlineRow.openMs history endMs).Pairwise fun a b => a.openMs ≤ b.openMs :=
  (hopen.sublist List.filter_sublist).imp fun hlt => hlt.le

/-- Any number of further rounds changes nothing. -/
lemma fetchKlinePages_add (hopen : history.Pairwise fun a b => a.openMs < b.openMs)
    (startMs : Int) (more : ℕ) :
    fetchKlinePages history endMs (history.length + more) startMs =
      fetchKlinePages history endMs history.length startMs := by
  rw [fetchKlinePages_eq_pages, fetchKlinePages_eq_pages]
  have hlength : (fromCursor KlineRow.openMs (upToMs KlineRow.openMs history endMs)
      startMs).length ≤ history.length * klineLimit :=
    le_trans ((List.filter_sublist.trans List.filter_sublist).length_le)
      (Nat.le_mul_of_pos_right _ (by decide))
  rw [pages_add (upToMs_sorted hopen endMs) advance_lt (by decide) more _ hlength]

/-- When the backfill is complete: every boundary behind a full page is followed by a minute without
a candle, and there is more than the end of the range to read.  A range of one millisecond is not
requested. -/
def Spaced (history : List KlineRow) (startNs endNs : Int) : Prop :=
  let startMs := startNs / 1000000
  let endMs := endNs / 1000000
  if startMs < endMs then
    PageSeparated KlineRow.openMs (· + 60000) (fun c => decide (c < endMs)) klineLimit
      (inMs KlineRow.openMs history startMs endMs)
  else
    inWindow KlineRow.openMs history startNs endNs = []

/-- The backfill is complete exactly if no page boundary skips a candle. -/
lemma fetchKlines_complete_iff (hopen : history.Pairwise fun a b => a.openMs < b.openMs) :
    Complete history startNs endNs (fetchKlines history startNs endNs) ↔
      Spaced history startNs endNs := by
  by_cases hrange : startNs / 1000000 < endNs / 1000000
  · let window := inMs KlineRow.openMs history (startNs / 1000000) (endNs / 1000000)
    have hwindow : window = fromCursor KlineRow.openMs
        (upToMs KlineRow.openMs history (endNs / 1000000)) (startNs / 1000000) :=
      inMs_eq_fromCursor (startNs / 1000000) (endNs / 1000000)
    have hsorted := upToMs_sorted hopen (endNs / 1000000)
    have hfetch : fetchKlines history startNs endNs =
        pages KlineRow.openMs (· + 60000) (fun c => decide (c < endNs / 1000000)) klineLimit
          (upToMs KlineRow.openMs history (endNs / 1000000)) (history.length + 1)
          (startNs / 1000000) := by
      have hmore : fetchKlinePages history (endNs / 1000000) (history.length + 1)
          (startNs / 1000000) = fetchKlines history startNs endNs := fetchKlinePages_add hopen _ 1
      rw [← hmore, fetchKlinePages_eq_pages, if_pos hrange]
    have hsub : (fetchKlines history startNs endNs).Sublist window := by
      rw [hfetch, hwindow]
      exact pages_sublist hsorted advance_lt (by decide) _ _
    have hlength : window.length ≤ (history.length + 1) * klineLimit := by
      have hle : window.length ≤ history.length := List.filter_sublist.length_le
      unfold klineLimit
      omega
    have hall : fetchKlines history startNs endNs = window ↔
        PageSeparated KlineRow.openMs (· + 60000) (fun c => decide (c < endNs / 1000000)) klineLimit
          window := by
      rw [hfetch, hwindow, pages_eq_iff hsorted advance_lt (by decide), ← hwindow]
      exact and_iff_right hlength
    have hspaced : Spaced history startNs endNs ↔ PageSeparated KlineRow.openMs (· + 60000)
        (fun c => decide (c < endNs / 1000000)) klineLimit window := by
      simp only [Spaced, hrange, if_true]
      exact Iff.rfl
    rw [complete_iff hopen hsub, hspaced, ← hall]
    constructor
    · intro hcomplete
      have hmem : window ⊆ fetchKlines history startNs endNs := by
        intro c hc
        by_cases hearly : msToNs c.openMs < startNs
        · have hfirst : window[0]? = some c := early_is_first hopen hc hearly
          rw [hwindow] at hfirst
          rw [hfetch]
          exact mem_pages_of_head (by decide) _ hfirst
        · refine hcomplete c ?_
          rw [inWindow_eq_filter]
          exact List.mem_filter.2 ⟨hc, decide_eq_true (not_lt.1 hearly)⟩
      exact hsub.eq_of_length_le (List.subperm_of_subset (inMs_nodup hopen _ _) hmem).length_le
    · intro heq c hc
      rw [inWindow_eq_filter] at hc
      rw [heq]
      exact (List.mem_filter.1 hc).1
  · have hnone : fetchKlines history startNs endNs = [] := by
      unfold fetchKlines
      rw [fetchKlinePages_eq_pages, if_neg hrange]
    simp only [Spaced, hrange, if_false, hnone, Complete, List.count_nil, zero_ne_one, imp_false]
    exact List.eq_nil_iff_forall_not_mem.symm

end Run

end BinanceSpot

/-! ## Bybit -/

namespace BybitPerp

/-- What the venue answers to `{"start": ..., "end": ..., "limit": 1000}`: the newest candles,
newest first. -/
def kline (history : List KlineRow) (startMs endMs : Int) : List KlineRow :=
  (inMs KlineRow.openMs history startMs endMs).reverse.take klineLimit

/-- `while cursor_ms < end_ms: ...`; two rounds are all there are (`fetchKlinePages_eq`). -/
def fetchKlinePages (history : List KlineRow) (endMs : Int) : ℕ → Int → List KlineRow
  | 0, _ => []
  | rounds + 1, cursorMs =>
      if cursorMs < endMs then
        match kline history cursorMs endMs with
        | [] => []
        | newest :: rest =>
            let rows := newest :: rest
            if rows.length < klineLimit then rows.reverse
            else rows.reverse ++ fetchKlinePages history endMs rounds (newest.openMs + 60000)
      else
        []

/-- `fetch_klines(symbol, start_ns, end_ns, interval)` on the candles of the interval. -/
def fetchKlines (history : List KlineRow) (startNs endNs : Int) : List KlineRow :=
  fetchKlinePages history (endNs / 1000000) 2 (startNs / 1000000)

section Run

variable {history : List KlineRow} {startNs endNs startMs endMs : Int}

/-- Behind the newest candle there is none. -/
lemma fetchKlinePages_behind (hopen : history.Pairwise fun a b => a.openMs < b.openMs)
    {newest : KlineRow} {rest : List KlineRow}
    (hpage : kline history startMs endMs = newest :: rest) (rounds : ℕ) :
    fetchKlinePages history endMs rounds (newest.openMs + 60000) = [] := by
  have hdesc : (inMs KlineRow.openMs history startMs endMs).reverse.Pairwise
      fun a b => b.openMs < a.openMs :=
    List.pairwise_reverse.2 (hopen.sublist List.filter_sublist)
  have hhead : (inMs KlineRow.openMs history startMs endMs).reverse.head? = some newest := by
    have htake : ((inMs KlineRow.openMs history startMs endMs).reverse.take klineLimit).head? =
        some newest := congrArg List.head? hpage
    rwa [List.head?_take, if_neg (by decide)] at htake
  have hnone : kline history (newest.openMs + 60000) endMs = [] := by
    unfold kline
    have hempty : inMs KlineRow.openMs history (newest.openMs + 60000) endMs = [] := by
      refine List.filter_eq_nil_iff.2 ?_
      intro c hc hrange
      simp only [Bool.and_eq_true, decide_eq_true_eq] at hrange
      have hnewest : newest ∈ inMs KlineRow.openMs history startMs endMs :=
        List.mem_reverse.1 (List.mem_of_mem_head? hhead)
      have hstart := (List.mem_filter.1 hnewest).2
      simp only [Bool.and_eq_true, decide_eq_true_eq] at hstart
      have hcmem : c ∈ (inMs KlineRow.openMs history startMs endMs).reverse := by
        refine List.mem_reverse.2 (List.mem_filter.2 ⟨hc, ?_⟩)
        rw [Bool.and_eq_true, decide_eq_true_eq, decide_eq_true_eq]
        omega
      rw [← List.cons_head?_tail hhead] at hcmem hdesc
      rcases List.mem_cons.1 hcmem with rfl | htail
      · omega
      · have hlt := (List.pairwise_cons.1 hdesc).1 c htail
        omega
    rw [hempty]
    rfl
  cases rounds with
  | zero => rfl
  | succ rounds =>
      unfold fetchKlinePages
      rw [hnone]
      simp

/-- The loop returns the newest thousand candles of the range, whatever the range. -/
theorem fetchKlinePages_eq (hopen : history.Pairwise fun a b => a.openMs < b.openMs)
    (hrange : startMs < endMs) (more : ℕ) :
    fetchKlinePages history endMs (2 + more) startMs =
      (inMs KlineRow.openMs history startMs endMs).drop
        ((inMs KlineRow.openMs history startMs endMs).length - klineLimit) := by
  have hnewest : (kline history startMs endMs).reverse =
      (inMs KlineRow.openMs history startMs endMs).drop
        ((inMs KlineRow.openMs history startMs endMs).length - klineLimit) := by
    unfold kline
    rw [List.take_reverse, List.reverse_reverse]
  have hrounds : 2 + more = 1 + more + 1 := by omega
  rw [← hnewest, hrounds]
  cases hpage : kline history startMs endMs with
  | nil =>
      simp only [fetchKlinePages, hrange, if_true, hpage, List.reverse_nil]
  | cons newest rest =>
      have hbehind := fetchKlinePages_behind hopen hpage (1 + more)
      simp only [fetchKlinePages, hrange, if_true, hpage, hbehind, List.append_nil, ite_self]

/-- When the backfill is complete: the window has a thousand candles at most.  A range of one
millisecond is not requested. -/
def OnePage (history : List KlineRow) (startNs endNs : Int) : Prop :=
  if startNs / 1000000 < endNs / 1000000 then
    (inWindow KlineRow.openMs history startNs endNs).length ≤ klineLimit
  else
    inWindow KlineRow.openMs history startNs endNs = []

/-- The candles of the window are the last ones of its milliseconds. -/
lemma inMs_eq_early_append (hopen : history.Pairwise fun a b => a.openMs < b.openMs) :
    ∃ early, inMs KlineRow.openMs history (startNs / 1000000) (endNs / 1000000) =
      early ++ inWindow KlineRow.openMs history startNs endNs := by
  let window := inMs KlineRow.openMs history (startNs / 1000000) (endNs / 1000000)
  have hsorted : window.Pairwise fun a b => a.openMs ≤ b.openMs :=
    (hopen.sublist List.filter_sublist).imp fun hlt => hlt.le
  refine ⟨window.filter fun c => !decide (startNs ≤ msToNs c.openMs), ?_⟩
  rw [inWindow_eq_filter, filter_append_filter ?_ hsorted]
  · symm
    refine List.filter_eq_self.2 ?_
    intro c _
    exact Bool.not_or_self _
  · intro a b ha hb
    have hlt := of_decide_eq_false (Bool.not_eq_true' _ ▸ ha)
    have hle := of_decide_eq_true hb
    unfold msToNs at hlt hle
    omega

/-- The backfill is complete exactly if the window fits on one page. -/
lemma fetchKlines_complete_iff (hopen : history.Pairwise fun a b => a.openMs < b.openMs) :
    Complete history startNs endNs (fetchKlines history startNs endNs) ↔
      OnePage history startNs endNs := by
  by_cases hrange : startNs / 1000000 < endNs / 1000000
  · let window := inMs KlineRow.openMs history (startNs / 1000000) (endNs / 1000000)
    have hfetch : fetchKlines history startNs endNs =
        window.drop (window.length - klineLimit) := fetchKlinePages_eq hopen hrange 0
    have hsub : (fetchKlines history startNs endNs).Sublist window := by
      rw [hfetch]
      exact List.drop_sublist _ _
    have hone : OnePage history startNs endNs ↔
        (inWindow KlineRow.openMs history startNs endNs).length ≤ klineLimit := by
      simp only [OnePage, hrange, if_true]
    rw [complete_iff hopen hsub, hone]
    constructor
    · intro hcomplete
      have hnodup : (inWindow KlineRow.openMs history startNs endNs).Nodup := by
        rw [inWindow_eq_filter]
        exact (inMs_nodup hopen _ _).filter _
      have hle := (List.subperm_of_subset hnodup hcomplete).length_le
      rw [hfetch, List.length_drop] at hle
      omega
    · intro hlength c hc
      rcases inMs_eq_early_append hopen with ⟨early, hearly⟩
      have hwindow : window = early ++ inWindow KlineRow.openMs history startNs endNs := hearly
      have hdrop : window.length - klineLimit ≤ early.length := by
        rw [hwindow, List.length_append]
        omega
      rw [hfetch]
      nth_rewrite 2 [hwindow]
      rw [List.drop_append_of_le_length hdrop]
      exact List.mem_append_right _ hc
  · have hnone : fetchKlines history startNs endNs = [] := by
      simp [fetchKlines, fetchKlinePages, hrange]
    simp only [OnePage, hrange, if_false, hnone, Complete, List.count_nil, zero_ne_one, imp_false]
    exact List.eq_nil_iff_forall_not_mem.symm

end Run

end BybitPerp

/-! ## Both venues -/

/-- The two kline backfills end, and are complete exactly under the conditions above. -/
theorem kline_backfill_complete_iff (binance bybit : List KlineRow) (startNs endNs : Int)
    (hbinance : binance.Pairwise fun a b => a.openMs < b.openMs)
    (hbybit : bybit.Pairwise fun a b => a.openMs < b.openMs) :
    (∀ more, BinanceSpot.fetchKlinePages binance (endNs / 1000000) (binance.length + more)
        (startNs / 1000000) = BinanceSpot.fetchKlines binance startNs endNs) ∧
      (Complete binance startNs endNs (BinanceSpot.fetchKlines binance startNs endNs) ↔
        BinanceSpot.Spaced binance startNs endNs) ∧
      (∀ more, BybitPerp.fetchKlinePages bybit (endNs / 1000000) (2 + more)
        (startNs / 1000000) = BybitPerp.fetchKlines bybit startNs endNs) ∧
      (Complete bybit startNs endNs (BybitPerp.fetchKlines bybit startNs endNs) ↔
        BybitPerp.OnePage bybit startNs endNs) := by
  refine ⟨BinanceSpot.fetchKlinePages_add hbinance _, BinanceSpot.fetchKlines_complete_iff hbinance,
    ?_, BybitPerp.fetchKlines_complete_iff hbybit⟩
  intro more
  by_cases hrange : startNs / 1000000 < endNs / 1000000
  · unfold BybitPerp.fetchKlines
    rw [BybitPerp.fetchKlinePages_eq hbybit hrange]
    exact (BybitPerp.fetchKlinePages_eq hbybit hrange 0).symm
  · have hrounds : 2 + more = 1 + more + 1 := by omega
    rw [hrounds]
    simp [BybitPerp.fetchKlines, BybitPerp.fetchKlinePages, hrange]

theorem kline_backfill_complete_iff_two_minutes :
    let candles : List KlineRow :=
      [{ openMs := 60000, «open» := 1, high := 2, low := 1, close := 2, volume := 3, trades := 4 },
        { openMs := 120000, «open» := 2, high := 2, low := 1, close := 1, volume := 5,
          trades := 6 }]
    (Complete candles 60000000000 180000000000
        (BinanceSpot.fetchKlines candles 60000000000 180000000000) ↔
      BinanceSpot.Spaced candles 60000000000 180000000000) ∧
    (Complete candles 60000000000 180000000000
        (BybitPerp.fetchKlines candles 60000000000 180000000000) ↔
      BybitPerp.OnePage candles 60000000000 180000000000) := by
  intro candles
  have hall := kline_backfill_complete_iff candles candles 60000000000 180000000000 (by decide)
    (by decide)
  exact ⟨hall.2.1, hall.2.2.2⟩

/-- A thousand and one candles, a second apart on Binance and a minute apart on Bybit. -/
theorem long_kline_window_is_cut :
    let candle : Int → ℕ → KlineRow := fun stepMs i =>
      { openMs := i * stepMs, «open» := 1, high := 1, low := 1, close := 1, volume := 0,
        trades := 0 }
    let seconds := (List.range 1001).map (candle 1000)
    let minutes := (List.range 1001).map (candle 60000)
    ¬ Complete seconds 0 2000000000000 (BinanceSpot.fetchKlines seconds 0 2000000000000) ∧
      ¬ Complete minutes 0 60060000000000
        (BybitPerp.fetchKlines minutes 0 60060000000000) := by
  intro candle seconds minutes
  have hopen : ∀ stepMs : Int, 0 < stepMs →
      ((List.range 1001).map (candle stepMs)).Pairwise fun a b => a.openMs < b.openMs := by
    intro stepMs hpos
    refine List.pairwise_map.2 (List.pairwise_lt_range.imp ?_)
    intro i j hij
    change (i : Int) * stepMs < j * stepMs
    exact Int.mul_lt_mul_of_pos_right (by exact_mod_cast hij) hpos
  have hlt : ∀ stepMs, ∀ c ∈ (List.range 1001).map (candle stepMs),
      ∃ i : ℕ, i < 1001 ∧ c.openMs = i * stepMs := by
    intro stepMs c hc
    rcases List.mem_map.1 hc with ⟨i, hi, rfl⟩
    exact ⟨i, List.mem_range.1 hi, rfl⟩
  constructor
  · rw [BinanceSpot.fetchKlines_complete_iff (hopen 1000 (by decide))]
    intro hspaced
    have hsep : PageSeparated KlineRow.openMs (· + 60000) (fun c => decide (c < 2000000)) klineLimit
        (inMs KlineRow.openMs seconds 0 2000000) := hspaced
    have hall : inMs KlineRow.openMs seconds 0 2000000 = seconds := by
      refine List.filter_eq_self.2 ?_
      intro c hc
      rcases hlt 1000 c hc with ⟨i, hi, hi'⟩
      rw [hi', Bool.and_eq_true, decide_eq_true_eq, decide_eq_true_eq]
      omega
    rw [hall] at hsep
    have hat : ∀ {i : ℕ}, i < 1001 → seconds[i]? = some (candle 1000 i) := by
      intro i hi
      rw [List.getElem?_map, List.getElem?_range hi]
      rfl
    have hboundary : (999 : Int) * 1000 + 60000 ≤ 1000 * 1000 :=
      (hsep 0 (candle 1000 999) (candle 1000 1000) (hat (by decide)) (hat (by decide))).1
    exact absurd hboundary (by decide)
  · rw [BybitPerp.fetchKlines_complete_iff (hopen 60000 (by decide))]
    intro hone
    have hlength : (inWindow KlineRow.openMs minutes 0 60060000000000).length ≤ klineLimit := hone
    have hall : inWindow KlineRow.openMs minutes 0 60060000000000 = minutes := by
      refine List.filter_eq_self.2 ?_
      intro c hc
      rcases hlt 60000 c hc with ⟨i, hi, hi'⟩
      rw [hi', Bool.and_eq_true, decide_eq_true_eq, decide_eq_true_eq]
      unfold msToNs
      omega
    rw [hall, List.length_map, List.length_range] at hlength
    exact absurd hlength (by decide)

end CryptoData
