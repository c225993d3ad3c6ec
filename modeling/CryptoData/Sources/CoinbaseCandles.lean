import CryptoData.Core.Consolidated.Build
import CryptoData.Foundation.Binary64
import CryptoData.Foundation.Tiles
import CryptoData.Sources.Klines

/-!
# CoinbaseCandles — candles in ranges of three hundred

`fetch_klines` cuts the window into ranges of three hundred candles and asks for each, the end of
one being the start of the next.  The bounds go out as text made from a double (`isoNs`), which
names the instant itself for whole seconds (`isoNs_of_whole`).

A venue that leaves the end of a range out has three hundred candles at most for it, so each candle
of the window comes back once.  One that takes both ends in has one more when it has all of them,
and returns the newest three hundred; so what opens where two ranges meet comes back twice, unless
the range it starts is full (`candles_count`).
-/

namespace CryptoData

open Foundation

namespace Coinbase

/-- The seconds of a candle. -/
def granularity (interval : String) : Int :=
  if interval = "1m" then 60
  else if interval = "5m" then 300
  else if interval = "15m" then 900
  else if interval = "1h" then 3600
  else if interval = "1d" then 86400
  else 60

/-- Coinbase returns at most 300 candles per call. -/
def stepNs (interval : String) : Int :=
  granularity interval * 300 * 1000000000

/-- `int(r[0]) * 1_000_000_000`. -/
def candleNs (r : KlineRow) : Int :=
  msToNs r.openMs

/-- The instant that `datetime.fromtimestamp(ns / 1e9, tz=UTC).isoformat()` names: the seconds are a
double, its fraction is rounded to microseconds. -/
def isoNs (ns : Int) : Int :=
  let seconds := double (double ns / 1000000000)
  let whole := truncate seconds
  (whole * 1000000 + roundHalfEven (double ((seconds - whole) * 1000000))) * 1000

/-- The instant is in the range; `closed` says whether its end is. -/
def covers (closed : Bool) (range : Int × Int) (t : Int) : Bool :=
  decide (range.1 ≤ t) && if closed then decide (t ≤ range.2) else decide (t < range.2)

/-- The candles of a range. -/
def candlesIn (closed : Bool) (history : List KlineRow) (range : Int × Int) : List KlineRow :=
  history.filter fun r => covers closed range (candleNs r)

/-- What the venue answers to a range: newest first, and not more than three hundred. -/
def candles (closed : Bool) (history : List KlineRow) (range : Int × Int) : List KlineRow :=
  (candlesIn closed history range).reverse.take 300

/-- `while cur < end_ns: ...`. -/
def candlePages (closed : Bool) (history : List KlineRow) (step endNs : Int) :
    ℕ → Int → List KlineRow
  | 0, _ => []
  | rounds + 1, cur =>
      if cur < endNs then
        let stopNs := min (cur + step) endNs
        candles closed history (isoNs cur, isoNs stopNs) ++
          candlePages closed history step endNs rounds stopNs
      else []

/-- `fetch_klines(symbol, start_ns, end_ns, interval)` on the candles of the interval; a range is a
nanosecond long at least, which bounds the rounds. -/
def fetchKlines (closed : Bool) (history : List KlineRow) (startNs endNs : Int)
    (interval : String) : List KlineRow :=
  candlePages closed history (stepNs interval) endNs (endNs - startNs).toNat startNs

/-! ## The bounds of a request -/

/-- Whole seconds go out as they are, for the next century. -/
theorem isoNs_of_whole {ns : Int} (hns : 0 ≤ ns) (hlt : ns ≤ 2 ^ 62) (hwhole : nsPerSec ∣ ns) :
    isoNs ns = ns := by
  rcases hwhole with ⟨s, rfl⟩
  have hsec : nsPerSec = 1000000000 := rfl
  rw [hsec] at hns hlt ⊢
  lift s to ℕ using by omega
  have hsmall : s < 2 ^ 53 := by omega
  have hfactor : s * 1953125 < 2 ^ 53 := by omega
  -- A multiple of `10 ^ 9` has nine trailing zero bits to spare.
  have hns' : double (((1000000000 * s : Int)) : ℚ) = ((1000000000 * s : Int) : ℚ) := by
    have hsplit : ((1000000000 * s : Int) : ℚ) = ((s * 1953125 : ℕ) : ℚ) * 2 ^ 9 := by
      push_cast
      ring
    rw [hsplit]
    exact double_natCast_mul_two_pow hfactor 9
  have hseconds : double (double ((1000000000 * s : Int) : ℚ) / 1000000000) = s := by
    have hquotient : ((1000000000 * s : Int) : ℚ) / 1000000000 = (s : ℚ) := by
      push_cast
      rw [mul_div_cancel_left₀ _ (by norm_num)]
    rw [hns', hquotient, double_natCast hsmall]
  have hcut : truncate (s : ℚ) = s := by
    rw [truncate, if_pos (Nat.cast_nonneg s), Int.floor_natCast]
  have hzero : roundHalfEven 0 = 0 := by exact_mod_cast roundHalfEven_intCast 0
  unfold isoNs
  rw [hseconds]
  dsimp only
  rw [hcut, Int.cast_natCast, sub_self, zero_mul, double_zero, hzero]
  ring

/-! ## One range -/

section Range

variable {closed : Bool} {history : List KlineRow} {gap lo hi : Int} {c : KlineRow}

/-- Candles that are a width apart fill the time between the first and the last. -/
lemma length_mul_gap_le :
    ∀ {rows : List KlineRow} {lo : Int},
      rows.Pairwise (fun x y => candleNs x + gap ≤ candleNs y) →
      (∀ r ∈ rows, lo ≤ candleNs r ∧ candleNs r ≤ hi) → lo ≤ hi + gap →
        (rows.length : Int) * gap ≤ hi - lo + gap
  | [], lo, _, _, hlo => by
      rw [List.length_nil, Nat.cast_zero, zero_mul]
      omega
  | r :: rows, lo, hapart, hin, _ => by
      have hcons := List.pairwise_cons.1 hapart
      have hfirst := hin r List.mem_cons_self
      have hrest : ∀ x ∈ rows, candleNs r + gap ≤ candleNs x ∧ candleNs x ≤ hi := fun x hx =>
        ⟨hcons.1 x hx, (hin x (List.mem_cons_of_mem r hx)).2⟩
      have ih := length_mul_gap_le hcons.2 hrest (by omega)
      rw [List.length_cons, Nat.cast_succ, add_mul, one_mul]
      omega

lemma mem_candlesIn_iff {range : Int × Int} :
    c ∈ candlesIn closed history range ↔ c ∈ history ∧ covers closed range (candleNs c) = true :=
  List.mem_filter

lemma covers_bounds {range : Int × Int} {t : Int} (h : covers closed range t = true) :
    range.1 ≤ t ∧ t ≤ range.2 := by
  cases closed with
  | true => simpa [covers] using h
  | false =>
      have hopen : range.1 ≤ t ∧ t < range.2 := by simpa [covers] using h
      exact ⟨hopen.1, hopen.2.le⟩

variable (hgap : 0 < gap)
variable (hapart : history.Pairwise fun x y => candleNs x + gap ≤ candleNs y)

include hgap hapart

lemma nodup_of_apart : history.Nodup := by
  refine hapart.imp ?_
  rintro a b hle rfl
  omega

/-- Without its end a range of three hundred widths has three hundred candles at most, all of which
come back. -/
lemma count_candles_open (hc : c ∈ history) {range : Int × Int} (hlt : range.1 < range.2)
    (hlen : range.2 ≤ range.1 + 300 * gap) :
    (candles false history range).count c =
      if range.1 ≤ candleNs c ∧ candleNs c < range.2 then 1 else 0 := by
  have hin : ∀ r ∈ candlesIn false history range, range.1 ≤ candleNs r ∧
      candleNs r ≤ range.2 - 1 := by
    intro r hr
    have hcover : range.1 ≤ candleNs r ∧ candleNs r < range.2 := by
      simpa [covers] using (mem_candlesIn_iff.1 hr).2
    exact ⟨hcover.1, by omega⟩
  have hshort : (candlesIn false history range).length ≤ 300 := by
    have hbound := length_mul_gap_le (hapart.sublist List.filter_sublist) hin (by omega)
    have hlt' : ((candlesIn false history range).length : Int) * gap < 301 * gap := by
      refine lt_of_le_of_lt hbound ?_
      omega
    have hlen' := lt_of_mul_lt_mul_right hlt' hgap.le
    omega
  have hall : candles false history range = (candlesIn false history range).reverse :=
    List.take_of_length_le (by rw [List.length_reverse]; exact hshort)
  rw [hall, List.count_reverse]
  by_cases hcover : range.1 ≤ candleNs c ∧ candleNs c < range.2
  · rw [if_pos hcover]
    refine List.count_eq_one_of_mem ((nodup_of_apart hgap hapart).filter _) ?_
    exact mem_candlesIn_iff.2 ⟨hc, by simpa [covers] using hcover⟩
  · rw [if_neg hcover]
    refine List.count_eq_zero.2 fun hmem => hcover ?_
    simpa [covers] using (mem_candlesIn_iff.1 hmem).2

omit hapart in
/-- More than three hundred candles fit into a range of three hundred widths only if they are one
more and the first opens at its start. -/
lemma full_range {r : KlineRow} {rows : List KlineRow} {lo hi : Int}
    (hrows : (r :: rows).Pairwise fun x y => candleNs x + gap ≤ candleNs y)
    (hin : ∀ x ∈ r :: rows, lo ≤ candleNs x ∧ candleNs x ≤ hi) (hlt : lo < hi)
    (hlen : hi ≤ lo + 300 * gap) (hlong : ¬ (r :: rows).length ≤ 300) :
    rows.length = 300 ∧ candleNs r = lo := by
  have hcons := List.pairwise_cons.1 hrows
  have hfirst := hin r List.mem_cons_self
  have hbound := length_mul_gap_le hrows hin (by omega)
  have hlater : ∀ x ∈ rows, candleNs r + gap ≤ candleNs x ∧ candleNs x ≤ hi :=
    fun x hx => ⟨hcons.1 x hx, (hin x (List.mem_cons_of_mem r hx)).2⟩
  have hrest := length_mul_gap_le hcons.2 hlater (by omega)
  have hcount : rows.length = 300 := by
    have hlt' : ((r :: rows).length : Int) * gap < 302 * gap := lt_of_le_of_lt hbound (by omega)
    have hlen' := lt_of_mul_lt_mul_right hlt' hgap.le
    rw [List.length_cons] at hlong hlen'
    omega
  refine ⟨hcount, ?_⟩
  rw [hcount] at hrest
  omega

/-- With its end a range has one candle more at most, and then the one at its start is left out. -/
lemma count_candles_closed (hc : c ∈ history) {range : Int × Int} (hlt : range.1 < range.2)
    (hlen : range.2 ≤ range.1 + 300 * gap) :
    (candles true history range).count c =
      (if range.1 < candleNs c ∧ candleNs c ≤ range.2 then 1 else 0) +
        if range.1 = candleNs c ∧ (candlesIn true history range).length ≤ 300 then 1 else 0 := by
  have hnodup : (candlesIn true history range).Nodup := (nodup_of_apart hgap hapart).filter _
  have hiff : c ∈ candlesIn true history range ↔ range.1 ≤ candleNs c ∧ candleNs c ≤ range.2 := by
    rw [mem_candlesIn_iff]
    simp [covers, hc]
  have hin : ∀ r ∈ candlesIn true history range, range.1 ≤ candleNs r ∧ candleNs r ≤ range.2 :=
    fun r hr => covers_bounds (mem_candlesIn_iff.1 hr).2
  have hapart' : (candlesIn true history range).Pairwise
      fun x y => candleNs x + gap ≤ candleNs y := hapart.sublist List.filter_sublist
  unfold candles
  revert hnodup hiff hin hapart'
  generalize candlesIn true history range = inside
  intro hnodup hiff hin hapart'
  by_cases hshort : inside.length ≤ 300
  · have hall : inside.reverse.take 300 = inside.reverse :=
      List.take_of_length_le (by rw [List.length_reverse]; exact hshort)
    rw [hall, List.count_reverse]
    by_cases hmem : c ∈ inside
    · have hcover := hiff.1 hmem
      rw [List.count_eq_one_of_mem hnodup hmem]
      split_ifs <;> omega
    · have hcover := hiff.not.1 hmem
      rw [List.count_eq_zero.2 hmem]
      split_ifs <;> omega
  · cases inside with
    | nil => exact absurd (Nat.zero_le 300) hshort
    | cons r rows =>
        rcases full_range hgap hapart' hin hlt hlen hshort with ⟨hrows, hstart⟩
        have hcons := List.pairwise_cons.1 hapart'
        have hkept : (r :: rows).reverse.take 300 = rows.reverse := by
          rw [List.reverse_cons]
          exact List.take_left' (by rw [List.length_reverse, hrows])
        have hlong : ¬ (range.1 = candleNs c ∧ (r :: rows).length ≤ 300) := fun h => hshort h.2
        rw [hkept, List.count_reverse, if_neg hlong, Nat.add_zero]
        by_cases hinner : range.1 < candleNs c ∧ candleNs c ≤ range.2
        · have hmem : c ∈ rows := by
            refine (List.mem_cons.1 (hiff.2 ⟨hinner.1.le, hinner.2⟩)).resolve_left ?_
            rintro rfl
            omega
          rw [if_pos hinner, List.count_eq_one_of_mem (List.nodup_cons.1 hnodup).2 hmem]
        · rw [if_neg hinner]
          refine List.count_eq_zero.2 fun hmem => hinner ?_
          have hbehind := hcons.1 c hmem
          exact ⟨by omega, (hin c (List.mem_cons_of_mem r hmem)).2⟩

end Range

/-! ## The window -/

section Count

variable {closed : Bool} {history : List KlineRow} {step startNs endNs : Int} {c : KlineRow}

lemma granularity_pos (interval : String) : 0 < granularity interval := by
  unfold granularity
  split_ifs <;> decide

lemma stepNs_eq (interval : String) :
    stepNs interval = 300 * (granularity interval * nsPerSec) := by
  have hsec : nsPerSec = 1000000000 := rfl
  rw [stepNs, hsec]
  ring

lemma stepNs_pos (interval : String) : 0 < stepNs interval := by
  have hpos := granularity_pos interval
  unfold stepNs
  omega

/-- The requests are the pieces of the window. -/
lemma candlePages_eq_tiles :
    ∀ (rounds : ℕ) (cur : Int),
      candlePages closed history step endNs rounds cur =
        (tiles step rounds cur endNs).flatMap fun w =>
          candles closed history (isoNs w.1, isoNs w.2)
  | 0, _ => rfl
  | rounds + 1, cur => by
      by_cases hcur : cur < endNs
      · have hrest := candlePages_eq_tiles rounds (min (cur + step) endNs)
        rw [candlePages, if_pos hcur, tiles, if_pos hcur, List.flatMap_cons, ← hrest]
      · rw [candlePages, if_neg hcur, tiles, if_neg hcur, List.flatMap_nil]

/-- What each piece returns of a candle adds up over the window. -/
lemma count_flatMap_pieces {answer : Int × Int → List KlineRow} {p q : Int × Int → Bool} :
    ∀ pieces : List (Int × Int),
      (∀ w ∈ pieces, (answer w).count c =
        (if p w = true then 1 else 0) + if q w = true then 1 else 0) →
      (pieces.flatMap answer).count c = pieces.countP p + pieces.countP q
  | [], _ => rfl
  | w :: pieces, h => by
      have hhead := h w List.mem_cons_self
      have hrest := count_flatMap_pieces pieces fun v hv => h v (List.mem_cons_of_mem w hv)
      rw [List.flatMap_cons, List.count_append, hhead, hrest, List.countP_cons, List.countP_cons]
      omega

/-- Every request of a window of whole seconds names the bounds of its piece. -/
lemma piece_bounds (interval : String) {rounds : ℕ} (hstart : 0 ≤ startNs) (hend : endNs ≤ 2 ^ 62)
    (hwhole : nsPerSec ∣ startNs ∧ nsPerSec ∣ endNs) {w : Int × Int}
    (hw : w ∈ tiles (stepNs interval) rounds startNs endNs) :
    isoNs w.1 = w.1 ∧ isoNs w.2 = w.2 ∧ w.1 < w.2 ∧
      w.2 ≤ w.1 + 300 * (granularity interval * nsPerSec) := by
  have hdvd : nsPerSec ∣ stepNs interval := ⟨granularity interval * 300, by
    rw [stepNs_eq]
    ring⟩
  rcases mem_tiles (stepNs_pos interval) hdvd hwhole.2 hwhole.1 w hw with
    ⟨hlow, hlt, hhigh, hlen, hdvd₁, hdvd₂⟩
  refine ⟨isoNs_of_whole (by omega) (by omega) hdvd₁, isoNs_of_whole (by omega) (by omega) hdvd₂,
    hlt, ?_⟩
  rw [← stepNs_eq]
  exact hlen

end Count

/-- How often a candle of the venue comes back, for a window of whole seconds and candles that are
their width apart. -/
theorem candles_count (history : List KlineRow) (startNs endNs : Int) (interval : String)
    (hstart : 0 ≤ startNs) (hend : endNs ≤ 2 ^ 62) (hwhole : nsPerSec ∣ startNs ∧ nsPerSec ∣ endNs)
    (hapart : history.Pairwise fun x y =>
      candleNs x + granularity interval * nsPerSec ≤ candleNs y)
    (c : KlineRow) (hc : c ∈ history) :
    ((fetchKlines true history startNs endNs interval).count c =
      (if startNs < candleNs c ∧ candleNs c ≤ endNs then 1 else 0) +
        if startNs ≤ candleNs c ∧ candleNs c < endNs ∧ stepNs interval ∣ candleNs c - startNs ∧
            (candlesIn true history
              (candleNs c, min (candleNs c + stepNs interval) endNs)).length ≤ 300
          then 1 else 0) ∧
    (fetchKlines false history startNs endNs interval).count c =
      if startNs ≤ candleNs c ∧ candleNs c < endNs then 1 else 0 := by
  have hstep := stepNs_pos interval
  have hgap : 0 < granularity interval * nsPerSec :=
    mul_pos (granularity_pos interval) (by decide)
  have hrounds : (endNs - startNs).toNat ≤ (endNs - startNs).toNat := le_refl _
  constructor
  · rw [fetchKlines, candlePages_eq_tiles,
      count_flatMap_pieces (p := fun w => decide (w.1 < candleNs c) && decide (candleNs c ≤ w.2))
        (q := fun w => decide (w.1 = candleNs c) &&
          decide ((candlesIn true history w).length ≤ 300)),
      countP_tiles_leftOpen hstep _ hrounds, countP_tiles_start hstep _ _ hrounds]
    · simp only [decide_eq_true_eq]
    · intro w hw
      rcases piece_bounds interval hstart hend hwhole hw with ⟨hlow, hhigh, hlt, hlen⟩
      rw [hlow, hhigh, count_candles_closed hgap hapart hc hlt hlen]
      simp only [Bool.and_eq_true, decide_eq_true_eq]
  · rw [fetchKlines, candlePages_eq_tiles,
      count_flatMap_pieces (p := fun w => decide (w.1 ≤ candleNs c) && decide (candleNs c < w.2))
        (q := fun _ => false),
      countP_tiles_halfOpen hstep _ hrounds]
    · simp
    · intro w hw
      rcases piece_bounds interval hstart hend hwhole hw with ⟨hlow, hhigh, hlt, hlen⟩
      rw [hlow, hhigh, count_candles_open hgap hapart hc hlt hlen]
      simp only [Bool.and_eq_true, decide_eq_true_eq, Bool.false_eq_true, if_false, Nat.add_zero]

/-- Three candles of two ranges of five hours: the one in the middle comes back twice. -/
theorem candles_count_boundary :
    let history : List KlineRow := [⟨0, 1, 1, 1, 1, 1, 0⟩, ⟨18000000, 2, 2, 2, 2, 1, 0⟩,
      ⟨36000000, 3, 3, 3, 3, 1, 0⟩]
    (fetchKlines true history 0 36000000000000 "1m").count ⟨18000000, 2, 2, 2, 2, 1, 0⟩ = 2 ∧
      (fetchKlines false history 0 36000000000000 "1m").count ⟨36000000, 3, 3, 3, 3, 1, 0⟩ = 0 := by
  intro history
  have hwhole : nsPerSec ∣ 0 ∧ nsPerSec ∣ 36000000000000 := by decide
  have hapart : history.Pairwise fun x y =>
      candleNs x + granularity "1m" * nsPerSec ≤ candleNs y := by decide
  have hmiddle := (candles_count history 0 36000000000000 "1m" (le_refl 0) (by decide) hwhole hapart
    ⟨18000000, 2, 2, 2, 2, 1, 0⟩ (by decide +kernel)).1
  have hlast := (candles_count history 0 36000000000000 "1m" (le_refl 0) (by decide) hwhole hapart
    ⟨36000000, 3, 3, 3, 3, 1, 0⟩ (by decide +kernel)).2
  exact ⟨hmiddle.trans (by decide +kernel), hlast.trans (by decide +kernel)⟩

end Coinbase

end CryptoData

