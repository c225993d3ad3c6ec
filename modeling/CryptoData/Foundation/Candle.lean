import CryptoData.Foundation.Statistics

/-!
# Candle — summaries of a price series

What a list of priced elements comes to has two parts.

1. `Totals` does not depend on the order of the elements: the extreme prices, the volume, the
   notional and the number of elements.  Totals of totals are totals (`TotalOf.flatMap`), a list
   has one total (`TotalOf.unique`), and its rearrangements have the same (`TotalOf.perm`).
2. A `Candle` adds the first and the last price, and quotes the notional as a mean price.  The
   roll-up of the candles of consecutive lists is the candle of their concatenation
   (`Summarises.roll`).

The prices of a candle lie between its low and its high (`Summarises.within`).
-/

namespace Foundation

variable {K α β : Type*}

/-! ## Totals -/

structure Totals (K : Type*) where
  high : K
  low : K
  volume : K
  notional : K
  count : ℕ

variable [Field K] [LinearOrder K]

/-- `t` is the total of the elements of `xs`, each of which counts as `m x`. -/
structure TotalOf (m : α → Totals K) (t : Totals K) (xs : List α) : Prop where
  high : ∃ x ∈ xs, t.high = (m x).high
  le_high : ∀ x ∈ xs, (m x).high ≤ t.high
  low : ∃ x ∈ xs, t.low = (m x).low
  low_le : ∀ x ∈ xs, t.low ≤ (m x).low
  volume : t.volume = (xs.map fun x => (m x).volume).sum
  notional : t.notional = (xs.map fun x => (m x).notional).sum
  count : t.count = (xs.map fun x => (m x).count).sum

lemma sum_map_flatMap {M : Type*} [AddCommMonoid M] (f : α → M) (part : β → List α) :
    ∀ ys : List β, ((ys.flatMap part).map f).sum = (ys.map fun y => ((part y).map f).sum).sum
  | [] => rfl
  | y :: ys => by simp [sum_map_flatMap f part ys]

namespace TotalOf

variable {m : α → Totals K} {t u : Totals K} {xs ys : List α}

theorem perm (h : TotalOf m t xs) (hperm : xs.Perm ys) : TotalOf m t ys where
  high := by
    rcases h.high with ⟨x, hx, heq⟩
    exact ⟨x, hperm.mem_iff.1 hx, heq⟩
  le_high := fun x hx => h.le_high x (hperm.mem_iff.2 hx)
  low := by
    rcases h.low with ⟨x, hx, heq⟩
    exact ⟨x, hperm.mem_iff.1 hx, heq⟩
  low_le := fun x hx => h.low_le x (hperm.mem_iff.2 hx)
  volume := h.volume.trans (hperm.map _).sum_eq
  notional := h.notional.trans (hperm.map _).sum_eq
  count := h.count.trans (hperm.map _).sum_eq

theorem unique (h : TotalOf m t xs) (h' : TotalOf m u xs) : t = u := by
  have hhigh : t.high = u.high := by
    rcases h.high with ⟨x, hx, heq⟩
    rcases h'.high with ⟨y, hy, heq'⟩
    refine le_antisymm ?_ ?_
    · rw [heq]
      exact h'.le_high x hx
    · rw [heq']
      exact h.le_high y hy
  have hlow : t.low = u.low := by
    rcases h.low with ⟨x, hx, heq⟩
    rcases h'.low with ⟨y, hy, heq'⟩
    refine le_antisymm ?_ ?_
    · rw [heq']
      exact h.low_le y hy
    · rw [heq]
      exact h'.low_le x hx
  rcases t with ⟨high, low, volume, notional, count⟩
  rcases u with ⟨high', low', volume', notional', count'⟩
  simp only [Totals.mk.injEq]
  exact ⟨hhigh, hlow, h.volume.trans h'.volume.symm, h.notional.trans h'.notional.symm,
    h.count.trans h'.count.symm⟩

/-- Totals of totals are totals. -/
theorem flatMap {n : β → Totals K} {part : β → List α} {bs : List β} (h : TotalOf n t bs)
    (hpart : ∀ b ∈ bs, TotalOf m (n b) (part b)) : TotalOf m t (bs.flatMap part) where
  high := by
    rcases h.high with ⟨b, hb, heq⟩
    rcases (hpart b hb).high with ⟨x, hx, heq'⟩
    exact ⟨x, List.mem_flatMap.2 ⟨b, hb, hx⟩, heq.trans heq'⟩
  le_high := by
    intro x hx
    rcases List.mem_flatMap.1 hx with ⟨b, hb, hxb⟩
    exact le_trans ((hpart b hb).le_high x hxb) (h.le_high b hb)
  low := by
    rcases h.low with ⟨b, hb, heq⟩
    rcases (hpart b hb).low with ⟨x, hx, heq'⟩
    exact ⟨x, List.mem_flatMap.2 ⟨b, hb, hx⟩, heq.trans heq'⟩
  low_le := by
    intro x hx
    rcases List.mem_flatMap.1 hx with ⟨b, hb, hxb⟩
    exact le_trans (h.low_le b hb) ((hpart b hb).low_le x hxb)
  volume := by
    rw [h.volume, sum_map_flatMap]
    exact congrArg List.sum (List.map_congr_left fun b hb => (hpart b hb).volume)
  notional := by
    rw [h.notional, sum_map_flatMap]
    exact congrArg List.sum (List.map_congr_left fun b hb => (hpart b hb).notional)
  count := by
    rw [h.count, sum_map_flatMap]
    exact congrArg List.sum (List.map_congr_left fun b hb => (hpart b hb).count)

end TotalOf

/-! ## Candles -/

structure Candle (K : Type*) where
  «open» : K
  high : K
  low : K
  close : K
  volume : K
  vwap : K
  count : ℕ
  deriving DecidableEq, Repr

def Candle.totals (c : Candle K) : Totals K :=
  ⟨c.high, c.low, c.volume, c.vwap * c.volume, c.count⟩

/-- What one element comes to. -/
def tick (price qty : α → K) (x : α) : Totals K :=
  ⟨price x, price x, qty x, price x * qty x, 1⟩

/-- `c` is the candle of `xs`; without volume the mean price is quoted as the close. -/
structure Summarises (price qty : α → K) (c : Candle K) (xs : List α) : Prop where
  «open» : ∃ x ∈ xs.head?, c.open = price x
  close : ∃ x ∈ xs.getLast?, c.close = price x
  high : ∃ x ∈ xs, c.high = price x
  le_high : ∀ x ∈ xs, price x ≤ c.high
  low : ∃ x ∈ xs, c.low = price x
  low_le : ∀ x ∈ xs, c.low ≤ price x
  volume : c.volume = (xs.map qty).sum
  vwap : c.vwap = if 0 < (xs.map qty).sum then weightedMean price qty xs else c.close
  count : c.count = xs.length

/-- `c` is the roll-up of the candles of `bs`: extremes, sums, and the ends. -/
structure RollsCandles (candle : β → Candle K) (c : Candle K) (bs : List β) : Prop where
  «open» : ∃ b ∈ bs.head?, c.open = (candle b).open
  close : ∃ b ∈ bs.getLast?, c.close = (candle b).close
  totals : TotalOf (fun b => (candle b).totals) c.totals bs
  vwap : c.volume ≤ 0 → c.vwap = c.close

section Candle

variable [IsStrictOrderedRing K] {price qty : α → K} {c d : Candle K} {xs : List α}

lemma notional_eq_zero (hqty : ∀ x ∈ xs, 0 ≤ qty x) (hzero : (xs.map qty).sum ≤ 0) :
    (xs.map fun x => price x * qty x).sum = 0 := by
  refine List.sum_eq_zero ?_
  intro y hy
  rcases List.mem_map.1 hy with ⟨x, hx, rfl⟩
  -- A nonnegative summand is below the sum, and the sum is not positive.
  have hle : qty x ≤ (xs.map qty).sum := by
    refine List.single_le_sum ?_ _ (List.mem_map.2 ⟨x, hx, rfl⟩)
    intro q hq
    rcases List.mem_map.1 hq with ⟨z, hz, rfl⟩
    exact hqty z hz
  have hx0 : qty x = 0 := le_antisymm (le_trans hle hzero) (hqty x hx)
  rw [hx0, mul_zero]

namespace Summarises

theorem totals (h : Summarises price qty c xs) (hqty : ∀ x ∈ xs, 0 ≤ qty x) :
    TotalOf (tick price qty) c.totals xs where
  high := h.high
  le_high := h.le_high
  low := h.low
  low_le := h.low_le
  volume := h.volume
  notional := by
    simp only [Candle.totals, tick]
    rw [h.vwap, h.volume]
    by_cases hpos : 0 < (xs.map qty).sum
    · rw [if_pos hpos, weightedMean, div_mul_cancel₀ _ hpos.ne']
    · have hle := not_lt.1 hpos
      have hsum : (xs.map qty).sum = 0 := by
        refine le_antisymm hle (List.sum_nonneg ?_)
        intro q hq
        rcases List.mem_map.1 hq with ⟨x, hx, rfl⟩
        exact hqty x hx
      rw [notional_eq_zero hqty hle, hsum, mul_zero]
  count := by simp [Candle.totals, tick, h.count]

/-- The prices of a candle lie between its low and its high. -/
theorem within (h : Summarises price qty c xs) (hqty : ∀ x ∈ xs, 0 ≤ qty x) :
    (c.low ≤ c.open ∧ c.open ≤ c.high) ∧ (c.low ≤ c.close ∧ c.close ≤ c.high) ∧
      (c.low ≤ c.vwap ∧ c.vwap ≤ c.high) := by
  have hmem : ∀ x ∈ xs, c.low ≤ price x ∧ price x ≤ c.high :=
    fun x hx => ⟨h.low_le x hx, h.le_high x hx⟩
  have hclose : c.low ≤ c.close ∧ c.close ≤ c.high := by
    rcases h.close with ⟨x, hx, heq⟩
    rw [heq]
    exact hmem x (List.mem_of_mem_getLast? hx)
  refine ⟨?_, hclose, ?_⟩
  · rcases h.open with ⟨x, hx, heq⟩
    rw [heq]
    exact hmem x (List.mem_of_mem_head? hx)
  · rw [h.vwap]
    by_cases hpos : 0 < (xs.map qty).sum
    · rw [if_pos hpos]
      exact weightedMean_mem hqty hpos hmem
    · rw [if_neg hpos]
      exact hclose

omit [IsStrictOrderedRing K] in
/-- The ends and the totals of a list make its candle. -/
theorem of_totals (hopen : ∃ x ∈ xs.head?, c.open = price x)
    (hclose : ∃ x ∈ xs.getLast?, c.close = price x) (htotals : TotalOf (tick price qty) c.totals xs)
    (hvwap : c.volume ≤ 0 → c.vwap = c.close) : Summarises price qty c xs where
  «open» := hopen
  close := hclose
  high := htotals.high
  le_high := htotals.le_high
  low := htotals.low
  low_le := htotals.low_le
  volume := htotals.volume
  vwap := by
    have hvolume : c.volume = (xs.map qty).sum := htotals.volume
    have hnotional : c.vwap * c.volume = (xs.map fun x => price x * qty x).sum := htotals.notional
    by_cases hpos : 0 < (xs.map qty).sum
    · rw [if_pos hpos, weightedMean, ← hnotional, hvolume, mul_div_cancel_right₀ _ hpos.ne']
    · rw [if_neg hpos]
      apply hvwap
      rw [hvolume]
      exact not_lt.1 hpos
  count := by
    have hcount : c.count = (xs.map fun _ => 1).sum := htotals.count
    simpa using hcount

/-- The roll-up of the candles of consecutive lists is the candle of their concatenation. -/
theorem roll {candle : β → Candle K} {part : β → List α} {bs : List β}
    (hroll : RollsCandles candle c bs) (hpart : ∀ b ∈ bs, Summarises price qty (candle b) (part b))
    (hqty : ∀ b ∈ bs, ∀ x ∈ part b, 0 ≤ qty x) : Summarises price qty c (bs.flatMap part) := by
  refine of_totals ?_ ?_ ?_ hroll.vwap
  · rcases hroll.open with ⟨b, hb, hbopen⟩
    rcases (hpart b (List.mem_of_mem_head? hb)).open with ⟨x, hx, hxopen⟩
    refine ⟨x, ?_, hbopen.trans hxopen⟩
    rw [← List.cons_head?_tail hb, List.flatMap_cons, List.head?_append, Option.mem_def.1 hx]
    rfl
  · rcases hroll.close with ⟨b, hb, hbclose⟩
    rcases (hpart b (List.mem_of_mem_getLast? hb)).close with ⟨x, hx, hxclose⟩
    refine ⟨x, ?_, hbclose.trans hxclose⟩
    rw [← List.dropLast_append_getLast? b hb, List.flatMap_append, List.getLast?_append,
      List.flatMap_singleton, Option.mem_def.1 hx]
    rfl
  · exact hroll.totals.flatMap fun b hb => (hpart b hb).totals (hqty b hb)

end Summarises
end Candle
end Foundation
