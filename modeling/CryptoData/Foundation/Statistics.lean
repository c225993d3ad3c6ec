import Mathlib.Algebra.BigOperators.Ring.List
import Mathlib.Algebra.Order.BigOperators.Group.List
import Mathlib.Algebra.Order.Field.Basic
import Mathlib.Data.List.GetD
import Mathlib.Data.List.Sort
import Mathlib.Tactic.Linarith

/-!
# Statistics — the median and its breakdown point

`median` is the textbook definition on sorted data: the middle element, or the mean of the two
middle ones.  All facts below come from counting ranks:

1. `orderStat xs i` has at least `i + 1` elements below or at it and at least `length - i`
   elements above or at it;
2. hence a strict majority inside `[a, b]` pins the median inside `[a, b]`, whatever the other
   elements are, and the median absolute deviation below `b - a`;
3. at least half of the elements lie at or below the median, and, for nonnegative data, strictly
   more than half lie at or below twice the median;
4. of an even number of elements, a half on either side of a gap bounds the median by the mean of
   the ends of the gap (`median_lt_mean`, `mean_le_median`).

A weighted mean with nonnegative weights stays inside any interval that holds its values, and the
greatest and the least value of a list are the values of elements of it.

All of these are equivariant: in a unit that is `c` times smaller they are `c` times as large
(`median_map_mul`, `mad_map_mul`, `weightedMean_mul`).
-/

namespace Foundation

variable {K : Type*} [Field K] [LinearOrder K]

/-- The element of rank `i` (from zero) of the sorted list. -/
def orderStat (xs : List K) (i : ℕ) : K :=
  (xs.insertionSort (· ≤ ·)).getD i 0

/-- The mean of the two middle elements if their number is even, else the middle one. -/
def median (xs : List K) : K :=
  if xs.length % 2 = 1 then orderStat xs (xs.length / 2)
  else (orderStat xs (xs.length / 2 - 1) + orderStat xs (xs.length / 2)) / 2

/-- The value below which `q` percent of the elements lie, with linear interpolation between the two
ranks next to it. -/
def percentile (q : ℕ) (xs : List K) : K :=
  let steps := (xs.length - 1) * q
  let low := orderStat xs (steps / 100)
  low + (steps % 100 : ℕ) / 100 * (orderStat xs (steps / 100 + 1) - low)

/-- The median absolute deviation from the median. -/
def mad (xs : List K) : K :=
  median (xs.map fun x => |x - median xs|)

/-! ## Ranks -/

section Rank

variable {xs : List K} {i : ℕ}

omit [Field K] in
lemma countP_sorted (xs : List K) (p : K → Bool) :
    (xs.insertionSort (· ≤ ·)).countP p = xs.countP p :=
  (List.perm_insertionSort _ xs).countP_eq p

lemma orderStat_eq_getElem (hi : i < (xs.insertionSort (· ≤ ·)).length) :
    orderStat xs i = (xs.insertionSort (· ≤ ·))[i] := by
  simp [orderStat, List.getD_eq_getElem?_getD, List.getElem?_eq_getElem hi]

lemma orderStat_mono {j : ℕ} (hij : i ≤ j) (hj : j < xs.length) :
    orderStat xs i ≤ orderStat xs j := by
  have hj' : j < (xs.insertionSort (· ≤ ·)).length := by simpa using hj
  have hi' : i < (xs.insertionSort (· ≤ ·)).length := lt_of_le_of_lt hij hj'
  have hle : (xs.insertionSort (· ≤ ·))[i] ≤ (xs.insertionSort (· ≤ ·))[j] :=
    List.sortedLE_insertionSort.getElem_le_getElem_of_le hij
  simpa [orderStat_eq_getElem hi', orderStat_eq_getElem hj'] using hle

/-- The first `i + 1` sorted elements are at or below the one of rank `i`. -/
lemma succ_le_countP_le_orderStat (hi : i < xs.length) :
    i + 1 ≤ xs.countP (· ≤ orderStat xs i) := by
  let s := xs.insertionSort (· ≤ ·)
  have hlen : s.length = xs.length := List.length_insertionSort _ _
  have hall : ∀ x ∈ s.take (i + 1), decide (x ≤ orderStat xs i) = true := by
    intro x hx
    obtain ⟨j, hj, hxj⟩ := List.getElem_of_mem hx
    have hji : j ≤ i := by
      simp at hj
      omega
    have hjs : j < s.length := by omega
    have hval : x = orderStat xs j := by
      simpa [orderStat_eq_getElem hjs] using hxj.symm
    simpa [hval] using orderStat_mono hji hi
  calc
    i + 1 = (s.take (i + 1)).length := by simp [hlen]; omega
    _ = (s.take (i + 1)).countP (· ≤ orderStat xs i) := (List.countP_eq_length.2 hall).symm
    _ ≤ s.countP (· ≤ orderStat xs i) := (List.take_sublist _ _).countP_le
    _ = xs.countP (· ≤ orderStat xs i) := countP_sorted xs _

/-- The sorted elements from rank `i` on are at or above the one of rank `i`. -/
lemma sub_le_countP_orderStat_le (hi : i < xs.length) :
    xs.length - i ≤ xs.countP (orderStat xs i ≤ ·) := by
  let s := xs.insertionSort (· ≤ ·)
  have hlen : s.length = xs.length := List.length_insertionSort _ _
  have hall : ∀ x ∈ s.drop i, decide (orderStat xs i ≤ x) = true := by
    intro x hx
    obtain ⟨j, hj, hxj⟩ := List.getElem_of_mem hx
    have hjs : i + j < s.length := by
      simp at hj
      omega
    have hval : x = orderStat xs (i + j) := by
      simpa [orderStat_eq_getElem hjs] using hxj.symm
    simpa [hval] using orderStat_mono (Nat.le_add_right i j) (by omega)
  calc
    xs.length - i = (s.drop i).length := by simp [hlen]
    _ = (s.drop i).countP (orderStat xs i ≤ ·) := (List.countP_eq_length.2 hall).symm
    _ ≤ s.countP (orderStat xs i ≤ ·) := (List.drop_sublist _ _).countP_le
    _ = xs.countP (orderStat xs i ≤ ·) := countP_sorted xs _

/-- One more element is counted. -/
lemma countP_lt_countP {α : Type*} {p q : α → Bool} {l : List α}
    (h : ∀ x ∈ l, p x = true → q x = true) {x : α} (hx : x ∈ l) (hp : ¬ p x = true)
    (hq : q x = true) : l.countP p < l.countP q := by
  have hsplit := List.countP_eq_countP_filter_add l q p
  have hold : (l.filter p).countP q = l.countP p := by
    rw [List.countP_eq_length_filter (l := l)]
    refine List.countP_eq_length.2 fun y hy => ?_
    rcases List.mem_filter.1 hy with ⟨hmem, hpy⟩
    exact h y hmem hpy
  have hnew : 0 < (l.filter fun y => !p y).countP q :=
    List.countP_pos_iff.2 ⟨x, List.mem_filter.2 ⟨hx, by simpa using hp⟩, hq⟩
  omega

omit [Field K] in
lemma countP_le_add_countP_of_lt (xs : List K) {c d : K} (h : c < d) :
    xs.countP (· ≤ c) + xs.countP (d ≤ ·) ≤ xs.length := by
  -- Nothing is both at or below `c` and at or above `d`.
  have hmono : xs.countP (d ≤ ·) ≤ xs.countP (fun x => !decide (x ≤ c)) := by
    refine List.countP_mono_left fun x _ hx => ?_
    have hdx : d ≤ x := by simpa using hx
    simpa using lt_of_lt_of_le h hdx
  have hsplit := List.length_eq_countP_add_countP (fun x => decide (x ≤ c)) (l := xs)
  simp only [Bool.decide_eq_true, decide_not] at hsplit
  omega

/-- An element exceeded by fewer than `length - i` others bounds the one of rank `i`. -/
lemma orderStat_le_of_lt_countP {c : K} (h : i < xs.countP (· ≤ c)) : orderStat xs i ≤ c := by
  -- Otherwise `length - i` elements lie above `c`, too many next to those at or below it.
  by_contra hc
  have hi : i < xs.length := lt_of_lt_of_le h List.countP_le_length
  have habove := sub_le_countP_orderStat_le hi
  have hsum := countP_le_add_countP_of_lt xs (not_le.1 hc)
  omega

lemma orderStat_lt_of_lt_countP {c : K} (h : i < xs.countP (· < c)) : orderStat xs i < c := by
  by_contra hc
  have hi : i < xs.length := lt_of_lt_of_le h List.countP_le_length
  have habove := sub_le_countP_orderStat_le hi
  have hmono : xs.countP (orderStat xs i ≤ ·) ≤ xs.countP (fun x => !decide (x < c)) := by
    refine List.countP_mono_left fun x _ hx => ?_
    have hle : orderStat xs i ≤ x := by simpa using hx
    simpa using le_trans (not_lt.1 hc) hle
  have hsplit := List.length_eq_countP_add_countP (fun x => decide (x < c)) (l := xs)
  simp only [Bool.decide_eq_true, decide_not] at hsplit
  omega

lemma le_orderStat_of_length_le {c : K} (hi : i < xs.length)
    (h : xs.length ≤ i + xs.countP (c ≤ ·)) : c ≤ orderStat xs i := by
  by_contra hc
  have hbelow := succ_le_countP_le_orderStat hi
  have hsum := countP_le_add_countP_of_lt xs (not_le.1 hc)
  omega

end Rank

/-! ## Majorities -/

section Majority

variable [IsStrictOrderedRing K] {xs : List K} {a b c : K}

/-- A strict majority at or below `c` keeps the median at or below `c`. -/
theorem median_le_of_majority (h : xs.length < 2 * xs.countP (· ≤ c)) : median xs ≤ c := by
  have hmid : orderStat xs (xs.length / 2) ≤ c := orderStat_le_of_lt_countP (by omega)
  -- For an even count both middle elements are bounded, and so is their mean.
  by_cases hodd : xs.length % 2 = 1
  · simpa [median, hodd] using hmid
  · have hlow : orderStat xs (xs.length / 2 - 1) ≤ c := orderStat_le_of_lt_countP (by omega)
    simp only [median, hodd, if_false]
    linarith

/-- A strict majority at or above `c` keeps the median at or above `c`. -/
theorem le_median_of_majority (h : xs.length < 2 * xs.countP (c ≤ ·)) : c ≤ median xs := by
  have hlen : xs.countP (c ≤ ·) ≤ xs.length := List.countP_le_length
  have hmid : c ≤ orderStat xs (xs.length / 2) := le_orderStat_of_length_le (by omega) (by omega)
  by_cases hodd : xs.length % 2 = 1
  · simpa [median, hodd] using hmid
  · have hlow : c ≤ orderStat xs (xs.length / 2 - 1) :=
      le_orderStat_of_length_le (by omega) (by omega)
    simp only [median, hodd, if_false]
    linarith

/-- Half of the elements below `a`, and one more at or below `b`. -/
theorem median_lt_mean (heven : xs.length % 2 = 0) (hlow : xs.length ≤ 2 * xs.countP (· < a))
    (hhigh : xs.length < 2 * xs.countP (· ≤ b)) : median xs < (a + b) / 2 := by
  have hlen : xs.countP (· ≤ b) ≤ xs.length := List.countP_le_length
  have hbelow : orderStat xs (xs.length / 2 - 1) < a := orderStat_lt_of_lt_countP (by omega)
  have hmid : orderStat xs (xs.length / 2) ≤ b := orderStat_le_of_lt_countP (by omega)
  have hodd : ¬ xs.length % 2 = 1 := by omega
  simp only [median, hodd, if_false]
  linarith

/-- Half of the elements at or above `b`, and one more at or above `a`. -/
theorem mean_le_median (heven : xs.length % 2 = 0) (hlow : xs.length < 2 * xs.countP (a ≤ ·))
    (hhigh : xs.length ≤ 2 * xs.countP (b ≤ ·)) : (a + b) / 2 ≤ median xs := by
  have hlen : xs.countP (a ≤ ·) ≤ xs.length := List.countP_le_length
  have hbelow : a ≤ orderStat xs (xs.length / 2 - 1) :=
    le_orderStat_of_length_le (by omega) (by omega)
  have hmid : b ≤ orderStat xs (xs.length / 2) := le_orderStat_of_length_le (by omega) (by omega)
  have hodd : ¬ xs.length % 2 = 1 := by omega
  simp only [median, hodd, if_false]
  linarith

/-- Breakdown bound of the median: a strict majority inside `[a, b]` pins it inside `[a, b]`. -/
theorem median_mem_of_majority
    (h : xs.length < 2 * xs.countP (fun x => decide (a ≤ x ∧ x ≤ b))) :
    a ≤ median xs ∧ median xs ≤ b := by
  have hlow : xs.countP (fun x => decide (a ≤ x ∧ x ≤ b)) ≤ xs.countP (a ≤ ·) :=
    List.countP_mono_left fun x _ hx => by
      simp at hx
      simpa using hx.1
  have hhigh : xs.countP (fun x => decide (a ≤ x ∧ x ≤ b)) ≤ xs.countP (· ≤ b) :=
    List.countP_mono_left fun x _ hx => by
      simp at hx
      simpa using hx.2
  exact ⟨le_median_of_majority (by omega), median_le_of_majority (by omega)⟩

theorem median_nonneg (hne : xs ≠ []) (hx : ∀ x ∈ xs, 0 ≤ x) : 0 ≤ median xs := by
  have hall : xs.countP (0 ≤ ·) = xs.length := List.countP_eq_length.2 fun x hmem => by
    simpa using hx x hmem
  have hpos : 0 < xs.length := List.length_pos_iff.2 hne
  exact le_median_of_majority (by omega)

/-- At least half of the elements, rounded up, are at or below the median. -/
theorem length_le_two_mul_countP_le_median (hne : xs ≠ []) :
    xs.length ≤ 2 * xs.countP (· ≤ median xs) := by
  have hpos : 0 < xs.length := List.length_pos_iff.2 hne
  by_cases hodd : xs.length % 2 = 1
  · have hrank : xs.length / 2 + 1 ≤ xs.countP (· ≤ orderStat xs (xs.length / 2)) :=
      succ_le_countP_le_orderStat (by omega)
    simp only [median, hodd, if_true]
    omega
  -- For an even count the lower middle element is below the mean of the two.
  · have hle : orderStat xs (xs.length / 2 - 1) ≤ median xs := by
      have hmono : orderStat xs (xs.length / 2 - 1) ≤ orderStat xs (xs.length / 2) :=
        orderStat_mono (by omega) (by omega)
      simp only [median, hodd, if_false]
      linarith
    have hrank : xs.length / 2 - 1 + 1 ≤ xs.countP (· ≤ orderStat xs (xs.length / 2 - 1)) :=
      succ_le_countP_le_orderStat (by omega)
    have hmono : xs.countP (· ≤ orderStat xs (xs.length / 2 - 1)) ≤ xs.countP (· ≤ median xs) :=
      List.countP_mono_left fun x _ hx => by
        simp at hx
        simpa using le_trans hx hle
    omega

/-- For nonnegative data, strictly more than half lies at or below twice the median. -/
theorem length_lt_two_mul_countP_le_two_mul_median (hne : xs ≠ []) (hx : ∀ x ∈ xs, 0 ≤ x) :
    xs.length < 2 * xs.countP (· ≤ 2 * median xs) := by
  have hpos : 0 < xs.length := List.length_pos_iff.2 hne
  have hle : orderStat xs (xs.length / 2) ≤ 2 * median xs := by
    by_cases hodd : xs.length % 2 = 1
    · have hmed : median xs = orderStat xs (xs.length / 2) := by simp [median, hodd]
      have hnonneg := median_nonneg hne hx
      linarith
    -- The upper middle element is twice the mean less the lower one, which is nonnegative.
    · have hall : xs.countP (0 ≤ ·) = xs.length := List.countP_eq_length.2 fun x hmem => by
        simpa using hx x hmem
      have hlow : (0 : K) ≤ orderStat xs (xs.length / 2 - 1) :=
        le_orderStat_of_length_le (by omega) (by omega)
      simp only [median, hodd, if_false]
      linarith
  have hrank : xs.length / 2 + 1 ≤ xs.countP (· ≤ orderStat xs (xs.length / 2)) :=
    succ_le_countP_le_orderStat (by omega)
  have hmono : xs.countP (· ≤ orderStat xs (xs.length / 2)) ≤ xs.countP (· ≤ 2 * median xs) :=
    List.countP_mono_left fun x _ hx => by
      simp at hx
      simpa using le_trans hx hle
  omega

/-! ## Deviations -/

theorem mad_nonneg (hne : xs ≠ []) : 0 ≤ mad xs := by
  refine median_nonneg (by simpa using hne) ?_
  intro x hx
  obtain ⟨y, _, rfl⟩ := List.mem_map.1 hx
  exact abs_nonneg _

/-- Breakdown bound of the deviation: it stays below the width of the majority's interval. -/
theorem mad_le_of_majority (h : xs.length < 2 * xs.countP (fun x => decide (a ≤ x ∧ x ≤ b))) :
    mad xs ≤ b - a := by
  obtain ⟨hlow, hhigh⟩ := median_mem_of_majority h
  -- Inside `[a, b]`, where the median lies as well, no deviation exceeds the width.
  have hcount : xs.countP (fun x => decide (a ≤ x ∧ x ≤ b)) ≤
      (xs.map fun x => |x - median xs|).countP (· ≤ b - a) := by
    rw [List.countP_map]
    refine List.countP_mono_left fun x _ hx => ?_
    have hx' : a ≤ x ∧ x ≤ b := by simpa using hx
    have habs : |x - median xs| ≤ b - a := abs_le.2 ⟨by linarith, by linarith⟩
    simpa using habs
  refine median_le_of_majority ?_
  simpa using lt_of_lt_of_le h (Nat.mul_le_mul_left 2 hcount)

end Majority

/-! ## Extremes -/

section Extremes

variable {α : Type*} {xs : List α}

omit [Field K] in
/-- The greatest value of a list is the value of one of its elements. -/
lemma exists_max_map (f : α → K) (hne : xs.map f ≠ []) : ∃ x ∈ xs, (xs.map f).max hne = f x := by
  rcases List.mem_map.1 (List.max_mem hne) with ⟨x, hx, heq⟩
  exact ⟨x, hx, heq.symm⟩

omit [Field K] in
lemma exists_min_map (f : α → K) (hne : xs.map f ≠ []) : ∃ x ∈ xs, (xs.map f).min hne = f x := by
  rcases List.mem_map.1 (List.min_mem hne) with ⟨x, hx, heq⟩
  exact ⟨x, hx, heq.symm⟩

end Extremes

/-! ## Weighted means -/

section WeightedMean

variable {α : Type*} {f w : α → K} {xs : List α} {lo hi : K}

def weightedMean (f w : α → K) (xs : List α) : K :=
  (xs.map fun x => f x * w x).sum / (xs.map w).sum

variable [IsStrictOrderedRing K]

lemma mul_sum_le_sum_mul (hw : ∀ x ∈ xs, 0 ≤ w x) (hlo : ∀ x ∈ xs, lo ≤ f x) :
    lo * (xs.map w).sum ≤ (xs.map fun x => f x * w x).sum := by
  calc
    lo * (xs.map w).sum = (xs.map fun x => lo * w x).sum := by rw [List.sum_map_mul_left]
    _ ≤ (xs.map fun x => f x * w x).sum :=
        List.sum_le_sum fun x hx => mul_le_mul_of_nonneg_right (hlo x hx) (hw x hx)

lemma sum_mul_le_mul_sum (hw : ∀ x ∈ xs, 0 ≤ w x) (hhi : ∀ x ∈ xs, f x ≤ hi) :
    (xs.map fun x => f x * w x).sum ≤ hi * (xs.map w).sum := by
  calc
    (xs.map fun x => f x * w x).sum ≤ (xs.map fun x => hi * w x).sum :=
        List.sum_le_sum fun x hx => mul_le_mul_of_nonneg_right (hhi x hx) (hw x hx)
    _ = hi * (xs.map w).sum := by rw [List.sum_map_mul_left]

/-- A weighted mean of values in `[lo, hi]` lies in `[lo, hi]`. -/
theorem weightedMean_mem (hw : ∀ x ∈ xs, 0 ≤ w x) (hpos : 0 < (xs.map w).sum)
    (hf : ∀ x ∈ xs, lo ≤ f x ∧ f x ≤ hi) :
    lo ≤ weightedMean f w xs ∧ weightedMean f w xs ≤ hi := by
  constructor
  · exact (le_div_iff₀ hpos).2 (mul_sum_le_sum_mul hw fun x hx => (hf x hx).1)
  · exact (div_le_iff₀ hpos).2 (sum_mul_le_mul_sum hw fun x hx => (hf x hx).2)

end WeightedMean

/-! ## Change of unit -/

section Unit

variable [IsStrictOrderedRing K] {c : K}

lemma orderStat_map_mul (hc : 0 < c) (xs : List K) (i : ℕ) :
    orderStat (xs.map (c * ·)) i = c * orderStat xs i := by
  have hsort : (xs.map (c * ·)).insertionSort (· ≤ ·) =
      (xs.insertionSort (· ≤ ·)).map (c * ·) :=
    (List.map_insertionSort (· ≤ ·) (· ≤ ·) (c * ·) xs
      fun _ _ _ _ => (mul_le_mul_iff_right₀ hc).symm).symm
  have hget := List.getD_map (l := xs.insertionSort (· ≤ ·)) (d := 0) (n := i) (c * ·)
  rw [mul_zero] at hget
  rw [orderStat, hsort, hget, orderStat]

theorem median_map_mul (hc : 0 < c) (xs : List K) : median (xs.map (c * ·)) = c * median xs := by
  unfold median
  rw [List.length_map, orderStat_map_mul hc, orderStat_map_mul hc]
  by_cases hodd : xs.length % 2 = 1
  · rw [if_pos hodd, if_pos hodd]
  · rw [if_neg hodd, if_neg hodd, ← mul_add, mul_div_assoc]

theorem mad_map_mul (hc : 0 < c) (xs : List K) : mad (xs.map (c * ·)) = c * mad xs := by
  have hdev : (xs.map (c * ·)).map (fun x => |x - median (xs.map (c * ·))|) =
      (xs.map fun x => |x - median xs|).map (c * ·) := by
    rw [median_map_mul hc, List.map_map, List.map_map]
    refine List.map_congr_left ?_
    intro x _
    calc
      |c * x - c * median xs| = |c * (x - median xs)| := by rw [mul_sub]
      _ = c * |x - median xs| := by rw [abs_mul, abs_of_pos hc]
  rw [mad, hdev, median_map_mul hc, mad]

variable {α : Type*}

lemma max_map_mul (hc : 0 < c) (f : α → K) {xs : List α} (hne : xs.map f ≠ [])
    (hne' : xs.map (fun x => c * f x) ≠ []) :
    (xs.map fun x => c * f x).max hne' = c * (xs.map f).max hne := by
  refine (List.max_eq_iff hne').2 ⟨?_, ?_⟩
  · rcases exists_max_map f hne with ⟨x, hx, hmax⟩
    exact List.mem_map.2 ⟨x, hx, by rw [hmax]⟩
  · intro b hb
    rcases List.mem_map.1 hb with ⟨x, hx, rfl⟩
    exact mul_le_mul_of_nonneg_left (List.le_max_of_mem (List.mem_map.2 ⟨x, hx, rfl⟩)) hc.le

lemma min_map_mul (hc : 0 < c) (f : α → K) {xs : List α} (hne : xs.map f ≠ [])
    (hne' : xs.map (fun x => c * f x) ≠ []) :
    (xs.map fun x => c * f x).min hne' = c * (xs.map f).min hne := by
  refine (List.min_eq_iff hne').2 ⟨?_, ?_⟩
  · rcases exists_min_map f hne with ⟨x, hx, hmin⟩
    exact List.mem_map.2 ⟨x, hx, by rw [hmin]⟩
  · intro b hb
    rcases List.mem_map.1 hb with ⟨x, hx, rfl⟩
    exact mul_le_mul_of_nonneg_left (List.min_le_of_mem (List.mem_map.2 ⟨x, hx, rfl⟩)) hc.le

omit [LinearOrder K] [IsStrictOrderedRing K] in
lemma weightedMean_mul (f w : α → K) (xs : List α) :
    weightedMean (fun x => c * f x) w xs = c * weightedMean f w xs := by
  have hsum : (xs.map fun x => c * f x * w x).sum = c * (xs.map fun x => f x * w x).sum := by
    rw [← List.sum_map_mul_left]
    exact congrArg List.sum (List.map_congr_left fun x _ => mul_assoc _ _ _)
  rw [weightedMean, hsum, mul_div_assoc, weightedMean]

end Unit

end Foundation
