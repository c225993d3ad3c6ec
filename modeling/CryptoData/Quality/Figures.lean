import CryptoData.Quality.BarSeries
import CryptoData.Quality.Scorecards

/-!
# Figures — what the numbers of a scorecard say together

A card of `scoreDay` is the base less the weights of its issues, cut off at zero, and the grade is
that of the rounded score: the base has two decimals already, so that the rounding changes nothing
(`saneRow_of_scoreDay`).  Its figures stay in range whatever bars were loaded, and the same holds of
every row, file and summary that a run of `writeDailyQuality` leaves behind (`sane_run`).  So a
card with a critical issue scores 70 at most (`SaneRow.score_le_of_critical`).

Where the bars pass `checkBarTimestamps`, the count and the longest gap account for the span
(`figures_of_clean_timestamps`): a card over less than two million seconds shows a completeness of
100 exactly if no second of its span is without a bar.
-/

namespace CryptoData

open Foundation

/-! ## Rounding -/

/-- A number with that many decimals is not rounded. -/
lemma roundTo_of_scaled {digits : ℕ} {x : ℚ} {n : Int} (h : x * 10 ^ digits = n) :
    roundTo digits x = x := by
  have hpow : (10 : ℚ) ^ digits ≠ 0 := pow_ne_zero _ (by norm_num)
  rw [roundTo, h, roundHalfEven_intCast, ← h, mul_div_cancel_right₀ _ hpow]

lemma scaled_roundTo (digits : ℕ) (x : ℚ) :
    roundTo digits x * 10 ^ digits = roundHalfEven (x * 10 ^ digits) := by
  have hpow : (10 : ℚ) ^ digits ≠ 0 := pow_ne_zero _ (by norm_num)
  rw [roundTo, div_mul_cancel₀ _ hpow]

/-- What has two decimals stays below whatever is rounded to two decimals above it. -/
lemma le_roundTo_of_scaled {digits : ℕ} {x y : ℚ} {n : Int} (hx : x * 10 ^ digits = n)
    (h : x ≤ y) : x ≤ roundTo digits y := by
  have hpow : (0 : ℚ) < 10 ^ digits := pow_pos (by norm_num) _
  have hscaled : (n : ℚ) ≤ y * 10 ^ digits := by
    rw [← hx]
    exact mul_le_mul_of_nonneg_right h hpow.le
  rw [roundTo, le_div_iff₀ hpow, hx]
  exact Int.cast_le.2 (le_roundHalfEven hscaled)

/-! ## The score -/

/-- The weight of all issues of a card. -/
def totalWeight (issues : List Issue) : ℚ :=
  (issues.map fun iss => iss.severity.weight).sum

lemma Severity.weight_nonneg (s : Severity) : 0 ≤ s.weight := by
  cases s <;> norm_num [Severity.weight]

/-- The weights are whole numbers. -/
lemma Severity.exists_weight_eq (s : Severity) : ∃ n : Int, s.weight = n := by
  cases s
  · exact ⟨0, by norm_num [Severity.weight]⟩
  · exact ⟨2, by norm_num [Severity.weight]⟩
  · exact ⟨10, by norm_num [Severity.weight]⟩
  · exact ⟨30, by norm_num [Severity.weight]⟩

lemma totalWeight_nonneg (issues : List Issue) : 0 ≤ totalWeight issues := by
  refine List.sum_nonneg ?_
  intro w hw
  rcases List.mem_map.1 hw with ⟨iss, _, rfl⟩
  exact iss.severity.weight_nonneg

lemma exists_totalWeight_eq : ∀ issues : List Issue, ∃ n : Int, totalWeight issues = n
  | [] => ⟨0, by simp [totalWeight]⟩
  | iss :: issues => by
      rcases iss.severity.exists_weight_eq with ⟨m, hm⟩
      rcases exists_totalWeight_eq issues with ⟨n, hn⟩
      refine ⟨m + n, ?_⟩
      rw [totalWeight, List.map_cons, List.sum_cons, hm]
      push_cast
      rw [← hn]
      rfl

/-- One issue weighs no more than all of them. -/
lemma weight_le_totalWeight {iss : Issue} {issues : List Issue} (h : iss ∈ issues) :
    iss.severity.weight ≤ totalWeight issues := by
  refine List.single_le_sum ?_ _ (List.mem_map.2 ⟨iss, h, rfl⟩)
  intro w hw
  rcases List.mem_map.1 hw with ⟨other, _, rfl⟩
  exact other.severity.weight_nonneg

lemma foldl_weight (issues : List Issue) (base : ℚ) :
    issues.foldl (fun score iss => score - iss.severity.weight) base =
      base - totalWeight issues := by
  induction issues generalizing base with
  | nil => simp [totalWeight]
  | cons iss issues ih =>
      rw [List.foldl_cons, ih, totalWeight, totalWeight, List.map_cons, List.sum_cons]
      ring

/-- From a base of two decimals, neither the upper bound nor the rounding does anything. -/
theorem scoreOf_eq {base : ℚ} {n : Int} (hbase : base * 10 ^ 2 = n) (hle : base ≤ 100)
    (issues : List Issue) :
    scoreOf base issues =
      (max 0 (base - totalWeight issues), gradeFor (max 0 (base - totalWeight issues))) := by
  have hupper : min 100 (base - totalWeight issues) = base - totalWeight issues := by
    refine min_eq_right ?_
    linarith [totalWeight_nonneg issues]
  have hround : roundTo 2 (max 0 (base - totalWeight issues)) =
      max 0 (base - totalWeight issues) := by
    rcases exists_totalWeight_eq issues with ⟨w, hw⟩
    rcases le_total 0 (base - totalWeight issues) with hpos | hneg
    · rw [max_eq_right hpos]
      refine roundTo_of_scaled (n := n - w * 100) ?_
      rw [sub_mul, hbase, hw]
      push_cast
      norm_num
    · rw [max_eq_left hneg]
      exact roundTo_of_scaled (n := 0) (by simp)
  simp only [scoreOf, foldl_weight, hupper, hround]

/-! ## The row of a slice -/

/-- What holds of every row of `daily_quality`. -/
structure SaneRow (row : QualityRow) : Prop where
  base : 0 ≤ row.scoreBasePct ∧ row.scoreBasePct ≤ 100
  decimals : ∃ n : Int, row.scoreBasePct * 10 ^ 2 = n
  score : row.score = max 0 (row.scoreBasePct - totalWeight row.issues)
  grade : row.grade = gradeFor row.score
  nIssues : row.nIssues = row.issues.length
  nCritical : row.nCritical = row.issues.countP fun iss => decide (iss.severity = .critical)
  completeness : 0 ≤ row.completenessPct ∧ row.completenessPct ≤ 100
  gap : 0 ≤ row.maxGapSeconds ∧ (row.bars ≠ 0 → row.maxGapSeconds < row.expectedBars)

namespace SaneRow

variable {row : QualityRow}

theorem score_mem_Icc (h : SaneRow row) : 0 ≤ row.score ∧ row.score ≤ 100 := by
  rw [h.score]
  refine ⟨le_max_left _ _, max_le (by norm_num) ?_⟩
  linarith [h.base.2, totalWeight_nonneg row.issues]

/-- The score has two decimals as well. -/
lemma exists_scaled_score (h : SaneRow row) : ∃ n : Int, row.score * 10 ^ 2 = n := by
  rcases h.decimals with ⟨n, hn⟩
  rcases exists_totalWeight_eq row.issues with ⟨w, hw⟩
  rw [h.score]
  rcases le_total 0 (row.scoreBasePct - totalWeight row.issues) with hpos | hneg
  · refine ⟨n - w * 100, ?_⟩
    rw [max_eq_right hpos, sub_mul, hn, hw]
    push_cast
    norm_num
  · exact ⟨0, by rw [max_eq_left hneg]; simp⟩

/-- A critical issue costs the grades above `c`. -/
theorem score_le_of_critical (h : SaneRow row) (hcrit : row.nCritical ≠ 0) : row.score ≤ 70 := by
  rw [h.nCritical] at hcrit
  rcases List.countP_pos_iff.1 (Nat.pos_of_ne_zero hcrit) with ⟨iss, hmem, hsev⟩
  have hweight := weight_le_totalWeight hmem
  rw [of_decide_eq_true hsev] at hweight
  have hthirty : (30 : ℚ) ≤ totalWeight row.issues := hweight
  rw [h.score]
  refine max_le (by norm_num) ?_
  linarith [h.base.2]

end SaneRow

/-! ## The span and its gaps -/

section Extremes

variable {α : Type*} [LinearOrder α]

lemma isGreatest_foldl (x : α) (xs : List α) : IsGreatest {y | y ∈ x :: xs} (xs.foldl max x) :=
  List.max?_eq_some_iff.1 List.max?_cons'

lemma isLeast_foldl (x : α) (xs : List α) : IsLeast {y | y ∈ x :: xs} (xs.foldl min x) :=
  List.min?_eq_some_iff.1 List.min?_cons'

end Extremes

/-- The differences of an ordered list make up its span. -/
lemma sum_diffs_of_sorted :
    ∀ {ts : List Int} {t lo hi : Int}, (t :: ts).Pairwise (· ≤ ·) →
      IsLeast {u | u ∈ t :: ts} lo → IsGreatest {u | u ∈ t :: ts} hi →
        (diffs (t :: ts)).sum = hi - lo
  | [], t, lo, hi, _, hlo, hhi => by
      rw [List.mem_singleton.1 hlo.1, List.mem_singleton.1 hhi.1]
      simp [diffs]
  | u :: ts, t, lo, hi, hsorted, hlo, hhi => by
      have hcons := List.pairwise_cons.1 hsorted
      have hfirst := List.pairwise_cons.1 hcons.2
      have hlow : lo = t :=
        le_antisymm (hlo.2 List.mem_cons_self) (by
          rcases List.mem_cons.1 hlo.1 with heq | hmem
          · exact heq.ge
          · exact hcons.1 lo hmem)
      have hleast : IsLeast {v | v ∈ u :: ts} u := by
        refine ⟨List.mem_cons_self, ?_⟩
        intro v hv
        rcases List.mem_cons.1 hv with rfl | hmem
        · exact le_refl v
        · exact hfirst.1 v hmem
      have hgreatest : IsGreatest {v | v ∈ u :: ts} hi := by
        refine ⟨?_, fun v hv => hhi.2 (List.mem_cons_of_mem t hv)⟩
        rcases List.mem_cons.1 hhi.1 with rfl | hmem
        · have heq : hi = u :=
            le_antisymm (hcons.1 u List.mem_cons_self)
              (hhi.2 (List.mem_cons_of_mem hi List.mem_cons_self))
          rw [heq]
          exact List.mem_cons_self
        · exact hmem
      have hrest := sum_diffs_of_sorted hcons.2 hleast hgreatest
      have hdiffs : diffs (t :: u :: ts) = (u - t) :: diffs (u :: ts) := rfl
      rw [hdiffs, List.sum_cons, hrest, hlow]
      ring

lemma truncate_div_nsPerSec {d : Int} (hd : 0 ≤ d) :
    truncate ((d : ℚ) / nsPerSec) = d / nsPerSec := by
  have hnonneg : 0 ≤ (d : ℚ) / nsPerSec := by
    have hsec : (0 : ℚ) ≤ (nsPerSec : ℚ) := by norm_num [nsPerSec]
    have hd' : (0 : ℚ) ≤ d := by exact_mod_cast hd
    positivity
  have hfloor : ⌊(d : ℚ) / nsPerSec⌋ = d / nsPerSec := by
    have hcast := Rat.floor_intCast_div_natCast d 1000000000
    exact_mod_cast hcast
  rw [truncate, if_pos hnonneg, hfloor]

/-- The differences of the timestamps in order make up the time from the first to the last. -/
lemma sum_diffs_insertionSort (t : Int) (ts : List Int) :
    (diffs ((t :: ts).insertionSort fun s t => s ≤ t)).sum = ts.foldl max t - ts.foldl min t := by
  have hperm := List.perm_insertionSort (fun s t : Int => s ≤ t) (t :: ts)
  have hsorted := List.pairwise_insertionSort (fun s t : Int => s ≤ t) (t :: ts)
  have hmem : ∀ v, v ∈ (t :: ts).insertionSort (fun s t => s ≤ t) ↔ v ∈ t :: ts :=
    fun v => hperm.mem_iff
  cases hcase : (t :: ts).insertionSort fun s t => s ≤ t with
  | nil =>
    rw [hcase] at hperm
    exact absurd hperm.nil_eq (by simp)
  | cons s rest =>
    rw [hcase] at hsorted hmem
    refine sum_diffs_of_sorted hsorted ?_ ?_
    · simp only [hmem]
      exact isLeast_foldl t ts
    · simp only [hmem]
      exact isGreatest_foldl t ts

lemma maxGapSeconds_of_nil {ts : List Int}
    (h : diffs (ts.insertionSort fun s t => s ≤ t) = []) : maxGapSeconds ts = 0 := by
  rw [maxGapSeconds, h]

lemma foldl_max_cast :
    ∀ (ds : List Int) (d : Int),
      (List.map (Int.cast : Int → ℚ) ds).foldl max (d : ℚ) = ((ds.foldl max d : Int) : ℚ)
  | [], _ => rfl
  | e :: ds, d => by
      rw [List.map_cons, List.foldl_cons, List.foldl_cons, ← Int.cast_max]
      exact foldl_max_cast ds (max d e)

lemma maxGapSeconds_of_cons {ts gaps : List Int} {gap : Int}
    (h : diffs (ts.insertionSort fun s t => s ≤ t) = gap :: gaps) :
    maxGapSeconds ts = truncate (((gaps.foldl max gap : Int) : ℚ) / nsPerSec) := by
  rw [← foldl_max_cast, ← List.flatMap_pure_eq_map, maxGapSeconds, h]
  rfl

/-- The differences between neighbouring seconds of a slice, and what they add up to. -/
structure Spacing (ts gaps : List Int) (spanNs : Int) : Prop where
  nonneg : ∀ d ∈ gaps, 0 ≤ d
  count : gaps.length + 1 = ts.length
  total : gaps.sum = spanNs

namespace Spacing

variable {ts gaps : List Int} {spanNs : Int}

lemma le_span (h : Spacing ts gaps spanNs) {d : Int} (hd : d ∈ gaps) : d ≤ spanNs := by
  rw [← h.total]
  exact List.single_le_sum h.nonneg d hd

lemma span_nonneg (h : Spacing ts gaps spanNs) : 0 ≤ spanNs := by
  rw [← h.total]
  exact List.sum_nonneg h.nonneg

/-- Gaps of a unit and more, so that the longest one and a unit for each other fit the span. -/
lemma longest_add_le (h : Spacing ts gaps spanNs) {unit m : Int} (hunit : ∀ d ∈ gaps, unit ≤ d)
    (hm : m ∈ gaps) : m + (ts.length - 2 : Int) * unit ≤ spanNs := by
  have hperm := List.perm_cons_erase hm
  have hlength : ((gaps.erase m).length : Int) = ts.length - 2 := by
    have hcons := hperm.length_eq
    rw [List.length_cons] at hcons
    have hcount := h.count
    omega
  have hrest : (gaps.erase m).length • unit ≤ (gaps.erase m).sum :=
    List.card_nsmul_le_sum _ _ fun d hd => hunit d (List.mem_of_mem_erase hd)
  rw [nsmul_eq_mul, hlength] at hrest
  calc m + (ts.length - 2 : Int) * unit ≤ m + (gaps.erase m).sum := by linarith
    _ = gaps.sum := by rw [hperm.sum_eq, List.sum_cons]
    _ = spanNs := h.total

/-- Gaps of a unit each make up as many units as there are gaps. -/
lemma span_of_units (h : Spacing ts gaps spanNs) {unit : Int} (hunit : ∀ d ∈ gaps, d = unit) :
    spanNs = (ts.length - 1 : Int) * unit := by
  have hlength : (gaps.length : Int) = ts.length - 1 := by
    have hcount := h.count
    omega
  rw [← h.total, List.eq_replicate_iff.2 ⟨rfl, hunit⟩, List.sum_replicate, nsmul_eq_mul, hlength]

end Spacing

/-- What `_completeness` measures, in terms of the gaps of the bars. -/
structure Measured (bars : List Bar) (gaps : List Int) (spanNs : Int) (c : Completeness) :
    Prop where
  spacing : Spacing (bars.map Bar.tsNs) gaps spanNs
  nBars : c.nBars = bars.length
  expected : c.expectedBars = spanNs / nsPerSec + 1
  completeness : c.completenessPct = roundTo 4 (100 * min 1 ((c.nBars : ℚ) / c.expectedBars))
  noGap : gaps = [] → c.maxGapSeconds = 0
  longest : ∀ m, IsGreatest {d | d ∈ gaps} m → c.maxGapSeconds = m / nsPerSec

/-- The spec of `_completeness` for a frame that is not empty. -/
theorem exists_measured {bars : List Bar} (hne : bars ≠ []) :
    ∃ spanNs, Measured bars (diffs ((bars.map Bar.tsNs).insertionSort fun s t => s ≤ t)) spanNs
      (completenessOf bars) := by
  cases bars with
  | nil => exact absurd rfl hne
  | cons b bars =>
    let ts := bars.map Bar.tsNs
    let gaps := diffs ((b.tsNs :: ts).insertionSort fun s t => s ≤ t)
    have hgaps : ∀ d ∈ gaps, 0 ≤ d :=
      (diffs_nonneg_iff _).2 (List.pairwise_insertionSort _ _)
    have hlongest : ∀ m, IsGreatest {d | d ∈ gaps} m →
        maxGapSeconds (b.tsNs :: ts) = m / nsPerSec := by
      intro m hm
      cases hcase : gaps with
      | nil =>
        rw [hcase] at hm
        exact absurd hm.1 (by simp)
      | cons d rest =>
        rw [maxGapSeconds_of_cons hcase]
        rw [hcase] at hm hgaps
        rw [(isGreatest_foldl d rest).unique hm]
        exact truncate_div_nsPerSec (hgaps m hm.1)
    refine ⟨ts.foldl max b.tsNs - ts.foldl min b.tsNs, ?_⟩
    exact
      { spacing :=
          { nonneg := hgaps
            count := by
              rw [length_diffs, List.length_insertionSort]
              rfl
            total := sum_diffs_insertionSort b.tsNs ts }
        nBars := by simp [completenessOf]
        expected := rfl
        completeness := rfl
        noGap := maxGapSeconds_of_nil
        longest := hlongest }

namespace Measured

variable {bars : List Bar} {gaps : List Int} {spanNs : Int} {c : Completeness}

lemma expected_pos (h : Measured bars gaps spanNs c) : 0 < c.expectedBars := by
  have hspan : 0 ≤ spanNs / nsPerSec :=
    Int.ediv_nonneg h.spacing.span_nonneg (by decide)
  rw [h.expected]
  exact Int.lt_add_one_iff.2 hspan

/-- Either there is a longest gap, or there is one bar only. -/
lemma exists_longest (h : Measured bars gaps spanNs c) :
    (gaps = [] ∧ c.maxGapSeconds = 0) ∨
      ∃ m ∈ gaps, (∀ d ∈ gaps, d ≤ m) ∧ c.maxGapSeconds = m / nsPerSec := by
  cases hcase : gaps with
  | nil => exact Or.inl ⟨rfl, h.noGap hcase⟩
  | cons d rest =>
    have hmax := isGreatest_foldl d rest
    refine Or.inr ⟨rest.foldl max d, hmax.1, fun e he => hmax.2 he, ?_⟩
    refine h.longest _ ?_
    rw [hcase]
    exact hmax

theorem gap_mem_Ico (h : Measured bars gaps spanNs c) :
    0 ≤ c.maxGapSeconds ∧ c.maxGapSeconds < c.expectedBars := by
  rcases h.exists_longest with ⟨_, hzero⟩ | ⟨m, hm, _, heq⟩
  · rw [hzero]
    exact ⟨le_refl 0, h.expected_pos⟩
  · have hsec : (0 : Int) < nsPerSec := by decide
    rw [heq, h.expected]
    constructor
    · exact Int.ediv_nonneg (h.spacing.nonneg m hm) hsec.le
    · exact Int.lt_add_one_iff.2 (Int.ediv_le_ediv hsec (h.spacing.le_span hm))

theorem completeness_mem_Icc (h : Measured bars gaps spanNs c) :
    0 ≤ c.completenessPct ∧ c.completenessPct ≤ 100 := by
  have hexpected : (0 : ℚ) < c.expectedBars := by exact_mod_cast h.expected_pos
  have hshare : 0 ≤ (c.nBars : ℚ) / c.expectedBars := by positivity
  have hlow : ((0 : Int) : ℚ) ≤ 100 * min 1 ((c.nBars : ℚ) / c.expectedBars) := by
    have hmin := le_min zero_le_one hshare
    push_cast
    linarith
  have hhigh : 100 * min 1 ((c.nBars : ℚ) / c.expectedBars) ≤ ((100 : Int) : ℚ) := by
    have hmin := min_le_left 1 ((c.nBars : ℚ) / c.expectedBars)
    push_cast
    linarith
  have hmem := roundTo_mem_Icc 4 hlow hhigh
  rw [h.completeness]
  exact_mod_cast hmem

end Measured

lemma sane_completenessOf (bars : List Bar) :
    (0 ≤ (completenessOf bars).completenessPct ∧ (completenessOf bars).completenessPct ≤ 100) ∧
      0 ≤ (completenessOf bars).maxGapSeconds ∧
      ((completenessOf bars).nBars ≠ 0 →
        (completenessOf bars).maxGapSeconds < (completenessOf bars).expectedBars) := by
  by_cases hne : bars = []
  · subst hne
    simp [completenessOf]
  · rcases exists_measured hne with ⟨spanNs, h⟩
    exact ⟨h.completeness_mem_Icc, h.gap_mem_Ico.1, fun _ => h.gap_mem_Ico.2⟩

/-! ## From the bars to the row -/

/-- A coverage has two decimals, and so has the base of a single venue. -/
lemma base_of_coverage (coverage : Option (Option ℚ × ℕ))
    (h : ∀ c ∈ coverage, ∃ aggBars perVenueBars, c = aggCoverageOfUnion aggBars perVenueBars) :
    let base := (coverage.bind Prod.fst).getD 100
    (0 ≤ base ∧ base ≤ 100) ∧ ∃ n : Int, base * 10 ^ 2 = n := by
  have hfull : (0 ≤ (100 : ℚ) ∧ (100 : ℚ) ≤ 100) ∧ ∃ n : Int, (100 : ℚ) * 10 ^ 2 = n :=
    ⟨by norm_num, 10000, by norm_num⟩
  cases coverage with
  | none => exact hfull
  | some c =>
    rcases h c rfl with ⟨aggBars, perVenueBars, rfl⟩
    by_cases hunion : (unionSeconds perVenueBars).card = 0
    · simp only [aggCoverageOfUnion, hunion, if_true]
      exact hfull
    · have hpos : (0 : ℚ) < (unionSeconds perVenueBars).card := by
        exact_mod_cast Nat.pos_of_ne_zero hunion
      have hcard : ((secondsOf aggBars ∩ unionSeconds perVenueBars).card : ℚ) ≤
          (unionSeconds perVenueBars).card := by
        exact_mod_cast Finset.card_le_card Finset.inter_subset_right
      have hlow : ((0 : Int) : ℚ) ≤ 100 *
          ((secondsOf aggBars ∩ unionSeconds perVenueBars).card : ℚ) /
            (unionSeconds perVenueBars).card := by
        push_cast
        positivity
      have hhigh : 100 * ((secondsOf aggBars ∩ unionSeconds perVenueBars).card : ℚ) /
          (unionSeconds perVenueBars).card ≤ ((100 : Int) : ℚ) := by
        rw [div_le_iff₀ hpos]
        push_cast
        linarith
      simp only [aggCoverageOfUnion, hunion, if_false]
      refine ⟨?_, _, scaled_roundTo 2 _⟩
      exact_mod_cast roundTo_mem_Icc 2 hlow hhigh

/-- Every card has a sane row, whatever the store holds and whatever the checks find. -/
theorem saneRow_of_scoreDay {scan : Scan} {runChecks : DayFrames → Option (List Issue)}
    {views : Views} {symbol venue date : String} {nowNs : Int} {card : Scorecard}
    (h : scoreDay scan runChecks views symbol venue date nowNs = some card) :
    SaneRow card.entry.2 := by
  let bars := loadBars scan views symbol venue date
  let context := if venue = "agg" then some (aggContext scan views symbol date bars) else none
  let coverage := context.map fun ctx =>
    aggCoverageOfUnion (if ctx.aggBars.isEmpty then bars else ctx.aggBars) ctx.perVenueBars
  have hcoverage : ∀ c ∈ coverage, ∃ aggBars perVenueBars,
      c = aggCoverageOfUnion aggBars perVenueBars := by
    intro c hc
    rcases Option.map_eq_some_iff.1 hc with ⟨ctx, _, heq⟩
    exact ⟨_, _, heq.symm⟩
  rcases base_of_coverage coverage hcoverage with ⟨hrange, n, hn⟩
  rcases Option.bind_eq_some_iff.1 h with ⟨issues, _, hcard⟩
  have hcard' := Option.some.inj hcard
  have hround : roundTo 2 ((coverage.bind Prod.fst).getD 100) = (coverage.bind Prod.fst).getD 100 :=
    roundTo_of_scaled hn
  have hscored := scoreOf_eq hn hrange.2 issues
  have hmeasured := sane_completenessOf bars
  subst hcard'
  exact
    { base := by
        change 0 ≤ roundTo 2 ((coverage.bind Prod.fst).getD 100) ∧ _
        rw [hround]
        exact hrange
      decimals := by
        change ∃ m : Int, roundTo 2 ((coverage.bind Prod.fst).getD 100) * 10 ^ 2 = m
        rw [hround]
        exact ⟨n, hn⟩
      score := by
        change (scoreOf ((coverage.bind Prod.fst).getD 100) issues).1 =
          max 0 (roundTo 2 ((coverage.bind Prod.fst).getD 100) - totalWeight issues)
        rw [hround, hscored]
      grade := by
        change (scoreOf ((coverage.bind Prod.fst).getD 100) issues).2 =
          gradeFor (scoreOf ((coverage.bind Prod.fst).getD 100) issues).1
        rw [hscored]
      nIssues := rfl
      nCritical := by
        change (counter (issues.map Issue.severity)).getD .critical 0 = _
        rw [getD_counter, List.count_eq_countP, List.countP_map]
        exact List.countP_congr fun iss _ => by simp
      completeness := hmeasured.1
      gap := hmeasured.2 }

lemma saneRow_of_score {runChecks : DayFrames → Option (List Issue)} {c : QualityCall}
    {rows : List Scorecard} (h : c.score runChecks = some rows) :
    ∀ card ∈ rows, SaneRow card.entry.2 := by
  have hall := map_of_mapM (g := fun card : Scorecard => SaneRow card.entry.2) (h := fun _ => True)
    (fun k card hk => eq_true (saneRow_of_scoreDay hk)) h
  intro card hcard
  have hmem : SaneRow card.entry.2 ∈ c.combos.map fun _ => True := by
    rw [← hall]
    exact List.mem_map.2 ⟨card, hcard, rfl⟩
  rcases List.mem_map.1 hmem with ⟨_, _, htrue⟩
  exact htrue ▸ trivial

/-! ## The summary -/

/-- What holds of every summary. -/
structure SaneSummary (q : QualitySummary) : Prop where
  slices : 0 < q.slices
  range : 0 ≤ q.minScore ∧ q.minScore ≤ q.meanScore ∧ q.meanScore ≤ 100
  failing : 0 < q.gradeCounts.getD .f 0 ↔ q.minScore < 50

lemma gradeFor_eq_f_iff (score : ℚ) : gradeFor score = .f ↔ score < 50 := by
  rw [← not_le]
  unfold gradeFor
  constructor
  · intro h hle
    split_ifs at h
  · intro h
    rw [if_neg (fun hle => h (by linarith)), if_neg (fun hle => h (by linarith)),
      if_neg (fun hle => h (by linarith)), if_neg h]

/-- A summary of sane rows is sane. -/
theorem saneSummary_of_rows {rows : List (Slice × QualityRow)} {nowNs : Int} {q : QualitySummary}
    (hrows : ∀ r ∈ rows, SaneRow r.2) (h : qualitySummaryFromRows rows nowNs = some q) :
    SaneSummary q := by
  cases rows with
  | nil => exact absurd h (by simp [qualitySummaryFromRows])
  | cons first rest =>
    let low := rest.foldl (fun low r => min low r.2.score) first.2.score
    let scores := (first :: rest).map fun r => r.2.score
    have hleast : IsLeast {x | x ∈ scores} low := by
      have hfold : low = (rest.map fun r => r.2.score).foldl min first.2.score := by
        rw [List.foldl_map]
      rw [hfold]
      exact isLeast_foldl _ _
    rcases List.mem_map.1 hleast.1 with ⟨worst, hworst, hlow⟩
    have hsane := hrows worst hworst
    rcases hsane.exists_scaled_score with ⟨n, hn⟩
    rw [hlow] at hn
    have hround : roundTo 2 low = low := roundTo_of_scaled hn
    have hlength : (0 : ℚ) < scores.length := by
      exact_mod_cast List.length_pos_of_mem hleast.1
    have hmean : low ≤ scores.sum / scores.length := by
      rw [le_div_iff₀ hlength, mul_comm, ← nsmul_eq_mul]
      exact List.card_nsmul_le_sum _ _ fun x hx => hleast.2 hx
    have hhigh : scores.sum / scores.length ≤ ((100 : Int) : ℚ) := by
      rw [div_le_iff₀ hlength, mul_comm, ← nsmul_eq_mul]
      refine List.sum_le_card_nsmul _ _ ?_
      intro x hx
      rcases List.mem_map.1 hx with ⟨r, hr, rfl⟩
      exact_mod_cast (hrows r hr).score_mem_Icc.2
    have hzero : 0 ≤ low := hlow ▸ hsane.score_mem_Icc.1
    have hmax := roundTo_mem_Icc 2 (a := 0) (by exact_mod_cast hzero.trans hmean) hhigh
    rw [qualitySummaryFromRows, Option.some_inj] at h
    subst h
    refine ⟨Nat.succ_pos _, ⟨?_, ?_, ?_⟩, ?_⟩
    · change 0 ≤ roundTo 2 low
      exact hround.symm ▸ hzero
    · change roundTo 2 low ≤ _
      rw [hround]
      exact le_roundTo_of_scaled hn hmean
    · exact_mod_cast hmax.2
    · change 0 < (counter ((first :: rest).map fun r => r.2.grade)).getD .f 0 ↔ roundTo 2 low < 50
      rw [getD_counter, List.count_pos_iff, hround, List.mem_map]
      constructor
      · rintro ⟨r, hr, hgrade⟩
        rw [(hrows r hr).grade, gradeFor_eq_f_iff] at hgrade
        exact (hleast.2 (List.mem_map.2 ⟨r, hr, rfl⟩)).trans_lt hgrade
      · intro hfail
        refine ⟨worst, hworst, ?_⟩
        rw [hsane.grade, gradeFor_eq_f_iff, hlow]
        exact hfail

/-! ## Bars that pass the check of the timestamps -/

namespace Measured

variable {bars : List Bar} {gaps : List Int} {spanNs : Int} {c : Completeness}

/-- Neighbouring seconds that are whole and distinct are a second or more apart. -/
structure WholeGaps (gaps : List Int) : Prop where
  apart : ∀ d ∈ gaps, nsPerSec ≤ d
  whole : ∀ d ∈ gaps, nsPerSec ∣ d

lemma nBars_le_expected (h : Measured bars gaps spanNs c) (hgaps : WholeGaps gaps) :
    (c.nBars : Int) ≤ c.expectedBars := by
  have hsec : (0 : Int) < nsPerSec := by decide
  have hsum : gaps.length • nsPerSec ≤ gaps.sum := List.card_nsmul_le_sum _ _ hgaps.apart
  have hcount := h.spacing.count
  rw [List.length_map] at hcount
  rw [nsmul_eq_mul, h.spacing.total] at hsum
  have hfit := (Int.le_ediv_iff_mul_le hsec).2 hsum
  rw [h.nBars, h.expected, ← hcount]
  push_cast
  linarith

/-- The count and the longest gap never exceed the span by more than one. -/
lemma nBars_add_maxGap_le (h : Measured bars gaps spanNs c) (hgaps : WholeGaps gaps) :
    (c.nBars : Int) + c.maxGapSeconds ≤ c.expectedBars + 1 := by
  have hlength : (bars.map Bar.tsNs).length = bars.length := List.length_map _
  have hcount := h.spacing.count
  rcases h.exists_longest with ⟨hnil, hzero⟩ | ⟨m, hm, _, heq⟩
  · rw [hnil, hlength] at hcount
    have hpos := h.expected_pos
    rw [h.nBars, hzero, ← hcount]
    norm_num
    omega
  · have hfit := h.spacing.longest_add_le hgaps.apart hm
    rw [hlength] at hfit
    have hsec : (0 : Int) < nsPerSec := by decide
    have hdiv : m / nsPerSec + (bars.length - 2 : Int) ≤ spanNs / nsPerSec := by
      rw [← Int.add_mul_ediv_right _ _ hsec.ne']
      exact Int.ediv_le_ediv hsec hfit
    rw [h.nBars, heq, h.expected]
    linarith

/-- No second is missing exactly if no gap is longer than a second. -/
lemma nBars_eq_expected_iff (h : Measured bars gaps spanNs c) (hgaps : WholeGaps gaps) :
    (c.nBars : Int) = c.expectedBars ↔ c.maxGapSeconds ≤ 1 := by
  constructor
  · intro hfull
    have hle := h.nBars_add_maxGap_le hgaps
    linarith
  · intro hshort
    have hsec : (0 : Int) < nsPerSec := by decide
    have hunit : ∀ d ∈ gaps, d = nsPerSec := by
      intro d hd
      rcases h.exists_longest with ⟨hnil, _⟩ | ⟨m, _, hmax, heq⟩
      · rw [hnil] at hd
        exact absurd hd List.not_mem_nil
      · rcases hgaps.whole d hd with ⟨k, hk⟩
        have hapart := hgaps.apart d hd
        have hdm : d / nsPerSec ≤ 1 :=
          (Int.ediv_le_ediv hsec (hmax d hd)).trans (heq ▸ hshort)
        rw [hk, Int.mul_ediv_cancel_left _ hsec.ne'] at hdm
        have hone : 1 ≤ k := by
          rw [hk] at hapart
          exact le_of_mul_le_mul_left (by linarith) hsec
        rw [hk, le_antisymm hdm hone, mul_one]
    have hspan := h.spacing.span_of_units hunit
    rw [h.nBars, h.expected, hspan, Int.mul_ediv_cancel _ hsec.ne', List.length_map]
    ring

/-- The completeness is rounded up to 100 while one second in two million is missing at most. -/
lemma completeness_eq_hundred_iff (h : Measured bars gaps spanNs c)
    (hle : (c.nBars : Int) ≤ c.expectedBars) :
    c.completenessPct = 100 ↔ 2000000 * (c.expectedBars - c.nBars) ≤ c.expectedBars := by
  have hexpected : (0 : ℚ) < c.expectedBars := by exact_mod_cast h.expected_pos
  have hle' : (c.nBars : ℚ) ≤ c.expectedBars := by exact_mod_cast hle
  have hshare : min 1 ((c.nBars : ℚ) / c.expectedBars) = c.nBars / c.expectedBars :=
    min_eq_right ((div_le_one hexpected).2 hle')
  have hround : c.completenessPct = 100 ↔
      roundHalfEven (100 * ((c.nBars : ℚ) / c.expectedBars) * 10 ^ 4) = 1000000 := by
    rw [h.completeness, hshare, roundTo, div_eq_iff (by norm_num)]
    norm_num
    norm_cast
  have hscaled : 100 * ((c.nBars : ℚ) / c.expectedBars) * 10 ^ 4 =
      1000000 - 1000000 * ((c.expectedBars : ℚ) - c.nBars) / c.expectedBars := by
    field_simp
    ring
  have hmissing : 0 ≤ 1000000 * ((c.expectedBars : ℚ) - c.nBars) / c.expectedBars :=
    div_nonneg (by linarith) hexpected.le
  rw [hround, roundHalfEven_eq_iff (by decide), hscaled]
  push_cast
  constructor
  · rintro ⟨hlow, _⟩
    have hhalf : 1000000 * ((c.expectedBars : ℚ) - c.nBars) / c.expectedBars ≤ 1 / 2 := by
      linarith
    rw [div_le_iff₀ hexpected] at hhalf
    have hcast : (2000000 * ((c.expectedBars : ℚ) - c.nBars)) ≤ c.expectedBars := by linarith
    exact_mod_cast hcast
  · intro hfew
    have hfew' : (2000000 * ((c.expectedBars : ℚ) - c.nBars)) ≤ c.expectedBars := by
      exact_mod_cast hfew
    have hhalf : 1000000 * ((c.expectedBars : ℚ) - c.nBars) / c.expectedBars ≤ 1 / 2 := by
      rw [div_le_iff₀ hexpected]
      linarith
    constructor <;> linarith

end Measured

/-- Bars that pass the check have whole gaps. -/
lemma wholeGaps_of_clean {bars : List Bar} (h : checkBarTimestamps bars = []) :
    Measured.WholeGaps (diffs ((bars.map Bar.tsNs).insertionSort fun s t => s ≤ t)) := by
  by_cases hlen : 2 ≤ bars.length
  · rcases (checkBarTimestamps_eq_nil_iff hlen).1 h with ⟨hincreasing, hgrid⟩
    have hsorted : (bars.map Bar.tsNs).insertionSort (fun s t => s ≤ t) = bars.map Bar.tsNs :=
      (hincreasing.imp fun hlt => hlt.le).insertionSort_eq
    have hwhole : ∀ d ∈ diffs (bars.map Bar.tsNs), nsPerSec ∣ d := by
      rw [forall_mem_diffs_iff]
      refine List.Pairwise.isChain (List.pairwise_of_forall_mem_list ?_)
      intro s hs t ht
      rcases List.mem_map.1 hs with ⟨b, hb, rfl⟩
      rcases List.mem_map.1 ht with ⟨b', hb', rfl⟩
      exact dvd_sub (Int.dvd_of_emod_eq_zero (hgrid b' hb'))
        (Int.dvd_of_emod_eq_zero (hgrid b hb))
    rw [hsorted]
    refine ⟨?_, hwhole⟩
    intro d hd
    exact Int.le_of_dvd ((diffs_pos_iff _).2 hincreasing d hd) (hwhole d hd)
  · have hnone : diffs ((bars.map Bar.tsNs).insertionSort fun s t => s ≤ t) = [] := by
      refine List.length_eq_zero_iff.1 ?_
      rw [length_diffs, List.length_insertionSort, List.length_map]
      omega
    rw [hnone]
    exact ⟨fun d hd => absurd hd List.not_mem_nil, fun d hd => absurd hd List.not_mem_nil⟩

/-- Where the bars pass `check_bar_timestamps`, the bars and the longest gap fit into the span, and
the completeness tells exactly whether a second is missing, below a span of two million. -/
theorem figures_of_clean_timestamps {scan : Scan} {runChecks : DayFrames → Option (List Issue)}
    {views : Views} {symbol venue date : String} {nowNs : Int} {card : Scorecard}
    (h : scoreDay scan runChecks views symbol venue date nowNs = some card)
    (hclean : checkBarTimestamps (loadBars scan views symbol venue date) = [])
    (hne : loadBars scan views symbol venue date ≠ []) :
    (card.bars : Int) + card.maxGapSeconds ≤ card.expectedBars + 1 ∧
      ((card.bars : Int) = card.expectedBars ↔ card.maxGapSeconds ≤ 1) ∧
      (card.expectedBars < 2000000 → (card.completenessPct = 100 ↔ card.maxGapSeconds ≤ 1)) := by
  rcases Option.bind_eq_some_iff.1 h with ⟨issues, _, hcard⟩
  have hcard' := Option.some.inj hcard
  have hgaps := wholeGaps_of_clean hclean
  rcases exists_measured hne with ⟨spanNs, hmeasured⟩
  subst hcard'
  change ((completenessOf _).nBars : Int) + (completenessOf _).maxGapSeconds ≤ _ ∧ _
  have hfit := hmeasured.nBars_add_maxGap_le hgaps
  have hfull := hmeasured.nBars_eq_expected_iff hgaps
  refine ⟨hfit, hfull, ?_⟩
  intro hspan
  change (completenessOf _).expectedBars < 2000000 at hspan
  change (completenessOf _).completenessPct = 100 ↔ (completenessOf _).maxGapSeconds ≤ 1
  have hle := hmeasured.nBars_le_expected hgaps
  rw [← hfull, hmeasured.completeness_eq_hundred_iff hle]
  constructor
  · intro hfew
    omega
  · intro hall
    rw [hall, sub_self, mul_zero]
    exact hmeasured.expected_pos.le

/-- Bars of one slice at the given seconds. -/
def sliceAtSeconds (seconds : List Int) : Store Bar :=
  Dict.empty.set ⟨⟨"bars_1s", "BTC-USD", "okx", "1970-01-01"⟩, .part 1⟩
    (seconds.map fun sec =>
      { tsNs := sec * nsPerSec, symbol := "BTC-USD", venue := "okx", «open» := 100, high := 100,
        low := 100, close := 100, volume := 1, vwap := 100, trades := 1, sourcesMask := 0,
        ingestedAtNs := some 1 })

/-- Three bars over four seconds: the card shows 75 percent and a gap of two seconds. -/
theorem figures_of_clean_timestamps_gap :
    let views : Views := ⟨sliceAtSeconds [0, 1, 3], Dict.empty, Dict.empty⟩
    ∃ card, scoreDay Scan.plain (fun _ => some []) views "BTC-USD" "okx" "1970-01-01" 9 =
        some card ∧
      (card.bars, card.expectedBars, card.maxGapSeconds, card.completenessPct) = (3, 4, 2, 75) ∧
      (card.bars : Int) + card.maxGapSeconds ≤ card.expectedBars + 1 ∧
      ((card.bars : Int) = card.expectedBars ↔ card.maxGapSeconds ≤ 1) ∧
      (card.expectedBars < 2000000 → (card.completenessPct = 100 ↔ card.maxGapSeconds ≤ 1)) := by
  intro views
  have hclean :
      checkBarTimestamps (loadBars Scan.plain views "BTC-USD" "okx" "1970-01-01") = [] := by
    decide +kernel
  have hne : loadBars Scan.plain views "BTC-USD" "okx" "1970-01-01" ≠ [] := by decide +kernel
  refine ⟨_, rfl, by decide +kernel, ?_⟩
  exact @figures_of_clean_timestamps Scan.plain (fun _ => some []) views "BTC-USD" "okx"
    "1970-01-01" 9 _ rfl hclean hne

/-! ## Runs of the job -/

/-- What holds of the three places after any number of calls. -/
structure SaneState (s : QualityState) : Prop where
  table : ∀ e ∈ s.dailyQuality.entries, SaneRow e.2
  files : ∀ date, ∀ card ∈ s.files.getD date [], card.date = date ∧ SaneRow card.entry.2
  summary : ∀ q ∈ s.summary, SaneSummary q

theorem saneState_fresh : SaneState QualityState.fresh where
  table := fun _ he => absurd he List.not_mem_nil
  files := fun _ _ hcard => absurd hcard List.not_mem_nil
  summary := fun q hq => absurd hq (Option.not_mem_none q)

/-- A call keeps the state sane, also one that is restricted, or that a check brings down. -/
theorem SaneState.afterCall {runChecks : DayFrames → Option (List Issue)} {s : QualityState}
    (hs : SaneState s) (c : QualityCall) : SaneState (afterCall runChecks s c) := by
  cases hscore : c.score runChecks with
  | none =>
    rw [afterCall_of_none hscore]
    exact hs
  | some rows =>
    by_cases hne : rows = []
    · subst hne
      rw [afterCall_of_nil hscore]
      exact hs
    · have hrows := saneRow_of_score hscore
      have hentries : ∀ e ∈ rows.map Scorecard.entry, SaneRow e.2 := by
        intro e he
        rcases List.mem_map.1 he with ⟨card, hcard, rfl⟩
        exact hrows card hcard
      have hnodup : ((rows.map Scorecard.entry).map Prod.fst).Nodup := by
        rw [map_fst_entry, map_slice_of_score hscore]
        exact c.combos_nodup
      rw [afterCall_of_rows hscore hne]
      refine ⟨?_, ?_, ?_⟩
      · intro e he
        rcases (Dict.mem_upsertAll_iff hnodup).1 he with hnew | ⟨_, hold⟩
        · exact hentries e hnew
        · exact hs.table e hold
      · intro date card hcard
        change card ∈ (s.files.upsertAll (bucket Scorecard.date rows).entries).getD date [] at hcard
        rw [Dict.getD_upsertAll_bucket] at hcard
        split at hcard
        · rcases List.mem_filter.1 hcard with ⟨hmem, hdate⟩
          exact ⟨of_decide_eq_true hdate, hrows card hmem⟩
        · exact hs.files date card hcard
      · intro q hq
        exact saneSummary_of_rows hentries hq

/-- A state that every call keeps sane is sane after each of them. -/
theorem SaneState.scanl {runChecks : DayFrames → Option (List Issue)} :
    ∀ (calls : List QualityCall) {s : QualityState}, SaneState s →
      ∀ s' ∈ calls.scanl (CryptoData.afterCall runChecks) s, SaneState s'
  | [], s, hs => by
      intro s' hs'
      rw [List.mem_singleton.1 hs']
      exact hs
  | c :: calls, s, hs => by
      rw [List.scanl_cons, List.forall_mem_cons]
      exact ⟨hs, SaneState.scanl calls (hs.afterCall c)⟩

/-- Whatever bars come and go between the calls, and whatever the checks report, every row and
every card is sane after each call, and so is the summary. -/
theorem sane_run (runChecks : DayFrames → Option (List Issue)) (calls : List QualityCall) :
    ∀ s ∈ calls.scanl (afterCall runChecks) QualityState.fresh, SaneState s :=
  SaneState.scanl calls saneState_fresh

/-- Two calls over three bars, with a critical issue each: the row scores 70. -/
theorem sane_run_critical :
    let call : QualityCall :=
      { views := ⟨sliceAtSeconds [0, 1, 3], Dict.empty, Dict.empty⟩, scan := Scan.plain,
        scoredNs := fun _ => 3, summarisedNs := 4 }
    let critical : DayFrames → Option (List Issue) :=
      fun frames => some (issueIf "bar.gap" .critical frames.bars.length "")
    ∃ s ∈ [call, call].scanl (afterCall critical) QualityState.fresh,
      (s.dailyQuality.entries.map fun e => (e.2.score, e.2.grade)) = [(70, .c)] ∧ SaneState s := by
  intro call critical
  have hmem : afterCall critical QualityState.fresh call ∈
      [call, call].scanl (afterCall critical) QualityState.fresh := by simp
  exact ⟨_, hmem, by decide +kernel, sane_run critical [call, call] _ hmem⟩

end CryptoData
