import CryptoData.Foundation.Rounding
import CryptoData.Foundation.Runs
import CryptoData.Foundation.StableSort
import CryptoData.Quality.Checks
import Mathlib.Order.Bounds.Basic

/-!
# BarSeries — gaps and flat stretches of a series of bars

`checkBarGaps` looks at the distances of consecutive bars.  A gap is anomalous if it is long
(`warnGapS`) and long for this venue (`relWarnK` median gaps).  The check has two early returns and
looks at gaps of more than a second and a half only; none of this hides an anomalous gap
(`check_bar_gaps_exact`).

`checkFlatline` looks for a long stretch of equal closes.  It numbers the stretches and counts the
numbers, which finds the longest run of the closes (`check_flatline_exact`).
-/

namespace CryptoData

open Foundation

/-! ## Gaps -/

/-- The decimal representation with a fixed number of decimals. -/
def fixedPoint (digits : ℕ) (x : ℚ) : String :=
  let scaled := (roundHalfEven (|x| * 10 ^ digits)).toNat
  let sign := if x < 0 then "-" else ""
  let whole := sign ++ toString (scaled / 10 ^ digits)
  if digits = 0 then whole else whole ++ "." ++ zeroPad digits (scaled % 10 ^ digits : ℕ)

/-- The keyword arguments of `check_bar_gaps`. -/
structure GapParams where
  warnGapS : ℚ := 60
  majorGapS : ℚ := 600
  relWarnK : ℚ := 30
  relMajorK : ℚ := 120

/-- `np.diff(np.sort(ts)) / 1e9`. -/
def gapsS (bars : List Bar) : List ℚ :=
  (diffs ((bars.map Bar.tsNs).insertionSort fun s t => s ≤ t)).map fun d : Int =>
    (d : ℚ) / 1000000000

/-- From this length on a gap is anomalous. -/
def warnTh (p : GapParams) (gaps : List ℚ) : ℚ :=
  max p.warnGapS (p.relWarnK * median gaps)

def majorTh (p : GapParams) (gaps : List ℚ) : ℚ :=
  max p.majorGapS (p.relMajorK * median gaps)

/-- `check_bar_gaps(bars)`. -/
def checkBarGaps (p : GapParams) (bars : List Bar) : List Issue :=
  if bars.length < 2 then
    []
  else
    let gaps := gapsS bars
    -- More than one nominal second.
    let real := gaps.filter fun g => decide (g > 3 / 2)
    if h : real = [] then
      []
    else
      let nWarn := real.countP fun g => decide (g ≥ warnTh p gaps)
      let nMajor := real.countP fun g => decide (g ≥ majorTh p gaps)
      -- Sparse but not anomalous.
      if nWarn = 0 then
        []
      else
        let longest := real.max h
        [{ check := "bar.gaps"
           severity := if nMajor = 0 then .minor else .major
           count := nWarn
           detail := toString nWarn ++ " anomalous gap(s) between 1s bars (median gap " ++
             fixedPoint 1 (median gaps) ++ "s, longest " ++ fixedPoint 0 longest ++ "s; " ++
             toString nMajor ++ " >= " ++ fixedPoint 0 (majorTh p gaps) ++ "s)"
           sample := ((real.insertionSort fun x y => x ≥ y).take 5).map (roundTo 1) }]

section Gaps

variable {p : GapParams} {bars : List Bar}

lemma length_diffs (ts : List Int) : (diffs ts).length = ts.length - 1 := by
  rw [diffs, List.length_zipWith, List.length_tail, Nat.min_eq_left (Nat.sub_le _ _)]

lemma gapsS_ne_nil (hlen : 2 ≤ bars.length) : gapsS bars ≠ [] := by
  refine List.ne_nil_of_length_pos ?_
  rw [gapsS, List.length_map, length_diffs, List.length_insertionSort, List.length_map]
  exact Nat.sub_pos_of_lt hlen

/-- A threshold above the filter counts the same gaps before and behind it. -/
lemma countP_real (gaps : List ℚ) {th : ℚ} (hth : 3 / 2 < th) :
    (gaps.filter fun g => decide (g > 3 / 2)).countP (fun g => decide (g ≥ th)) =
      gaps.countP fun g => decide (th ≤ g) := by
  rw [List.countP_filter]
  refine List.countP_congr ?_
  intro g _
  simp only [Bool.and_eq_true, decide_eq_true_eq]
  constructor
  · intro h
    exact h.1
  · intro h
    exact ⟨h, lt_of_lt_of_le hth h⟩

/-- Some gap reaches a threshold exactly if the longest does. -/
lemma countP_ne_zero_iff {gaps : List ℚ} {longest th : ℚ}
    (hlongest : IsGreatest {g | g ∈ gaps} longest) :
    gaps.countP (fun g => decide (th ≤ g)) ≠ 0 ↔ th ≤ longest := by
  constructor
  · intro hne
    rcases List.countP_pos_iff.1 (Nat.pos_of_ne_zero hne) with ⟨g, hg, hth⟩
    exact le_trans (of_decide_eq_true hth) (hlongest.2 hg)
  · intro hth
    exact (List.countP_pos_iff.2 ⟨longest, hlongest.1, decide_eq_true hth⟩).ne'

/-- Whatever the early returns are, the check counts the gaps from its threshold on. -/
theorem checkBarGaps_cases (hlen : 2 ≤ bars.length) (hwarn : 3 / 2 < p.warnGapS)
    (hmajor : 3 / 2 < p.majorGapS) :
    ((gapsS bars).countP (fun g => decide (warnTh p (gapsS bars) ≤ g)) = 0 ∧
        checkBarGaps p bars = []) ∨
      ∃ issue, checkBarGaps p bars = [issue] ∧
        issue.count = (gapsS bars).countP (fun g => decide (warnTh p (gapsS bars) ≤ g)) ∧
        issue.count ≠ 0 ∧
        issue.severity =
          if (gapsS bars).countP (fun g => decide (majorTh p (gapsS bars) ≤ g)) = 0 then .minor
          else .major := by
  have hmany : ¬ bars.length < 2 := not_lt.2 hlen
  have hwarnTh : 3 / 2 < warnTh p (gapsS bars) := lt_of_lt_of_le hwarn (le_max_left _ _)
  have hmajorTh : 3 / 2 < majorTh p (gapsS bars) := lt_of_lt_of_le hmajor (le_max_left _ _)
  have hcount := countP_real (gapsS bars) hwarnTh
  have hcount' := countP_real (gapsS bars) hmajorTh
  unfold checkBarGaps
  rw [if_neg hmany]
  dsimp only
  -- The early return for dense bars: without a real gap none reaches the threshold.
  by_cases hreal : (gapsS bars).filter (fun g => decide (g > 3 / 2)) = []
  · refine Or.inl ⟨?_, dif_pos hreal⟩
    rw [← hcount, hreal, List.countP_nil]
  · rw [dif_neg hreal, hcount, hcount']
    by_cases hnone : (gapsS bars).countP (fun g => decide (warnTh p (gapsS bars) ≤ g)) = 0
    · exact Or.inl ⟨hnone, if_pos hnone⟩
    · refine Or.inr ⟨_, if_neg hnone, rfl, hnone, rfl⟩

/-- With the default thresholds: there is an issue exactly if the longest gap reaches the lower
threshold, it counts the gaps that do, and it is major exactly if the longest gap reaches the upper
threshold. -/
theorem check_bar_gaps_exact (hlen : 2 ≤ bars.length) :
    ∃ longest, IsGreatest {g | g ∈ gapsS bars} longest ∧
      (checkBarGaps {} bars ≠ [] ↔ max 60 (30 * median (gapsS bars)) ≤ longest) ∧
      (checkBarGaps {} bars).length ≤ 1 ∧
      ∀ issue ∈ checkBarGaps {} bars,
        issue.count =
            (gapsS bars).countP (fun g => decide (max 60 (30 * median (gapsS bars)) ≤ g)) ∧
          (issue.severity = .major ↔ max 600 (120 * median (gapsS bars)) ≤ longest) := by
  have hne := gapsS_ne_nil hlen
  have hlongest : IsGreatest {g | g ∈ gapsS bars} ((gapsS bars).max hne) :=
    ⟨List.max_mem hne, fun _ hg => List.le_max_of_mem hg⟩
  refine ⟨(gapsS bars).max hne, hlongest, ?_⟩
  have hwarn : (3 : ℚ) / 2 < (60 : ℚ) := by norm_num
  have hmajor : (3 : ℚ) / 2 < (600 : ℚ) := by norm_num
  rcases checkBarGaps_cases (p := {}) hlen hwarn hmajor with
    ⟨hnone, hnil⟩ | ⟨issue, hone, hcount, hpos, hseverity⟩
  · have hshort : ¬ max 60 (30 * median (gapsS bars)) ≤ (gapsS bars).max hne := by
      intro hlong
      exact (countP_ne_zero_iff hlongest).2 hlong hnone
    rw [hnil]
    refine ⟨iff_of_false (fun h => h rfl) hshort, Nat.zero_le _, ?_⟩
    intro issue hissue
    exact absurd hissue List.not_mem_nil
  · have hlong : max 60 (30 * median (gapsS bars)) ≤ (gapsS bars).max hne :=
      (countP_ne_zero_iff hlongest).1 (hcount ▸ hpos)
    rw [hone]
    refine ⟨iff_of_true (List.cons_ne_nil _ _) hlong, le_rfl, ?_⟩
    intro issue' hissue
    rw [List.mem_singleton.1 hissue]
    refine ⟨hcount, ?_⟩
    have hreaches : (gapsS bars).countP (fun g => decide (majorTh {} (gapsS bars) ≤ g)) ≠ 0 ↔
        max 600 (120 * median (gapsS bars)) ≤ (gapsS bars).max hne := countP_ne_zero_iff hlongest
    -- A gap that makes the issue major is counted among the real ones, and the longest is one.
    rw [← hreaches, hseverity]
    by_cases hminor : (gapsS bars).countP (fun g => decide (majorTh {} (gapsS bars) ≤ g)) = 0
    · rw [if_pos hminor]
      exact iff_of_false Severity.noConfusion (fun h => h hminor)
    · rw [if_neg hminor]
      exact iff_of_true rfl hminor

/-- Three bars a second apart, and one that comes eleven minutes later. -/
def outage : List Bar :=
  [⟨1000000000, "X-USD", "okx", 1, 1, 1, 1, 1, 1, 1, 1, none⟩,
    ⟨700000000000, "X-USD", "okx", 1, 1, 1, 1, 1, 1, 1, 1, none⟩,
    ⟨2000000000, "X-USD", "okx", 1, 1, 1, 1, 1, 1, 1, 1, none⟩,
    ⟨3000000000, "X-USD", "okx", 1, 1, 1, 1, 1, 1, 1, 1, none⟩]

theorem check_bar_gaps_exact_outage :
    ∃ longest, IsGreatest {g | g ∈ gapsS outage} longest ∧
      (checkBarGaps {} outage ≠ [] ↔ max 60 (30 * median (gapsS outage)) ≤ longest) ∧
      (checkBarGaps {} outage).map (fun issue => (issue.severity, issue.count)) =
        [(.major, 1)] := by
  have hlen : 2 ≤ outage.length := by decide
  rcases check_bar_gaps_exact hlen with ⟨longest, hgreatest, hiff, _⟩
  exact ⟨longest, hgreatest, hiff, by decide +kernel⟩

end Gaps

/-! ## Flat stretches -/

/-- `np.cumsum(change)`, from `n` on. -/
def cumsum (n : ℕ) : List Bool → List ℕ
  | [] => []
  | change :: changes => (n + change.toNat) :: cumsum (n + change.toNat) changes

/-- `np.bincount(ids)`. -/
def bincount (ids : List ℕ) : List ℕ :=
  (List.range (ids.foldl max 0 + 1)).map fun i => ids.count i

/-- `np.concatenate(([True], close[1:] != close[:-1]))`. -/
def changes (close : List ℚ) : List Bool :=
  true :: List.zipWith (fun next prev => decide (next ≠ prev)) close.tail close

/-- `check_flatline(bars)`. -/
def checkFlatline (minRun : ℕ) (bars : List Bar) : List Issue :=
  if bars.length < minRun then
    []
  else
    let close := (bars.insertionSort fun a b => a.tsNs ≤ b.tsNs).map Bar.close
    if close.isEmpty then
      []
    else
      -- Bars of one run have one number.
      let runIds := cumsum 0 (changes close)
      let longest := (bincount runIds).foldl max 0
      if longest ≥ minRun then
        [⟨"bar.flatline", .minor, longest,
          "longest run of identical consecutive closes is " ++ toString longest ++ " bars (>= " ++
            toString minRun ++ ")", []⟩]
      else []

section Flatline

variable {minRun : ℕ} {bars sorted : List Bar}

/-- The running sum of the changes numbers the runs, from 1 on. -/
lemma cons_cumsum_eq_runNumbers (n : ℕ) :
    ∀ (a : ℚ) (close : List ℚ),
      n :: cumsum n (List.zipWith (fun next prev => decide (next ≠ prev)) close (a :: close)) =
        runNumbers n (a :: close)
  | _, [] => rfl
  | a, b :: close => by
      have hnumber : n + (decide (b ≠ a)).toNat = if b ≠ a then n + 1 else n := by
        by_cases hb : b ≠ a
        · rw [if_pos hb, decide_eq_true hb]
          rfl
        · rw [if_neg hb, decide_eq_false hb]
          rfl
      rw [List.zipWith_cons_cons, cumsum, hnumber, runNumbers,
        cons_cumsum_eq_runNumbers (if b ≠ a then n + 1 else n) b close]

/-- The first flag is set, so the numbers start at 1. -/
lemma cumsum_changes {close : List ℚ} (hne : close ≠ []) :
    cumsum 0 (changes close) = runNumbers 1 close := by
  cases close with
  | nil => exact absurd rfl hne
  | cons a close => exact cons_cumsum_eq_runNumbers 1 a close

lemma isGreatest_foldl_max (ns : List ℕ) : IsGreatest {n | n ∈ 0 :: ns} (ns.foldl max 0) :=
  List.max?_eq_some_iff.1 List.max?_cons'

/-- The bins hold the counts of all numbers; the empty ones change nothing. -/
lemma isGreatest_bincount (ids : List ℕ) :
    IsGreatest (Set.range fun k => ids.count k) ((bincount ids).foldl max 0) := by
  have hids := isGreatest_foldl_max ids
  have hnone : ∀ k, ids.foldl max 0 < k → ids.count k = 0 := by
    intro k hk
    refine List.count_eq_zero.2 ?_
    intro hmem
    exact absurd (hids.2 (List.mem_cons_of_mem 0 hmem)) (not_le.2 hk)
  have hbins := isGreatest_foldl_max (bincount ids)
  constructor
  · rcases List.mem_cons.1 hbins.1 with hzero | hbin
    · rw [hzero]
      exact ⟨_, hnone _ (Nat.lt_succ_self _)⟩
    · rcases List.mem_map.1 hbin with ⟨k, _, hk⟩
      exact ⟨k, hk⟩
  · intro n hn
    rcases hn with ⟨k, rfl⟩
    rcases Nat.lt_or_ge (ids.foldl max 0) k with habove | hbin
    · exact (hnone k habove).trans_le (Nat.zero_le _)
    · refine hbins.2 (List.mem_cons_of_mem 0 (List.mem_map.2 ⟨k, ?_, rfl⟩))
      exact List.mem_range.2 (Nat.lt_succ_of_le hbin)

/-- Whatever the early returns are, the check compares the longest run of the closes. -/
lemma checkFlatline_cases (hmin : 1 ≤ minRun) (bars : List Bar) :
    ∃ longest, IsGreatest
        (runLengths ((bars.insertionSort fun a b => a.tsNs ≤ b.tsNs).map Bar.close)) longest ∧
      ((longest < minRun ∧ checkFlatline minRun bars = []) ∨
        (minRun ≤ longest ∧ ∃ issue, checkFlatline minRun bars = [issue] ∧
          issue.count = longest)) := by
  let close := (bars.insertionSort fun a b => a.tsNs ≤ b.tsNs).map Bar.close
  have hlength : close.length = bars.length := by
    rw [List.length_map, List.length_insertionSort]
  have hlongest : IsGreatest (runLengths close) ((bincount (runNumbers 1 close)).foldl max 0) :=
    isGreatest_runLengths (isGreatest_bincount _)
  refine ⟨_, hlongest, ?_⟩
  unfold checkFlatline
  by_cases hfew : bars.length < minRun
  · -- A run is no longer than the list.
    rcases hlongest.1 with ⟨block, hrun, hblock⟩
    rw [← hblock]
    exact Or.inl ⟨(hrun.consecutive.length_le.trans hlength.le).trans_lt hfew, if_pos hfew⟩
  · have hne : close ≠ [] := by
      refine List.ne_nil_of_length_pos ?_
      rw [hlength]
      exact hmin.trans (not_lt.1 hfew)
    have hnonempty : ¬ close.isEmpty = true := fun h => hne (List.isEmpty_iff.1 h)
    dsimp only
    rw [if_neg hfew, if_neg hnonempty, cumsum_changes hne]
    by_cases hlong : (bincount (runNumbers 1 close)).foldl max 0 ≥ minRun
    · exact Or.inr ⟨hlong, _, if_pos hlong, rfl⟩
    · exact Or.inl ⟨not_le.1 hlong, if_neg hlong⟩

/-- For bars with distinct timestamps: there is an issue exactly if the closes in the order of time
have a run of `minRun`, and it counts the longest run. -/
theorem check_flatline_exact (hmin : 1 ≤ minRun) (hdistinct : (bars.map Bar.tsNs).Nodup)
    (hperm : sorted.Perm bars) (hsorted : sorted.Pairwise fun a b => a.tsNs ≤ b.tsNs) :
    (checkFlatline minRun bars ≠ [] ↔
        ∃ block, IsRun block (sorted.map Bar.close) ∧ minRun ≤ block.length) ∧
      (checkFlatline minRun bars).length ≤ 1 ∧
      ∀ issue ∈ checkFlatline minRun bars,
        IsGreatest (runLengths (sorted.map Bar.close)) issue.count := by
  rcases checkFlatline_cases hmin bars with ⟨longest, hlongest, hcases⟩
  -- With distinct timestamps there is one order of time.
  rw [insertionSort_key_eq Bar.tsNs hdistinct hperm hsorted] at hlongest
  rcases hcases with ⟨hshort, hnil⟩ | ⟨hlong, issue, hone, hcount⟩
  · rw [hnil]
    refine ⟨iff_of_false (fun h => h rfl) ?_, Nat.zero_le _, ?_⟩
    · intro h
      rcases h with ⟨block, hrun, hblock⟩
      exact absurd (hblock.trans (hlongest.2 ⟨block, hrun, rfl⟩)) (not_le.2 hshort)
    · intro issue hissue
      exact absurd hissue List.not_mem_nil
  · rw [hone]
    refine ⟨iff_of_true (List.cons_ne_nil _ _) ?_, le_rfl, ?_⟩
    · rcases hlongest.1 with ⟨block, hrun, hblock⟩
      exact ⟨block, hrun, hblock ▸ hlong⟩
    · intro issue' hissue
      rw [List.mem_singleton.1 hissue, hcount]
      exact hlongest

def closeAt (sec : Int) (close : ℚ) : Bar :=
  ⟨sec * nsPerSec, "X-USD", "okx", close, close, close, close, 1, close, 1, 1, none⟩

/-- A feed that stalls from the second bar on, stored out of order. -/
def stalled : List Bar :=
  [closeAt 3 2, closeAt 1 1, closeAt 4 2, closeAt 2 2]

theorem check_flatline_exact_stalled :
    (checkFlatline 3 stalled).map Issue.count = [3] ∧
      IsGreatest (runLengths [(1 : ℚ), 2, 2, 2]) 3 := by
  have hcounts : (checkFlatline 3 stalled).map Issue.count = [3] := by decide +kernel
  have hperm : [closeAt 1 1, closeAt 2 2, closeAt 3 2, closeAt 4 2].Perm stalled := by
    decide +kernel
  have hclose : [closeAt 1 1, closeAt 2 2, closeAt 3 2, closeAt 4 2].map Bar.close = [1, 2, 2, 2] :=
    rfl
  have hmin : 1 ≤ 3 := by decide
  have hexact := check_flatline_exact hmin (by decide +kernel) hperm (by decide +kernel)
  rw [hclose] at hexact
  have hthree : 3 ∈ (checkFlatline 3 stalled).map Issue.count :=
    hcounts ▸ List.mem_singleton_self 3
  rcases List.mem_map.1 hthree with ⟨issue, hissue, hcount⟩
  exact ⟨hcounts, hcount ▸ hexact.2.2 issue hissue⟩

end Flatline

end CryptoData
