import CryptoData.Foundation.Rounding
import CryptoData.Sources.CoinbaseBook

/-!
# Books — the quality of stored order books

`bookQuality` runs its checks on every snapshot, counts the failures of each check, and takes the
sum of the counts for the number of snapshots that are not clean.  A snapshot that fails two checks
is counted twice, so the percentage of clean snapshots is one only if no snapshot does
(`book_quality_clean_pct_iff`).
-/

namespace CryptoData

open Foundation

/-! ## The algorithm -/

/-- `any(px[i] < px[i + 1] for i in range(len(px) - 1))`. -/
def risesSomewhere (px : List ℚ) : Bool :=
  (px.zip px.tail).any fun p => decide (p.1 < p.2)

/-- `any(px[i] > px[i + 1] for i in range(len(px) - 1))`. -/
def fallsSomewhere (px : List ℚ) : Bool :=
  (px.zip px.tail).any fun p => decide (p.1 > p.2)

/-- `len(set(px)) != len(px)`. -/
def hasDuplicate (px : List ℚ) : Bool :=
  decide (px.dedup.length ≠ px.length)

/-- The keys whose count the loop body raises for a snapshot. -/
def failedChecks (r : BookSnapshot) : List String :=
  let bpx := r.bids.map Prod.fst
  let apx := r.asks.map Prod.fst
  let bsz := r.bids.map Prod.snd
  let asz := r.asks.map Prod.snd
  match bpx, apx with
  | bid :: _, ask :: _ =>
      -- The best bid and the best ask are the first of their sides.
      (if bid ≥ ask then ["crossed_top"] else []) ++
      (if risesSomewhere bpx then ["bids_not_descending"] else []) ++
      (if fallsSomewhere apx then ["asks_not_ascending"] else []) ++
      (if (bpx ++ apx).any (fun p => decide (p ≤ 0)) || (bsz ++ asz).any (fun s => decide (s < 0))
        then ["nonpositive_level"] else []) ++
      (if hasDuplicate bpx || hasDuplicate apx then ["duplicate_price_level"] else [])
  | _, _ => ["empty_side"]

/-- `counts[k] += 1`. -/
def increment (counts : Dict String ℕ) (k : String) : Dict String ℕ :=
  counts.set k (counts.getD k 0 + 1)

/-- `counts` before the loop. -/
def zeroCounts : Dict String ℕ where
  entries := [("empty_side", 0), ("crossed_top", 0), ("bids_not_descending", 0),
    ("asks_not_ascending", 0), ("nonpositive_level", 0), ("duplicate_price_level", 0)]
  nodup := by decide

/-- `counts` after the loop. -/
def bookCounts (snapshots : List BookSnapshot) : Dict String ℕ :=
  snapshots.foldl (fun counts r => (failedChecks r).foldl increment counts) zeroCounts

/-- `{k: v for k, v in counts.items() if v}`. -/
def bookIssues (snapshots : List BookSnapshot) : Dict String ℕ :=
  (bookCounts snapshots).filter fun e => decide (e.2 ≠ 0)

/-- `100.0 * (1 - sum(issues.values()) / max(n, 1))`. -/
def cleanShare (snapshots : List BookSnapshot) : ℚ :=
  100 * (1 - ((bookIssues snapshots).values.sum : ℚ) / (max snapshots.length 1 : ℕ))

/-- The result of `book_quality`; an empty frame has no `clean_pct`. -/
structure BookQuality where
  nSnapshots : ℕ
  issues : Dict String ℕ
  cleanPct : Option ℚ

/-- `book_quality(snapshots)`. -/
def bookQuality (snapshots : List BookSnapshot) : BookQuality :=
  if snapshots.isEmpty then
    ⟨0, Dict.empty, none⟩
  else
    ⟨snapshots.length, bookIssues snapshots, some (roundTo 2 (cleanShare snapshots))⟩

/-! ## What is counted -/

/-- The sum of all counts. -/
def total (counts : Dict String ℕ) : ℕ :=
  counts.measure fun _ v => v

lemma total_increment (counts : Dict String ℕ) (k : String) :
    total (increment counts k) = total counts + 1 := by
  refine Dict.measure_set_add ?_
  rw [Dict.getD]
  cases counts.get? k with
  | none => rfl
  | some v => rfl

/-- One snapshot adds as many as it fails checks. -/
lemma total_foldl_increment :
    ∀ (ks : List String) (counts : Dict String ℕ),
      total (ks.foldl increment counts) = total counts + ks.length
  | [], _ => rfl
  | k :: ks, counts => by
      rw [List.foldl_cons, total_foldl_increment ks, total_increment, List.length_cons, add_assoc,
        add_comm 1]

/-- The number of failed checks, over all snapshots. -/
def failures (snapshots : List BookSnapshot) : ℕ :=
  (snapshots.map fun r => (failedChecks r).length).sum

lemma total_foldl_snapshots :
    ∀ (snapshots : List BookSnapshot) (counts : Dict String ℕ),
      total (snapshots.foldl (fun counts r => (failedChecks r).foldl increment counts) counts) =
        total counts + failures snapshots
  | [], _ => rfl
  | r :: rest, counts => by
      rw [List.foldl_cons, total_foldl_snapshots rest, total_foldl_increment, add_assoc]
      rfl

/-- Leaving the zeros out does not change a sum. -/
lemma sum_filter_ne_zero :
    ∀ entries : List (String × ℕ),
      ((entries.filter fun e => decide (e.2 ≠ 0)).map Prod.snd).sum = (entries.map Prod.snd).sum
  | [] => rfl
  | (k, v) :: entries => by
      have hrest := sum_filter_ne_zero entries
      rw [List.map_cons, List.sum_cons, ← hrest]
      cases v with
      | zero => exact (Nat.zero_add _).symm
      | succ n => rfl

lemma sum_values_bookIssues (snapshots : List BookSnapshot) :
    (bookIssues snapshots).values.sum = failures snapshots := by
  -- The counts start at zero, and each failed check adds one.
  refine (sum_filter_ne_zero _).trans ?_
  refine (total_foldl_snapshots snapshots zeroCounts).trans ?_
  exact Nat.zero_add _

/-- There are no issues exactly if no check failed. -/
lemma bookIssues_eq_nil_iff (snapshots : List BookSnapshot) :
    (bookIssues snapshots).entries = [] ↔ failures snapshots = 0 := by
  rw [← sum_values_bookIssues]
  constructor
  · intro h
    rw [Dict.values, h]
    rfl
  · intro hsum
    refine List.eq_nil_iff_forall_not_mem.2 ?_
    intro e he
    have hzero := List.sum_eq_zero_iff_forall_eq_nat.1 hsum e.2 (List.mem_map.2 ⟨e, he, rfl⟩)
    exact of_decide_eq_true (List.mem_filter.1 he).2 hzero

/-! ## The clean snapshots -/

/-- No check fires for the snapshot. -/
def isClean (r : BookSnapshot) : Bool :=
  (failedChecks r).isEmpty

/-- The fraction of the snapshots that are clean. -/
def cleanFraction (snapshots : List BookSnapshot) : ℚ :=
  (snapshots.countP isClean : ℚ) / snapshots.length

/-- No snapshot fails two checks. -/
def OneFaultEach (snapshots : List BookSnapshot) : Prop :=
  ∀ r ∈ snapshots, (failedChecks r).length ≤ 1

/-- Every snapshot is clean or fails a check; together they are no more than the snapshots only if
none fails two. -/
lemma length_le_and_eq_iff :
    ∀ snapshots : List BookSnapshot,
      snapshots.length ≤ snapshots.countP isClean + failures snapshots ∧
        (snapshots.length = snapshots.countP isClean + failures snapshots ↔ OneFaultEach snapshots)
  | [] => ⟨le_rfl, iff_of_true rfl fun _ hr => absurd hr List.not_mem_nil⟩
  | r :: rest => by
      rcases length_le_and_eq_iff rest with ⟨hle, heq⟩
      have hfailures : failures (r :: rest) = (failedChecks r).length + failures rest := rfl
      have hone : OneFaultEach (r :: rest) ↔ (failedChecks r).length ≤ 1 ∧ OneFaultEach rest :=
        List.forall_mem_cons
      rw [hfailures, hone, ← heq, List.countP_cons, List.length_cons, isClean]
      cases hchecks : failedChecks r with
      | nil =>
          -- A clean snapshot is counted once, among the clean ones.
          simp only [List.isEmpty_nil, if_true, List.length_nil]
          omega
      | cons k ks =>
          -- Any other is counted for each check that it fails.
          simp only [List.isEmpty_cons, Bool.false_eq_true, if_false, List.length_cons]
          omega

/-! ## The percentage -/

/-- `pct` is the percentage of clean snapshots, up to `slack`, and behaves like it. -/
structure IsCleanPct (slack : ℚ) (snapshots : List BookSnapshot) (pct : ℚ) : Prop where
  near : |pct - 100 * cleanFraction snapshots| ≤ slack
  nonneg : 0 ≤ pct
  le_hundred : pct ≤ 100
  full : pct = 100 ↔ (bookQuality snapshots).issues.entries = []

section Percentage

variable {snapshots : List BookSnapshot}

lemma length_pos_cast (hne : snapshots ≠ []) : (0 : ℚ) < snapshots.length :=
  Nat.cast_pos.2 (List.length_pos_of_ne_nil hne)

/-- What is missing to the full percentage. -/
lemma cleanShare_eq (hne : snapshots ≠ []) :
    cleanShare snapshots = 100 - 100 * (failures snapshots / snapshots.length) := by
  have hone : 1 ≤ snapshots.length := List.length_pos_of_ne_nil hne
  rw [cleanShare, sum_values_bookIssues, max_eq_left hone]
  ring

/-- The failures that are counted although the snapshot has failed before. -/
def recounted (snapshots : List BookSnapshot) : ℕ :=
  snapshots.countP isClean + failures snapshots - snapshots.length

lemma recounted_eq_zero_iff (snapshots : List BookSnapshot) :
    recounted snapshots = 0 ↔ OneFaultEach snapshots := by
  rcases length_le_and_eq_iff snapshots with ⟨hle, heq⟩
  rw [← heq, recounted, Nat.sub_eq_zero_iff_le]
  exact ⟨fun h => le_antisymm hle h, fun h => h.ge⟩

/-- They are what the code misses the percentage of clean snapshots by. -/
lemma cleanFraction_sub_cleanShare (hne : snapshots ≠ []) :
    100 * cleanFraction snapshots - cleanShare snapshots =
      100 * (recounted snapshots / snapshots.length) := by
  have hpos := (length_pos_cast hne).ne'
  rw [cleanShare_eq hne, cleanFraction, recounted,
    Nat.cast_sub (length_le_and_eq_iff snapshots).1, Nat.cast_add, sub_div, add_div,
    div_self hpos]
  ring

lemma cleanShare_eq_iff (hne : snapshots ≠ []) :
    cleanShare snapshots = 100 * cleanFraction snapshots ↔ OneFaultEach snapshots := by
  have hsub := cleanFraction_sub_cleanShare hne
  rw [← recounted_eq_zero_iff]
  constructor
  · intro h
    rw [h, sub_self] at hsub
    rcases mul_eq_zero.1 hsub.symm with hhundred | hdiv
    · norm_num at hhundred
    · rcases div_eq_zero_iff.1 hdiv with hzero | hlength
      · exact Nat.cast_eq_zero.1 hzero
      · exact absurd hlength (length_pos_cast hne).ne'
  · intro h
    rw [h, Nat.cast_zero, zero_div, mul_zero] at hsub
    exact (sub_eq_zero.1 hsub).symm

lemma cleanFraction_mem_Icc (hne : snapshots ≠ []) :
    0 ≤ 100 * cleanFraction snapshots ∧ 100 * cleanFraction snapshots ≤ 100 := by
  have hle : (snapshots.countP isClean : ℚ) ≤ snapshots.length :=
    Nat.cast_le.2 List.countP_le_length
  have hone : cleanFraction snapshots ≤ 1 := (div_le_one (length_pos_cast hne)).2 hle
  have hzero : 0 ≤ cleanFraction snapshots := div_nonneg (Nat.cast_nonneg _) (Nat.cast_nonneg _)
  constructor
  · linarith
  · linarith

lemma issues_bookQuality (hne : snapshots ≠ []) :
    (bookQuality snapshots).issues.entries = [] ↔ failures snapshots = 0 := by
  rw [bookQuality, if_neg fun h => hne (List.isEmpty_iff.1 h)]
  exact bookIssues_eq_nil_iff snapshots

lemma cleanShare_eq_hundred_iff (hne : snapshots ≠ []) :
    cleanShare snapshots = 100 ↔ failures snapshots = 0 := by
  have hpos := length_pos_cast hne
  rw [cleanShare_eq hne]
  constructor
  · intro h
    have hdiv : (failures snapshots : ℚ) / snapshots.length = 0 := by linarith
    rcases div_eq_zero_iff.1 hdiv with hzero | hlength
    · exact Nat.cast_eq_zero.1 hzero
    · exact absurd hlength hpos.ne'
  · intro h
    rw [h, Nat.cast_zero, zero_div, mul_zero, sub_zero]

/-- In a frame of fewer than ten thousand, one snapshot makes more than a hundredth of a percent. -/
lemma eq_zero_of_share_le (hne : snapshots ≠ []) (hfew : snapshots.length < 10000) {k : ℕ}
    (h : 100 * ((k : ℚ) / snapshots.length) ≤ 1 / 100) : k = 0 := by
  have hpos := length_pos_cast hne
  have hfew' : (snapshots.length : ℚ) < 10000 := by exact_mod_cast hfew
  by_contra hk
  have hone : (1 : ℚ) ≤ k := Nat.one_le_cast.2 (Nat.one_le_iff_ne_zero.2 hk)
  have hdiv : (k : ℚ) / snapshots.length ≤ 1 / 10000 := by linarith
  rw [div_le_div_iff₀ hpos (by norm_num)] at hdiv
  linarith

lemma cleanPct_eq (hne : snapshots ≠ []) :
    (bookQuality snapshots).cleanPct = some (roundTo 2 (cleanShare snapshots)) := by
  rw [bookQuality, if_neg fun h => hne (List.isEmpty_iff.1 h)]

/-- Half a hundredth is what the rounding to two decimals may move the share by. -/
lemma abs_roundTo_sub_le (x : ℚ) : |roundTo 2 x - x| ≤ 1 / 200 := by
  have hbounds := roundTo_bounds 2 x
  norm_num at hbounds
  refine abs_le.2 ⟨?_, ?_⟩
  · linarith
  · linarith

/-- What the code rounds is the percentage exactly if no snapshot fails two checks. -/
lemma isCleanPct_cleanShare_iff (hne : snapshots ≠ []) :
    IsCleanPct 0 snapshots (cleanShare snapshots) ↔ OneFaultEach snapshots := by
  rw [← cleanShare_eq_iff hne]
  constructor
  · intro h
    exact sub_eq_zero.1 (abs_eq_zero.1 (le_antisymm h.near (abs_nonneg _)))
  · intro heq
    have hmem := cleanFraction_mem_Icc hne
    have hnear : |cleanShare snapshots - 100 * cleanFraction snapshots| ≤ 0 := by
      rw [heq, sub_self, abs_zero]
    rw [← heq] at hmem
    exact ⟨hnear, hmem.1, hmem.2,
      (cleanShare_eq_hundred_iff hne).trans (issues_bookQuality hne).symm⟩

/-- In a frame of fewer than ten thousand, so is what it returns. -/
lemma isCleanPct_roundTo_iff (hne : snapshots ≠ []) (hfew : snapshots.length < 10000) :
    IsCleanPct (1 / 200) snapshots (roundTo 2 (cleanShare snapshots)) ↔
      OneFaultEach snapshots := by
  have hshare := abs_le.1 (abs_roundTo_sub_le (cleanShare snapshots))
  constructor
  · intro h
    -- Half a hundredth on either side is at most a hundredth; a recounted snapshot makes more than
    -- that.
    have hnear := abs_le.1 h.near
    rw [← recounted_eq_zero_iff]
    refine eq_zero_of_share_le hne hfew ?_
    rw [← cleanFraction_sub_cleanShare hne]
    linarith [hshare.2, hnear.1]
  · intro hone
    have heq := (cleanShare_eq_iff hne).2 hone
    have hmem := cleanFraction_mem_Icc hne
    rw [← heq] at hmem
    have hrounded := roundTo_mem_Icc 2 (a := 0) (b := 100) (x := cleanShare snapshots)
      (by exact_mod_cast hmem.1) (by exact_mod_cast hmem.2)
    refine ⟨by rw [← heq]; exact abs_roundTo_sub_le _, by exact_mod_cast hrounded.1,
      by exact_mod_cast hrounded.2, ?_⟩
    rw [issues_bookQuality hne]
    constructor
    · intro hfull
      rw [hfull] at hshare
      refine eq_zero_of_share_le hne hfew ?_
      rw [cleanShare_eq hne] at hshare
      linarith [hshare.2]
    · intro hnone
      rw [(cleanShare_eq_hundred_iff hne).2 hnone]
      decide +kernel

/-- `clean_pct` is within half a hundredth of a share that is the percentage of the clean snapshots
exactly if no snapshot fails two checks; in a frame of fewer than ten thousand, so is `clean_pct`
itself. -/
theorem book_quality_clean_pct_iff (hne : snapshots ≠ []) :
    (∃ pct, (bookQuality snapshots).cleanPct = some pct ∧
        |pct - cleanShare snapshots| ≤ 1 / 200) ∧
      (IsCleanPct 0 snapshots (cleanShare snapshots) ↔ OneFaultEach snapshots) ∧
      (snapshots.length < 10000 →
        ((∃ pct, (bookQuality snapshots).cleanPct = some pct ∧
            IsCleanPct (1 / 200) snapshots pct) ↔
          OneFaultEach snapshots)) := by
  refine ⟨⟨_, cleanPct_eq hne, abs_roundTo_sub_le _⟩, isCleanPct_cleanShare_iff hne, ?_⟩
  intro hfew
  rw [← isCleanPct_roundTo_iff hne hfew]
  constructor
  · intro h
    rcases h with ⟨pct, hpct, hclean⟩
    rw [cleanPct_eq hne] at hpct
    exact Option.some.inj hpct ▸ hclean
  · intro hclean
    exact ⟨_, cleanPct_eq hne, hclean⟩

end Percentage

/-- A snapshot with its best bid above its best ask, and a bid price twice. -/
def crossedTwice : BookSnapshot :=
  ⟨1000, 1000, "X-USD", "binance", 2, [(101, 1), (101, 2)], [(100, 1)]⟩

/-- The snapshot is counted twice, and the percentage is negative. -/
theorem clean_pct_of_crossed_twice :
    (bookQuality [crossedTwice]).cleanPct = some (-100) ∧
      ¬ IsCleanPct (1 / 200) [crossedTwice] (-100) := by
  constructor
  · decide +kernel
  · intro h
    exact absurd h.nonneg (by norm_num)

/-- A frame with a clean snapshot and one that is only crossed. -/
def crossedOnce : List BookSnapshot :=
  [⟨1000, 1000, "X-USD", "binance", 1, [(100, 1)], [(101, 1)]⟩,
    ⟨2000, 2000, "X-USD", "binance", 1, [(102, 1)], [(101, 1)]⟩]

theorem book_quality_clean_pct_iff_crossed_once :
    (bookQuality crossedOnce).cleanPct = some 50 ∧ OneFaultEach crossedOnce ∧
      IsCleanPct 0 crossedOnce (cleanShare crossedOnce) := by
  have hone : OneFaultEach crossedOnce := by
    unfold OneFaultEach
    decide +kernel
  have hne : crossedOnce ≠ [] := List.cons_ne_nil _ _
  exact ⟨by decide +kernel, hone, (book_quality_clean_pct_iff hne).2.1.2 hone⟩

end CryptoData
