import CryptoData.Core.Tower
import CryptoData.Quality.Checks

/-!
# ResampledBars — what resampling keeps of the bar checks

The quality report checks one-second bars, and `get_bars` hands out resampled ones.  A bar that
`resample_bars` makes of bars that meet the invariants meets them as well, slack included
(`invariantsOk_of_rollWindow`).  So a resampled bar that a check would flag lies over a stored bar
that the check flags, the labels are in order and on whole seconds unless the frame is only copied,
and no volume and no trade is lost or counted twice (`resample_keeps_checks`).
-/

namespace CryptoData

open Foundation

/-! ## One window -/

section Window

variable {label : Int} {group : List Bar} {c : Bar}

lemma priceTol_le_vwapTol : priceTol ≤ vwapTol := by
  unfold priceTol vwapTol
  norm_num

lemma rolls_of_rollWindow (h : rollWindow label group = some c)
    (hok : ∀ b ∈ group, b.InvariantsOk) : RollsCandles Bar.candle c.candle group := by
  have hne : group ≠ [] := by
    rintro rfl
    exact absurd h (Option.some_ne_none c).symm
  rcases rollWindow_spec label hne fun b hb => (hok b hb).volume with ⟨c', hc', _, hrolls⟩
  cases Option.some.inj (hc'.symm.trans h)
  exact hrolls

/-- The mean price of a window lies within the slack of its range. -/
lemma vwap_of_rollWindow (hrolls : RollsCandles Bar.candle c.candle group)
    (hok : ∀ b ∈ group, b.InvariantsOk) (hpos : 0 < c.volume) :
    c.low - vwapTol ≤ c.vwap ∧ c.vwap ≤ c.high + vwapTol := by
  have hvolume : c.volume = (group.map Bar.volume).sum := hrolls.totals.volume
  have hnotional : c.vwap * c.volume = (group.map fun b => b.vwap * b.volume).sum :=
    hrolls.totals.notional
  have hweights : ∀ b ∈ group, 0 ≤ b.volume := fun b hb => (hok b hb).volume
  have hlow : ∀ b ∈ group, c.low - vwapTol ≤ b.vwap := by
    intro b hb
    have hle : c.low ≤ b.low := hrolls.totals.low_le b hb
    exact (sub_le_sub_right hle _).trans (hok b hb).low_le_vwap
  have hhigh : ∀ b ∈ group, b.vwap ≤ c.high + vwapTol := by
    intro b hb
    have hle : b.high ≤ c.high := hrolls.totals.le_high b hb
    exact (hok b hb).vwap_le_high.trans (add_le_add_left hle _)
  constructor
  · refine le_of_mul_le_mul_right ?_ hpos
    rw [hnotional, hvolume]
    exact mul_sum_le_sum_mul hweights hlow
  · refine le_of_mul_le_mul_right ?_ hpos
    rw [hnotional, hvolume]
    exact sum_mul_le_mul_sum hweights hhigh

/-- Sound bars make sound bars. -/
theorem invariantsOk_of_rollWindow (h : rollWindow label group = some c)
    (hok : ∀ b ∈ group, b.InvariantsOk) : c.InvariantsOk := by
  have hrolls := rolls_of_rollWindow h hok
  rcases hrolls.open with ⟨first, hfirst, hopen⟩
  rcases hrolls.close with ⟨last, hlast, hclose⟩
  rcases hrolls.totals.high with ⟨top, htop, hhigh⟩
  rcases hrolls.totals.low with ⟨bottom, hbottom, hlow⟩
  have hfirstMem : first ∈ group := List.mem_of_mem_head? hfirst
  have hlastMem : last ∈ group := List.mem_of_mem_getLast? hlast
  have hopen' : c.open = first.open := hopen
  have hclose' : c.close = last.close := hclose
  have hhigh' : c.high = top.high := hhigh
  have hlow' : c.low = bottom.low := hlow
  have hle_high : ∀ b ∈ group, b.high ≤ c.high := hrolls.totals.le_high
  have hlow_le : ∀ b ∈ group, c.low ≤ b.low := hrolls.totals.low_le
  -- The ends of the window lie within the ranges of their bars.
  have hopenHigh : c.open - priceTol ≤ c.high := by
    have hbody := (hok first hfirstMem).body_le_high
    have hmax : first.open ≤ max first.open first.close := le_max_left _ _
    rw [hopen']
    exact ((sub_le_sub_right hmax _).trans hbody).trans (hle_high first hfirstMem)
  have hcloseHigh : c.close - priceTol ≤ c.high := by
    have hbody := (hok last hlastMem).body_le_high
    have hmax : last.close ≤ max last.open last.close := le_max_right _ _
    rw [hclose']
    exact ((sub_le_sub_right hmax _).trans hbody).trans (hle_high last hlastMem)
  have hlowOpen : c.low ≤ c.open + priceTol := by
    have hbody := (hok first hfirstMem).low_le_body
    have hmin : min first.open first.close ≤ first.open := min_le_left _ _
    rw [hopen']
    exact ((hlow_le first hfirstMem).trans hbody).trans (add_le_add_left hmin _)
  have hlowClose : c.low ≤ c.close + priceTol := by
    have hbody := (hok last hlastMem).low_le_body
    have hmin : min last.open last.close ≤ last.close := min_le_right _ _
    rw [hclose']
    exact ((hlow_le last hlastMem).trans hbody).trans (add_le_add_left hmin _)
  have hvolume : 0 ≤ c.volume := rollWindow_volume_nonneg h fun b hb => (hok b hb).volume
  have hvwap : c.low - vwapTol ≤ c.vwap ∧ c.vwap ≤ c.high + vwapTol := by
    rcases hvolume.lt_or_eq with hpos | hzero
    · exact vwap_of_rollWindow hrolls hok hpos
    · -- Without volume the close stands in.
      have hstand : c.vwap = c.close := hrolls.vwap hzero.ge
      have htol := priceTol_le_vwapTol
      rw [hstand]
      constructor
      · linarith
      · linarith
  exact
    { body_le_high := sub_le_iff_le_add.2
        (max_le (sub_le_iff_le_add.1 hopenHigh) (sub_le_iff_le_add.1 hcloseHigh))
      low_le_body := sub_le_iff_le_add.1
        (le_min (sub_le_iff_le_add.2 hlowOpen) (sub_le_iff_le_add.2 hlowClose))
      low_le_high := by
        have hrange := (hok top htop).low_le_high
        rw [hhigh']
        exact (sub_le_sub_right (hlow_le top htop) _).trans hrange
      volume := hvolume
      low_le_vwap := hvwap.1
      vwap_le_high := hvwap.2
      positive := by
        rw [hopen', hhigh', hlow', hclose']
        exact ⟨(hok first hfirstMem).positive.1, (hok top htop).positive.2.1,
          (hok bottom hbottom).positive.2.2.1, (hok last hlastMem).positive.2.2.2⟩ }

end Window

/-! ## The frame -/

section Frame

variable (bars : List Bar) {widthNs : ℕ}

/-- The label of the bin of a row: bins are counted from the day of the first row. -/
def binOf (widthNs : ℕ) (b : Bar) : Int :=
  binLabel (startOfDay ((bars.head?.map Bar.tsNs).getD 0)) widthNs b.tsNs

def binRows (widthNs : ℕ) (label : Int) : List Bar :=
  bars.filter fun b => decide (binOf bars widthNs b = label)

def barOfBin (widthNs : ℕ) (label : Int) : Option Bar :=
  rollWindow label (binRows bars widthNs label)

lemma resampleStartDay_windows (pos : 0 < widthNs) :
    resampleStartDay bars (.windows widthNs pos) =
      (bucket (binOf bars widthNs) bars).sortedKeys.filterMap (barOfBin bars widthNs) := by
  cases bars with
  | nil => rfl
  | cons first rest =>
      have hbin : (fun b : Bar => binLabel (startOfDay first.tsNs) widthNs b.tsNs) =
          binOf (first :: rest) widthNs := rfl
      simp only [resampleStartDay, hbin, getD_bucket]
      rfl

lemma mem_resampleStartDay (pos : 0 < widthNs) {c : Bar}
    (hc : c ∈ resampleStartDay bars (.windows widthNs pos)) :
    barOfBin bars widthNs c.tsNs = some c := by
  rw [resampleStartDay_windows] at hc
  rcases List.mem_filterMap.1 hc with ⟨label, _, hroll⟩
  have hlabel := rollWindow_tsNs hroll
  subst hlabel
  exact hroll

/-- The bin of a row is a window that the row lies in. -/
lemma binOf_le_and_lt (pos : 0 < widthNs) (b : Bar) :
    binOf bars widthNs b ≤ b.tsNs ∧ b.tsNs < binOf bars widthNs b + widthNs := by
  have hpos : (0 : Int) < widthNs := by exact_mod_cast pos
  have hle := Int.ediv_mul_le (b.tsNs - startOfDay ((bars.head?.map Bar.tsNs).getD 0)) hpos.ne'
  have hlt := Int.lt_ediv_add_one_mul_self
    (b.tsNs - startOfDay ((bars.head?.map Bar.tsNs).getD 0)) hpos
  unfold binOf binLabel windowLabel
  constructor
  · linarith
  · linarith

lemma binOf_emod {T : ℕ} (hT : widthNs = T * 1000000000) (b : Bar) :
    binOf bars widthNs b % nsPerSec = 0 := by
  refine Int.emod_eq_zero_of_dvd (dvd_add ?_ ?_)
  · exact Dvd.dvd.mul_left (Dvd.intro_left 86400 rfl) _
  · refine Dvd.dvd.mul_left ?_ _
    rw [hT]
    exact ⟨T, by push_cast; exact mul_comm _ _⟩

/-- A quantity that a window adds up is neither lost nor counted twice. -/
lemma sum_resampleStartDay {M : Type*} [AddCommMonoid M] (pos : 0 < widthNs) (f : Bar → M)
    (hf : ∀ label c, barOfBin bars widthNs label = some c →
      f c = ((binRows bars widthNs label).map f).sum) :
    ((resampleStartDay bars (.windows widthNs pos)).map f).sum = (bars.map f).sum := by
  have hkeys : ∀ labels : List Int,
      ((labels.filterMap (barOfBin bars widthNs)).map f).sum =
        ((labels.flatMap (binRows bars widthNs)).map f).sum := by
    intro labels
    induction labels with
    | nil => rfl
    | cons label labels ih =>
        rw [List.flatMap_cons, List.map_append, List.sum_append, ← ih]
        cases hroll : barOfBin bars widthNs label with
        | none =>
            rw [List.filterMap_cons_none hroll, rollWindow_eq_none hroll]
            exact (zero_add _).symm
        | some c =>
            rw [List.filterMap_cons_some hroll, List.map_cons, List.sum_cons, hf label c hroll]
  rw [resampleStartDay_windows, hkeys]
  exact ((flatMap_sortedKeys_perm (binOf bars widthNs) bars).map f).sum_eq

/-- Each bin makes at most one bar, under its label. -/
lemma labels_sublist :
    ∀ labels : List Int,
      ((labels.filterMap (barOfBin bars widthNs)).map Bar.tsNs).Sublist labels
  | [] => List.Sublist.slnil
  | label :: labels => by
      have hrest := labels_sublist labels
      cases hroll : barOfBin bars widthNs label with
      | none =>
          rw [List.filterMap_cons_none hroll]
          exact hrest.cons label
      | some c =>
          rw [List.filterMap_cons_some hroll, List.map_cons, rollWindow_tsNs hroll]
          exact hrest.cons_cons label

lemma flagged_iff (b : Bar) : checkBarOhlcInvariants [b] ≠ [] ↔ ¬ b.InvariantsOk := by
  rw [Ne, checkBarOhlcInvariants_eq_nil_iff, List.forall_mem_singleton]

/-- A resampled bar that a check flags lies over a stored bar that the check flags. -/
lemma exists_flagged (pos : 0 < widthNs) {c : Bar}
    (hc : c ∈ resampleStartDay bars (.windows widthNs pos)) (hbad : ¬ c.InvariantsOk) :
    ∃ b ∈ bars, c.tsNs ≤ b.tsNs ∧ b.tsNs < c.tsNs + widthNs ∧ ¬ b.InvariantsOk := by
  by_contra hnone
  refine hbad (invariantsOk_of_rollWindow (mem_resampleStartDay bars pos hc) ?_)
  intro b hb
  have hin := List.mem_filter.1 hb
  have hbin : binOf bars widthNs b = c.tsNs := of_decide_eq_true hin.2
  have hrange := binOf_le_and_lt bars pos b
  rw [hbin] at hrange
  by_contra hflag
  exact hnone ⟨b, hin.1, hrange.1, hrange.2, hflag⟩

/-- Labels are strictly increasing and on whole seconds. -/
lemma timestamps_resampleStartDay (pos : 0 < widthNs) {T : ℕ} (hT : widthNs = T * 1000000000) :
    checkBarTimestamps (resampleStartDay bars (.windows widthNs pos)) = [] := by
  by_cases hlen : 2 ≤ (resampleStartDay bars (.windows widthNs pos)).length
  · refine (checkBarTimestamps_eq_nil_iff hlen).2 ⟨?_, ?_⟩
    · have hsorted := (Dict.sortedKeys_sortedLT (bucket (binOf bars widthNs) bars)).pairwise
      rw [resampleStartDay_windows]
      exact hsorted.sublist (labels_sublist bars _)
    · intro c hc
      have hroll := mem_resampleStartDay bars pos hc
      have hne : binRows bars widthNs c.tsNs ≠ [] := by
        intro hnil
        rw [barOfBin, hnil] at hroll
        cases hroll
      rcases List.exists_mem_of_ne_nil _ hne with ⟨b, hb⟩
      have hbin : binOf bars widthNs b = c.tsNs := of_decide_eq_true (List.mem_filter.1 hb).2
      rw [← hbin]
      exact binOf_emod bars hT b
  · exact if_pos (by rw [List.length_map]; exact not_le.1 hlen)

/-- Resampling to windows: flagged bars lie over flagged ones, and nothing is lost. -/
lemma windows_keep_checks {T : ℕ} (pos : 0 < widthNs) (hT : widthNs = T * 1000000000) :
    (∀ c ∈ resampleStartDay bars (.windows widthNs pos), checkBarOhlcInvariants [c] ≠ [] →
        ∃ b ∈ bars, c.tsNs ≤ b.tsNs ∧ b.tsNs < c.tsNs + widthNs ∧
          checkBarOhlcInvariants [b] ≠ []) ∧
      (checkBarOhlcInvariants bars = [] →
        checkBarOhlcInvariants (resampleStartDay bars (.windows widthNs pos)) = [] ∧
        ((resampleStartDay bars (.windows widthNs pos)).map fun b => b.vwap * b.volume).sum =
          (bars.map fun b => b.vwap * b.volume).sum) ∧
      checkBarTimestamps (resampleStartDay bars (.windows widthNs pos)) = [] ∧
      ((resampleStartDay bars (.windows widthNs pos)).map Bar.trades).sum =
        (bars.map Bar.trades).sum ∧
      ((resampleStartDay bars (.windows widthNs pos)).map Bar.volume).sum =
        (bars.map Bar.volume).sum := by
  have hcolumns : ∀ {label : Int} {group : List Bar} {c : Bar}, rollWindow label group = some c →
      c.trades = (group.map Bar.trades).sum ∧ c.volume = (group.map Bar.volume).sum := by
    intro label group c hroll
    cases group with
    | nil => cases hroll
    | cons first rest =>
        cases hroll
        exact ⟨rfl, rfl⟩
  refine ⟨?_, ?_, timestamps_resampleStartDay bars pos hT,
    sum_resampleStartDay bars pos Bar.trades fun label c hroll => (hcolumns hroll).1,
    sum_resampleStartDay bars pos Bar.volume fun label c hroll => (hcolumns hroll).2⟩
  · intro c hc hflag
    rcases exists_flagged bars pos hc ((flagged_iff c).1 hflag) with ⟨b, hb, hle, hlt, hbad⟩
    exact ⟨b, hb, hle, hlt, (flagged_iff b).2 hbad⟩
  · intro hok
    have hall := checkBarOhlcInvariants_eq_nil_iff.1 hok
    constructor
    · refine checkBarOhlcInvariants_eq_nil_iff.2 ?_
      intro c hc
      by_contra hbad
      rcases exists_flagged bars pos hc hbad with ⟨b, hb, _, _, hflag⟩
      exact hflag (hall b hb)
    · refine sum_resampleStartDay bars pos (fun b => b.vwap * b.volume) ?_
      intro label c hroll
      exact rollWindow_notional hroll fun b hb => (hall b (List.mem_filter.1 hb).1).volume

/-- Resampling to any width of whole seconds: a flagged bar lies over a flagged one, so bars that
pass make bars that pass; but for the copy branch, which hands on what it is given, the timestamp
check is silent; trades, volume and, on bars that pass, turnover are conserved. -/
theorem resample_keeps_checks (bars : List Bar) (timeframe : Timeframe) (T : ℕ)
    (hT : timeframe.widthNs = T * 1000000000) :
    (∀ c ∈ resampleStartDay bars timeframe, checkBarOhlcInvariants [c] ≠ [] →
        ∃ b ∈ bars, c.tsNs ≤ b.tsNs ∧ b.tsNs < c.tsNs + timeframe.widthNs ∧
          checkBarOhlcInvariants [b] ≠ []) ∧
      (checkBarOhlcInvariants bars = [] →
        checkBarOhlcInvariants (resampleStartDay bars timeframe) = [] ∧
        ((resampleStartDay bars timeframe).map fun b => b.vwap * b.volume).sum =
          (bars.map fun b => b.vwap * b.volume).sum) ∧
      (timeframe = .oneSecond → resampleStartDay bars timeframe = bars) ∧
      (timeframe ≠ .oneSecond → checkBarTimestamps (resampleStartDay bars timeframe) = []) ∧
      ((resampleStartDay bars timeframe).map Bar.trades).sum = (bars.map Bar.trades).sum ∧
      ((resampleStartDay bars timeframe).map Bar.volume).sum = (bars.map Bar.volume).sum := by
  cases timeframe with
  | oneSecond =>
      have hcopy : resampleStartDay bars .oneSecond = bars := by simp only [resampleStartDay]
      rw [hcopy]
      refine ⟨?_, fun hok => ⟨hok, rfl⟩, fun _ => rfl, fun hne => absurd rfl hne, rfl, rfl⟩
      intro c hc hflag
      exact ⟨c, hc, le_rfl, lt_add_of_pos_right _ (by decide), hflag⟩
  | windows widthNs pos =>
      rcases windows_keep_checks bars pos hT with ⟨hflagged, hok, htimes, htrades, hvolume⟩
      exact ⟨hflagged, hok, fun hcopy => Timeframe.noConfusion hcopy, fun _ => htimes, htrades,
        hvolume⟩

end Frame

/-- Two seconds of one minute, of which the first comes again. -/
theorem resample_keeps_checks_minute :
    let second (ts : Int) (px : ℚ) : Bar :=
      { tsNs := ts, symbol := "BTC-USD", venue := "okx", «open» := px, high := px + 1, low := px - 1
        close := px, volume := 2, vwap := px, trades := 3, sourcesMask := 0
        ingestedAtNs := none }
    let bars := [second 5000000000 100, second 5000000000 102, second 7000000000 104]
    let minute := Timeframe.windows 60000000000 (by decide)
    ((resampleStartDay bars minute).map Bar.trades).sum = 9 ∧
      checkBarTimestamps (resampleStartDay bars minute) = [] ∧
      resampleStartDay bars .oneSecond = bars := by
  intro second bars minute
  have hminute := resample_keeps_checks bars minute 60 (by decide)
  have hcopy := resample_keeps_checks bars .oneSecond 1 (by decide)
  exact ⟨hminute.2.2.2.2.1, hminute.2.2.2.1 fun h => Timeframe.noConfusion h, hcopy.2.2.1 rfl⟩

end CryptoData
