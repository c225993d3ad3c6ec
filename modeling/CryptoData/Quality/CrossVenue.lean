import CryptoData.Foundation.Labelled
import CryptoData.Quality.TradeChecks
import CryptoData.Quality.VenueRange

/-!
# CrossVenue — the checks across venues, on labels that may repeat

Both checks put the closes of the venues side by side.  The library does this by label, and raises
if it has to do so with labels that repeat; it also raises if two series with different labels are
compared.  Here `none` is such an exception.

`checkAggWithinVenueRange?` raises exactly if the labels of the venues cannot be joined, or the tape
and the venues have a common second with different numbers of bars
(`checkAggWithinVenueRange?_isSome_iff`); `checkCrossVenueDispersion?` raises exactly if the labels
cannot be joined (`checkCrossVenueDispersion?_isSome_iff`).  Where no label repeats, the first of
them finds what it finds on dictionaries (`checkAggWithinVenueRange?_of_nodup`).
-/

namespace CryptoData

open Foundation

/-! ## The checks -/

/-- `df.set_index("ts_ns")["close"]`, with all of its labels. -/
def closeColumn (bars : List Bar) : Column Int ℚ :=
  bars.map fun b => (b.tsNs, b.close)

/-- `min(axis=1)`, which skips what is missing; no row is missing everywhere. -/
def rowMin (cells : List (Option ℚ)) : ℚ :=
  (cells.filterMap id).min?.getD 0

def rowMax (cells : List (Option ℚ)) : ℚ :=
  (cells.filterMap id).max?.getD 0

/-- The variables `lo` and `hi` once they are not `None`. -/
structure RangeColumns where
  lo : Column Int ℚ
  hi : Column Int ℚ

/-- The loop body. -/
def rangeColumnsStep (range : Option RangeColumns) (df : List Bar) :
    Option (Option RangeColumns) :=
  if df.isEmpty then
    some range
  else
    let closes := closeColumn df
    match range with
    | none => some (some ⟨closes, closes⟩)
    | some range => do
        let lo ← joinColumns [range.lo, closes]
        let hi ← joinColumns [range.hi, closes]
        some (some ⟨lo.map fun r => (r.1, rowMin r.2), hi.map fun r => (r.1, rowMax r.2)⟩)

/-- `agg.index.intersection(lo.index)`. -/
def commonLabels (agg lo : Column Int ℚ) : List Int :=
  (labels agg).dedup.filter fun ts => decide (ts ∈ labels lo)

/-- The comparison in the common seconds; series with different labels cannot be compared. -/
def rangeBreaches (agg : Column Int ℚ) (range : RangeColumns) : Option (List Issue) :=
  let common := commonLabels agg range.lo
  if common.isEmpty then
    some []
  else
    -- `.loc` takes every row of a label, so repeated labels make the series longer.
    let a := locate agg common
    let lo := locate range.lo common
    let hi := locate range.hi common
    if labels a = labels lo ∧ labels a = labels hi then
      let breach := (a.zip (lo.zip hi)).countP fun r =>
        decide (r.1.2 < r.2.1.2 - rangeSlack r.2.1.2) ||
        decide (r.1.2 > r.2.2.2 + rangeSlack r.2.2.2)
      some (issueIf "agg.outside_venue_range" .major breach
        "consolidated close fell outside [min, max] of contributing venue closes")
    else none

/-- `check_agg_within_venue_range(agg_bars, per_venue)`. -/
def checkAggWithinVenueRange? (aggBars : List Bar) (perVenue : Dict String (List Bar)) :
    Option (List Issue) :=
  if aggBars.isEmpty ∨ perVenue.entries.length < 2 then
    some []
  else do
    let range ← perVenue.values.foldlM rangeColumnsStep none
    match range with
    | none => some []
    | some range => rangeBreaches (closeColumn aggBars) range

/-- `disp_bps` of a row; a midpoint of zero makes it `NaN`. -/
def dispersionBps (cells : List (Option ℚ)) : Option ℚ :=
  let mid := (rowMin cells + rowMax cells) / 2
  if mid = 0 then none else some ((rowMax cells - rowMin cells) / mid * 10000)

/-- The series of the venues that have bars. -/
def venueColumns (perVenue : Dict String (List Bar)) : List (Column Int ℚ) :=
  (perVenue.entries.filter fun e => !e.2.isEmpty && decide (e.1 ≠ "agg")).map fun e =>
    closeColumn e.2

/-- `check_cross_venue_dispersion(per_venue)`. -/
def checkCrossVenueDispersion? (perVenue : Dict String (List Bar)) (warnBps : ℚ := 50) :
    Option (List Issue) :=
  let series := venueColumns perVenue
  if series.length < 2 then
    some []
  else do
    let joined ← joinColumns series
    -- `dropna(how="all")`.
    let wide := joined.filter fun r => r.2.any Option.isSome
    if wide.isEmpty then
      some []
    else
      let dispBps := (wide.map fun r => dispersionBps r.2).filterMap id
      let p99 := if dispBps.isEmpty then 0 else percentile 99 dispBps
      let nWide := dispBps.countP fun d => decide (d > warnBps)
      some (issueIf "xvenue.dispersion" (if p99 < 200 then .minor else .major) nWide
        (toString nWide ++ " seconds with cross-venue close dispersion > " ++
          fixedPoint 0 warnBps ++ " bps (p99 " ++ fixedPoint 0 p99 ++ " bps)"))

/-! ## When they raise -/

/-- The labels of the frames that are not empty. -/
def frameLabels (dfs : List (List Bar)) : List (List Int) :=
  (dfs.filter fun df => !df.isEmpty).map fun df => df.map Bar.tsNs

lemma labels_closeColumn (bars : List Bar) : labels (closeColumn bars) = bars.map Bar.tsNs :=
  List.map_map

section Range

variable {range : RangeColumns} {dfs : List (List Bar)}

/-- One more frame: the labels of the two series stay the same, and both can be joined with it or
neither. -/
lemma rangeColumnsStep_cases (hlabels : labels range.lo = labels range.hi) (b : Bar)
    (bars : List Bar) :
    (∃ rows next, joinColumns [range.lo, closeColumn (b :: bars)] = some rows ∧
        rangeColumnsStep (some range) (b :: bars) = some (some next) ∧
        labels next.lo = rows.map Prod.fst ∧ labels next.hi = rows.map Prod.fst) ∨
      (joinColumns [range.lo, closeColumn (b :: bars)] = none ∧
        rangeColumnsStep (some range) (b :: bars) = none) := by
  cases hlo : joinColumns [range.lo, closeColumn (b :: bars)] with
  | none =>
      refine Or.inr ⟨rfl, ?_⟩
      simp only [rangeColumnsStep, List.isEmpty_cons, Bool.false_eq_true, if_false, hlo]
      rfl
  | some rows =>
      -- The labels alone decide whether a join succeeds, so the maxima follow the minima.
      have hboth : [range.lo, closeColumn (b :: bars)].map labels =
          [range.hi, closeColumn (b :: bars)].map labels := by
        rw [List.map_cons, List.map_cons, hlabels]
        rfl
      rcases map_fst_joinColumns hboth hlo with ⟨rows', hhi, hfst⟩
      refine Or.inl ⟨rows, ⟨rows.map fun r => (r.1, rowMin r.2),
        rows'.map fun r => (r.1, rowMax r.2)⟩, rfl, ?_, ?_, ?_⟩
      · simp only [rangeColumnsStep, List.isEmpty_cons, Bool.false_eq_true, if_false, hlo, hhi]
        rfl
      · exact List.map_map
      · rw [← hfst]
        exact List.map_map

/-- The loop raises exactly if the labels cannot be joined; otherwise both series carry them. -/
lemma foldlM_rangeColumns :
    ∀ (dfs : List (List Bar)) (range : RangeColumns), labels range.lo = labels range.hi →
      (Joinable (labels range.lo :: frameLabels dfs) ∧
          ∃ out, dfs.foldlM rangeColumnsStep (some range) = some (some out) ∧
            labels out.lo = labels out.hi ∧
            Carries (labels out.lo) (labels range.lo :: frameLabels dfs)) ∨
        (¬ Joinable (labels range.lo :: frameLabels dfs) ∧
          dfs.foldlM rangeColumnsStep (some range) = none)
  | [], range, hlabels => by
      refine Or.inl ⟨Or.inl ?_, range, rfl, hlabels, Carries.single _⟩
      intro a ha b hb
      rw [List.mem_singleton.1 ha, List.mem_singleton.1 hb]
  | [] :: dfs, range, hlabels => foldlM_rangeColumns dfs range hlabels
  | (b :: bars) :: dfs, range, hlabels => by
      have hframes : frameLabels ((b :: bars) :: dfs) =
          labels (closeColumn (b :: bars)) :: frameLabels dfs := by
        rw [labels_closeColumn]
        rfl
      rw [hframes, List.foldlM_cons]
      rcases rangeColumnsStep_cases hlabels b bars with
        ⟨rows, next, hjoin, hstep, hlo, hhi⟩ | ⟨hjoin, hstep⟩
      · -- The joined series stands for the two it was joined from.
        rw [hstep, ← joinable_of_join hjoin, ← hlo]
        rcases foldlM_rangeColumns dfs next (hlo.trans hhi.symm) with
          ⟨hall, out, hout, hsame, hcarries⟩ | ⟨hall, hout⟩
        · rw [hlo] at hcarries
          exact Or.inl ⟨hall, out, hout, hsame, carries_of_join hjoin hcarries⟩
        · exact Or.inr ⟨hall, hout⟩
      · rw [hstep]
        exact Or.inr ⟨not_joinable_of_join hjoin _, rfl⟩

lemma mem_commonLabels {agg lo : Column Int ℚ} {ts : Int} :
    ts ∈ commonLabels agg lo ↔ ts ∈ labels agg ∧ ts ∈ labels lo := by
  rw [commonLabels, List.mem_filter, List.mem_dedup, decide_eq_true_eq]

/-- The comparison raises exactly if a common label has different numbers of rows. -/
lemma rangeBreaches_isSome_iff {agg : Column Int ℚ} {range : RangeColumns}
    (hlabels : labels range.lo = labels range.hi) :
    (rangeBreaches agg range).isSome ↔
      ∀ ts ∈ labels agg, ts ∈ labels range.lo →
        (labels agg).count ts = (labels range.lo).count ts := by
  have hnodup : (commonLabels agg range.lo).Nodup := (List.nodup_dedup _).filter _
  have hsame : ∀ {c : Column Int ℚ}, labels c = labels range.lo →
      (labels (locate agg (commonLabels agg range.lo)) =
          labels (locate c (commonLabels agg range.lo)) ↔
        ∀ ts ∈ labels agg, ts ∈ labels range.lo →
          (labels agg).count ts = (labels range.lo).count ts) := by
    intro c hc
    rw [labels_locate_eq_iff hnodup, hc]
    constructor
    · intro h ts hagg hts
      exact h ts (mem_commonLabels.2 ⟨hagg, hts⟩)
    · intro h ts hts
      have hboth := mem_commonLabels.1 hts
      exact h ts hboth.1 hboth.2
  unfold rangeBreaches
  dsimp only
  -- Without a common second there is nothing to compare, and nothing raises.
  by_cases hempty : (commonLabels agg range.lo).isEmpty = true
  · rw [if_pos hempty]
    refine iff_of_true rfl ?_
    intro ts hagg hts
    have hmem := mem_commonLabels.2 ⟨hagg, hts⟩
    rw [List.isEmpty_iff.1 hempty] at hmem
    cases hmem
  · rw [if_neg hempty]
    by_cases h : ∀ ts ∈ labels agg, ts ∈ labels range.lo →
        (labels agg).count ts = (labels range.lo).count ts
    · rw [if_pos ⟨(hsame rfl).2 h, (hsame hlabels.symm).2 h⟩]
      exact iff_of_true rfl h
    · rw [if_neg fun hboth => h ((hsame rfl).1 hboth.1)]
      exact iff_of_false Bool.false_ne_true h

/-- The loop from its start. -/
lemma foldlM_range :
    ∀ dfs : List (List Bar),
      (frameLabels dfs = [] ∧ dfs.foldlM rangeColumnsStep none = some none) ∨
        (Joinable (frameLabels dfs) ∧
          ∃ out, dfs.foldlM rangeColumnsStep none = some (some out) ∧
            labels out.lo = labels out.hi ∧ Carries (labels out.lo) (frameLabels dfs)) ∨
        (¬ Joinable (frameLabels dfs) ∧ dfs.foldlM rangeColumnsStep none = none)
  | [] => Or.inl ⟨rfl, rfl⟩
  | [] :: dfs => foldlM_range dfs
  | (b :: bars) :: dfs => by
      have hframes : frameLabels ((b :: bars) :: dfs) =
          labels (closeColumn (b :: bars)) :: frameLabels dfs := by
        rw [labels_closeColumn]
        rfl
      rw [hframes]
      refine Or.inr ?_
      exact foldlM_rangeColumns dfs ⟨closeColumn (b :: bars), closeColumn (b :: bars)⟩ rfl

end Range

/-- The tape can be compared with the venues exactly if the labels of the venues can be joined, and
the tape has as many bars in a second as every venue that has one. -/
theorem checkAggWithinVenueRange?_isSome_iff {aggBars : List Bar}
    {perVenue : Dict String (List Bar)} (hlen : 2 ≤ perVenue.entries.length) :
    (checkAggWithinVenueRange? aggBars perVenue).isSome ↔
      aggBars = [] ∨
        (Joinable (frameLabels perVenue.values) ∧
          ∀ ts ∈ aggBars.map Bar.tsNs, ∀ l ∈ frameLabels perVenue.values, ts ∈ l →
            (aggBars.map Bar.tsNs).count ts = l.count ts) := by
  unfold checkAggWithinVenueRange?
  by_cases hempty : aggBars.isEmpty = true
  · rw [if_pos (Or.inl hempty)]
    exact iff_of_true rfl (Or.inl (List.isEmpty_iff.1 hempty))
  · have hguard : ¬ (aggBars.isEmpty = true ∨ perVenue.entries.length < 2) := by
      intro h
      rcases h with h | h
      · exact hempty h
      · exact absurd h (not_lt.2 hlen)
    have hne : aggBars ≠ [] := fun h => hempty (List.isEmpty_iff.2 h)
    rw [if_neg hguard, or_iff_right hne]
    rcases foldlM_range perVenue.values with
      ⟨hnone, hrun⟩ | ⟨hjoin, out, hrun, hsame, hcarries⟩ | ⟨hjoin, hrun⟩
    · rw [hrun, hnone]
      refine iff_of_true rfl ⟨Or.inl fun a ha => absurd ha List.not_mem_nil, ?_⟩
      intro ts _ l hl
      exact absurd hl List.not_mem_nil
    · rw [hrun]
      refine (rangeBreaches_isSome_iff hsame).trans ?_
      rw [labels_closeColumn]
      constructor
      · intro h
        refine ⟨hjoin, ?_⟩
        intro ts hts l hl htsl
        rw [h ts hts ((hcarries.mem_iff ts).2 ⟨l, hl, htsl⟩), hcarries.count_eq l hl ts htsl]
      · intro h ts hts htslo
        rcases (hcarries.mem_iff ts).1 htslo with ⟨l, hl, htsl⟩
        rw [h.2 ts hts l hl htsl, hcarries.count_eq l hl ts htsl]
    · rw [hrun]
      exact iff_of_false Bool.false_ne_true fun h => hjoin h.1

/-! ## Distinct labels -/

lemma foldl_set_entries :
    ∀ (bars : List Bar) (closes : Dict Int ℚ), (bars.map Bar.tsNs).Nodup →
      (∀ b ∈ bars, b.tsNs ∉ closes.keys) →
        (bars.foldl (fun closes b => closes.set b.tsNs b.close) closes).entries =
          closes.entries ++ closeColumn bars
  | [], closes, _, _ => (List.append_nil _).symm
  | b :: bars, closes, hnodup, hnew => by
      have hcons := List.nodup_cons.1 hnodup
      have hb := List.forall_mem_cons.1 hnew
      have hset : (closes.set b.tsNs b.close).entries = closes.entries ++ [(b.tsNs, b.close)] := by
        simp [Dict.set, hb.1]
      have hrest : ∀ b' ∈ bars, b'.tsNs ∉ (closes.set b.tsNs b.close).keys := by
        intro b' hb' hmem
        rcases Dict.mem_keys_set.1 hmem with heq | hold
        · exact hcons.1 (heq ▸ List.mem_map.2 ⟨b', hb', rfl⟩)
        · exact hb.2 b' hb' hold
      rw [List.foldl_cons, foldl_set_entries bars _ hcons.2 hrest, hset, List.append_assoc]
      rfl

/-- Distinct labels make the column a dictionary. -/
lemma entries_closeSeries {bars : List Bar} (h : (bars.map Bar.tsNs).Nodup) :
    (closeSeries bars).entries = closeColumn bars :=
  foldl_set_entries bars Dict.empty h fun _ _ => List.not_mem_nil

lemma cellAt_closeColumn {bars : List Bar} (h : (bars.map Bar.tsNs).Nodup) (ts : Int) :
    cellAt (closeColumn bars) ts = (closeSeries bars).get? ts := by
  rw [← entries_closeSeries h]
  rfl

lemma nodup_closeColumn {bars : List Bar} (h : (bars.map Bar.tsNs).Nodup) :
    (labels (closeColumn bars)).Nodup :=
  labels_closeColumn bars ▸ h

/-- The series hold what the dictionaries hold. -/
structure SameRange (range : RangeColumns) (fold : RangeFold) : Prop where
  lo_nodup : (labels range.lo).Nodup
  hi_nodup : (labels range.hi).Nodup
  lo : ∃ lo, fold.lo = some lo ∧ ∀ ts, cellAt range.lo ts = lo.get? ts
  hi : ∃ hi, fold.hi = some hi ∧ ∀ ts, cellAt range.hi ts = hi.get? ts

/-- Reducing the cells of a row that is not missing everywhere is merging them. -/
def Merges (f : List (Option ℚ) → ℚ) (op : ℚ → ℚ → ℚ) : Prop :=
  ∀ a b : Option ℚ, a ≠ none ∨ b ≠ none → some (f [a, b]) = Option.merge op a b

lemma merges_rowMin : Merges rowMin min := by
  intro a b h
  cases a with
  | none =>
      cases b with
      | none => exact absurd rfl (h.elim id id)
      | some y => rfl
  | some x =>
      cases b with
      | none => rfl
      | some y => rfl

lemma merges_rowMax : Merges rowMax max := by
  intro a b h
  cases a with
  | none =>
      cases b with
      | none => exact absurd rfl (h.elim id id)
      | some y => rfl
  | some x =>
      cases b with
      | none => rfl
      | some y => rfl

/-- Joining a series with the closes of a venue merges what both hold. -/
lemma cellAt_joined {f : List (Option ℚ) → ℚ} {op : ℚ → ℚ → ℚ} (hf : Merges f op)
    {acc closes : Column Int ℚ} (hacc : (labels acc).Nodup) (hcloses : (labels closes).Nodup)
    {rows : List (Int × List (Option ℚ))} (h : joinColumns [acc, closes] = some rows) (ts : Int) :
    (labels (rows.map fun r => (r.1, f r.2))).Nodup ∧
      cellAt (rows.map fun r => (r.1, f r.2)) ts =
        Option.merge op (cellAt acc ts) (cellAt closes ts) := by
  have hnodup : ∀ c ∈ [acc, closes], (labels c).Nodup :=
    List.forall_mem_cons.2 ⟨hacc, List.forall_mem_singleton.2 hcloses⟩
  have hreduced := cellAt_reduced hnodup h f ts
  refine ⟨hreduced.1, hreduced.2.trans ?_⟩
  -- A row of the join has a cell in one of the two, so its minimum is that of real closes.
  by_cases hin : ∃ c ∈ [acc, closes], ts ∈ labels c
  · rw [if_pos hin]
    refine hf _ _ ?_
    rcases hin with ⟨c, hc, hts⟩
    rcases List.mem_cons.1 hc with rfl | hc
    · exact Or.inl fun hnone => (cellAt_eq_none_iff hacc).1 hnone hts
    · rw [List.mem_singleton.1 hc] at hts
      exact Or.inr fun hnone => (cellAt_eq_none_iff hcloses).1 hnone hts
  · rw [if_neg hin, (cellAt_eq_none_iff hacc).2 fun hts => hin ⟨acc, List.mem_cons_self, hts⟩,
      (cellAt_eq_none_iff hcloses).2 fun hts =>
        hin ⟨closes, List.mem_cons_of_mem _ List.mem_cons_self, hts⟩]
    rfl

lemma SameRange.step {range : RangeColumns} {fold : RangeFold} (h : SameRange range fold) {b : Bar}
    {bars : List Bar} (hnodup : ((b :: bars).map Bar.tsNs).Nodup) :
    ∃ next, rangeColumnsStep (some range) (b :: bars) = some (some next) ∧
      SameRange next (rangeStep fold (b :: bars)) := by
  have hcloses := nodup_closeColumn hnodup
  have hjoin : ∀ {acc : Column Int ℚ}, (labels acc).Nodup →
      ∃ rows, joinColumns [acc, closeColumn (b :: bars)] = some rows := by
    intro acc hacc
    refine Option.isSome_iff_exists.1 (joinColumns_isSome_iff.2 (Or.inr ?_))
    exact List.forall_mem_cons.2 ⟨hacc, List.forall_mem_singleton.2 hcloses⟩
  rcases hjoin h.lo_nodup with ⟨lows, hlows⟩
  rcases hjoin h.hi_nodup with ⟨highs, hhighs⟩
  rcases h.lo with ⟨lo, hlo, hloat⟩
  rcases h.hi with ⟨hi, hhi, hhiat⟩
  refine ⟨⟨lows.map fun r => (r.1, rowMin r.2), highs.map fun r => (r.1, rowMax r.2)⟩, ?_, ?_⟩
  · simp only [rangeColumnsStep, List.isEmpty_cons, Bool.false_eq_true, if_false, hlows, hhighs]
    rfl
  · refine ⟨(cellAt_joined merges_rowMin h.lo_nodup hcloses hlows 0).1,
      (cellAt_joined merges_rowMax h.hi_nodup hcloses hhighs 0).1, ?_, ?_⟩
    · refine ⟨lo.mergeWith min (closeSeries (b :: bars)), ?_, ?_⟩
      · simp [rangeStep, hlo]
      · intro ts
        rw [(cellAt_joined merges_rowMin h.lo_nodup hcloses hlows ts).2, hloat,
          cellAt_closeColumn hnodup, Dict.get?_mergeWith]
    · refine ⟨hi.mergeWith max (closeSeries (b :: bars)), ?_, ?_⟩
      · simp [rangeStep, hhi]
      · intro ts
        rw [(cellAt_joined merges_rowMax h.hi_nodup hcloses hhighs ts).2, hhiat,
          cellAt_closeColumn hnodup, Dict.get?_mergeWith]

lemma SameRange.foldlM :
    ∀ (dfs : List (List Bar)) {range : RangeColumns} {fold : RangeFold}, SameRange range fold →
      (∀ df ∈ dfs, (df.map Bar.tsNs).Nodup) →
        ∃ out, dfs.foldlM rangeColumnsStep (some range) = some (some out) ∧
          SameRange out (dfs.foldl rangeStep fold)
  | [], range, _, h, _ => ⟨range, rfl, h⟩
  | [] :: dfs, _, _, h, hnodup => SameRange.foldlM dfs h (List.forall_mem_cons.1 hnodup).2
  | (b :: bars) :: dfs, range, fold, h, hnodup => by
      have hcons := List.forall_mem_cons.1 hnodup
      rcases h.step hcons.1 with ⟨next, hstep, hnext⟩
      rcases SameRange.foldlM dfs hnext hcons.2 with ⟨out, hout, hsame⟩
      refine ⟨out, ?_, hsame⟩
      rw [List.foldlM_cons, hstep]
      exact hout

/-- The loop from its start: no frame has a bar, or both forms hold the same. -/
lemma foldlM_of_nodup :
    ∀ dfs : List (List Bar), (∀ df ∈ dfs, (df.map Bar.tsNs).Nodup) →
      (dfs.foldlM rangeColumnsStep none = some none ∧
          dfs.foldl rangeStep ⟨none, none⟩ = ⟨none, none⟩) ∨
        ∃ out, dfs.foldlM rangeColumnsStep none = some (some out) ∧
          SameRange out (dfs.foldl rangeStep ⟨none, none⟩)
  | [], _ => Or.inl ⟨rfl, rfl⟩
  | [] :: dfs, hnodup => foldlM_of_nodup dfs (List.forall_mem_cons.1 hnodup).2
  | (b :: bars) :: dfs, hnodup => by
      have hcons := List.forall_mem_cons.1 hnodup
      have hclose := cellAt_closeColumn hcons.1
      have hlabels := nodup_closeColumn hcons.1
      refine Or.inr (SameRange.foldlM dfs ?_ hcons.2)
      exact ⟨hlabels, hlabels, ⟨_, rfl, hclose⟩, ⟨_, rfl, hclose⟩⟩

/-- The comparison of series without repeated labels, read off the dictionaries. -/
lemma rangeBreaches_of_nodup {aggBars : List Bar} {range : RangeColumns} {lo hi : Dict Int ℚ}
    (hagg : (aggBars.map Bar.tsNs).Nodup) (hsame : SameRange range ⟨some lo, some hi⟩)
    (hlabels : labels range.lo = labels range.hi) :
    rangeBreaches (closeColumn aggBars) range =
      some (issueIf "agg.outside_venue_range" .major
        (((closeSeries aggBars).keys.filter fun ts => decide (ts ∈ lo.keys)).countP fun ts =>
          decide ((closeSeries aggBars).getD ts 0 < lo.getD ts 0 - rangeSlack (lo.getD ts 0)) ||
          decide ((closeSeries aggBars).getD ts 0 > hi.getD ts 0 + rangeSlack (hi.getD ts 0)))
        "consolidated close fell outside [min, max] of contributing venue closes") := by
  rcases hsame.lo with ⟨_, hlo, hloat⟩
  rcases hsame.hi with ⟨_, hhi, hhiat⟩
  cases Option.some.inj hlo
  cases Option.some.inj hhi
  have haggnodup := nodup_closeColumn hagg
  have hkeys : labels (closeColumn aggBars) = (closeSeries aggBars).keys := by
    rw [← entries_closeSeries hagg]
    rfl
  have hcommon : commonLabels (closeColumn aggBars) range.lo =
      (closeSeries aggBars).keys.filter fun ts => decide (ts ∈ lo.keys) := by
    rw [commonLabels, haggnodup.dedup, hkeys]
    refine List.filter_congr ?_
    intro ts _
    refine decide_eq_decide.2 ?_
    rw [mem_labels_iff hsame.lo_nodup, Dict.mem_keys_iff, hloat]
  have hin : ∀ ts ∈ commonLabels (closeColumn aggBars) range.lo,
      ts ∈ labels (closeColumn aggBars) ∧ ts ∈ labels range.lo := fun ts h => mem_commonLabels.1 h
  have ha := locate_of_nodup haggnodup 0 fun ts h => (hin ts h).1
  have hl := locate_of_nodup hsame.lo_nodup 0 fun ts h => (hin ts h).2
  have hh := locate_of_nodup hsame.hi_nodup 0 fun ts h => hlabels ▸ (hin ts h).2
  -- Each common second is one row in all three series.
  have hcomparable : ∀ f g : Int → ℚ,
      labels ((commonLabels (closeColumn aggBars) range.lo).map fun ts => (ts, f ts)) =
        labels ((commonLabels (closeColumn aggBars) range.lo).map fun ts => (ts, g ts)) := by
    intro f g
    rw [labels, labels, List.map_map, List.map_map]
    rfl
  unfold rangeBreaches
  dsimp only
  by_cases hempty : (commonLabels (closeColumn aggBars) range.lo).isEmpty = true
  · rw [if_pos hempty, ← hcommon, List.isEmpty_iff.1 hempty]
    rfl
  · rw [if_neg hempty, ha, hl, hh, if_pos ⟨hcomparable _ _, hcomparable _ _⟩, List.zip_map',
      List.zip_map', List.countP_map, hcommon]
    simp only [Function.comp_def, cellAt_closeColumn hagg, hloat, hhiat, Dict.getD]
    rfl

/-- Where no label repeats, the check raises nothing and finds what it finds on dictionaries. -/
theorem checkAggWithinVenueRange?_of_nodup {aggBars : List Bar} {perVenue : Dict String (List Bar)}
    (hagg : (aggBars.map Bar.tsNs).Nodup)
    (hvenues : ∀ df ∈ perVenue.values, (df.map Bar.tsNs).Nodup) :
    checkAggWithinVenueRange? aggBars perVenue =
      some (checkAggWithinVenueRange aggBars perVenue) := by
  unfold checkAggWithinVenueRange? checkAggWithinVenueRange
  by_cases hguard : aggBars.isEmpty = true ∨ perVenue.entries.length < 2
  · rw [if_pos hguard, if_pos hguard]
  · rw [if_neg hguard, if_neg hguard]
    dsimp only
    rcases foldlM_of_nodup perVenue.values hvenues with ⟨hrun, hfold⟩ | ⟨out, hrun, hsame⟩
    · rw [hrun, hfold]
      rfl
    · have hlabels : labels out.lo = labels out.hi := by
        rcases foldlM_range perVenue.values with
          ⟨_, hrun'⟩ | ⟨_, out', hrun', hlabels, _⟩ | ⟨_, hrun'⟩
        · rw [hrun] at hrun'
          cases hrun'
        · rw [hrun] at hrun'
          cases hrun'
          exact hlabels
        · rw [hrun] at hrun'
          cases hrun'
      rw [hrun]
      rcases hsame.lo with ⟨lo, hlo, _⟩
      rcases hsame.hi with ⟨hi, hhi, _⟩
      have hfold : perVenue.values.foldl rangeStep ⟨none, none⟩ = ⟨some lo, some hi⟩ := by
        rw [← hlo, ← hhi]
      rw [hfold] at hsame ⊢
      exact rangeBreaches_of_nodup hagg hsame hlabels

/-- The dispersion of two venues or more can be computed exactly if their labels can be joined. -/
theorem checkCrossVenueDispersion?_isSome_iff {perVenue : Dict String (List Bar)} {warnBps : ℚ}
    (hlen : 2 ≤ (venueColumns perVenue).length) :
    (checkCrossVenueDispersion? perVenue warnBps).isSome ↔
      Joinable ((venueColumns perVenue).map labels) := by
  unfold checkCrossVenueDispersion?
  dsimp only
  rw [if_neg (not_lt.2 hlen), ← joinColumns_isSome_iff]
  cases joinColumns (venueColumns perVenue) with
  | none => exact Iff.rfl
  | some rows =>
      refine iff_of_true ?_ rfl
      rw [Option.bind_eq_bind, Option.bind_some]
      split
      · rfl
      · rfl

end CryptoData
