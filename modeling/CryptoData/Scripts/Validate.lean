import CryptoData.Quality.DuplicateBars
import CryptoData.Quality.Scorecards

/-!
# Validate — the gate of the quality report

`validate` scores the selected slices and exits with 1 if one of them has an issue of the severity
that was asked for.  For critical issues it looks at the cards of the run; for the lesser severities
it reads the table `daily_quality`, which also has the rows of earlier runs.  So the exit code is
that of the run exactly if no row that the run has left as it was decides it
(`validate_exit_code_iff`).
-/

namespace CryptoData

open Foundation

/-! ## The algorithm -/

/-- `_FAIL_ORDER.get(iss["severity"], 0) >= threshold`. -/
def atLeast (failOn : Severity) (iss : Issue) : Bool :=
  decide (failOn.value ≤ iss.severity.value)

/-- `offenders`, from all rows of the table. -/
def offenders (failOn : Severity) (dailyQuality : Dict Slice QualityRow) : List (Slice × Issue) :=
  dailyQuality.entries.flatMap fun e =>
    (e.2.issues.filter (atLeast failOn)).map fun iss => (e.1, iss)

/-- `main()` of `validate`; `none` is an exception. -/
def validate (failOn : Severity) (c : QualityCall) (s : QualityState) : Option ℕ := do
  let (persisted, df) ← writeDailyQuality runChecks c s
  if df.isEmpty then
    some 0
  else if failOn.value ≤ Severity.critical.value ∧ df.any fun r => decide (0 < r.nCritical) then
    some 1
  else if failOn.value < Severity.critical.value ∧ offenders failOn persisted.dailyQuality ≠ [] then
    some 1
  else
    some 0

/-! ## What the run has found -/

/-- A slice that the run scores has an issue of that severity. -/
def RunOffends (failOn : Severity) (c : QualityCall) : Prop :=
  ∃ k ∈ c.combos, ∃ card,
    scoreDay c.scan runChecks c.views k.symbol k.venue k.date (c.scoredNs k) = some card ∧
      ∃ iss ∈ card.issues, failOn.value ≤ iss.severity.value

/-- A row of a slice that the run does not score has one. -/
def LeftoverOffends (failOn : Severity) (c : QualityCall) (s : QualityState) : Prop :=
  ∃ e ∈ s.dailyQuality.entries, e.1 ∉ c.combos ∧
    ∃ iss ∈ e.2.issues, failOn.value ≤ iss.severity.value

/-- Every slice can be scored, and no row of another run decides the exit code: only critical issues
are asked for, nothing is scored, or a row that offends has company in the run. -/
def GateCondition (failOn : Severity) (c : QualityCall) (s : QualityState) : Prop :=
  (∀ k ∈ c.combos, Comparable c.views k.symbol k.venue k.date) ∧
    (failOn = .critical ∨ c.combos = [] ∨ (LeftoverOffends failOn c s → RunOffends failOn c))

section Gate

variable (failOn : Severity) {c : QualityCall} (s : QualityState) {rows : List Scorecard}

/-- A loop that may raise returns if no step raises, and then it returns the results. -/
lemma mapM_cases {α β : Type} (f : α → Option β) :
    ∀ xs : List α,
      (∃ ys, xs.mapM f = some ys ∧ (∀ x ∈ xs, (f x).isSome) ∧
          ∀ y, y ∈ ys ↔ ∃ x ∈ xs, f x = some y) ∨
        (xs.mapM f = none ∧ ∃ x ∈ xs, f x = none)
  | [] => by
      refine Or.inl ⟨[], rfl, fun x hx => absurd hx List.not_mem_nil, ?_⟩
      intro y
      exact iff_of_false List.not_mem_nil fun h => absurd h.choose_spec.1 List.not_mem_nil
  | x :: xs => by
      rw [List.mapM_cons]
      cases hx : f x with
      | none => exact Or.inr ⟨rfl, x, List.mem_cons_self, hx⟩
      | some y =>
          rcases mapM_cases f xs with ⟨ys, hys, hall, hmem⟩ | ⟨hnone, x', hx', hraises⟩
          · rw [hys]
            refine Or.inl ⟨y :: ys, rfl, ?_, ?_⟩
            · refine List.forall_mem_cons.2 ⟨?_, hall⟩
              rw [hx]
              rfl
            · intro z
              rw [List.mem_cons, hmem z, List.exists_mem_cons_iff, hx, Option.some_inj]
              exact or_congr_left eq_comm
          · rw [hnone]
            exact Or.inr ⟨rfl, x', List.mem_cons_of_mem _ hx', hraises⟩

/-- The rows are the cards of the slices. -/
lemma mem_rows_iff (h : c.score runChecks = some rows) (card : Scorecard) :
    card ∈ rows ↔ ∃ k ∈ c.combos,
      scoreDay c.scan runChecks c.views k.symbol k.venue k.date (c.scoredNs k) = some card := by
  rcases mapM_cases (fun k => scoreDay c.scan runChecks c.views k.symbol k.venue k.date
    (c.scoredNs k)) c.combos with ⟨rows', hrows', _, hmem⟩ | ⟨hnone, _⟩
  · rw [Option.some.inj (h.symm.trans hrows')]
    exact hmem card
  · exact absurd (h.symm.trans hnone) (Option.some_ne_none rows)

/-- The run can be scored exactly if each slice can be compared with its venues. -/
lemma score_isSome_iff (c : QualityCall) :
    (c.score runChecks).isSome ↔ ∀ k ∈ c.combos, Comparable c.views k.symbol k.venue k.date := by
  have hslice : ∀ k : Slice, (scoreDay c.scan runChecks c.views k.symbol k.venue k.date
      (c.scoredNs k)).isSome ↔ Comparable c.views k.symbol k.venue k.date :=
    fun k => scoreDay_isSome_iff c.scan c.views k.symbol k.venue k.date (c.scoredNs k)
  rcases mapM_cases (fun k => scoreDay c.scan runChecks c.views k.symbol k.venue k.date
    (c.scoredNs k)) c.combos with ⟨rows, hrows, hall, _⟩ | ⟨hnone, k, hk, hraises⟩
  · refine iff_of_true (Option.isSome_iff_exists.2 ⟨rows, hrows⟩) ?_
    intro k hk
    exact (hslice k).1 (hall k hk)
  · refine iff_of_false ?_ ?_
    · intro hsome
      rcases Option.isSome_iff_exists.1 hsome with ⟨rows, hrows⟩
      exact absurd (hrows.symm.trans hnone) (Option.some_ne_none rows)
    · intro hall
      have hsome := (hslice k).2 (hall k hk)
      rw [hraises] at hsome
      cases hsome

/-- The number of critical issues on a card. -/
lemma nCritical_pos_iff {k : Slice} {card : Scorecard}
    (h : scoreDay c.scan runChecks c.views k.symbol k.venue k.date (c.scoredNs k) = some card) :
    0 < card.nCritical ↔ ∃ iss ∈ card.issues, iss.severity = .critical := by
  rcases Option.bind_eq_some_iff.1 h with ⟨issues, _, hcard⟩
  cases hcard
  dsimp only
  rw [getD_counter, List.count_pos_iff, List.mem_map]

lemma offenders_ne_nil_iff (dailyQuality : Dict Slice QualityRow) :
    offenders failOn dailyQuality ≠ [] ↔
      ∃ e ∈ dailyQuality.entries, ∃ iss ∈ e.2.issues, failOn.value ≤ iss.severity.value := by
  simp only [offenders, atLeast, ne_eq, List.flatMap_eq_nil_iff, List.map_eq_nil_iff,
    List.filter_eq_nil_iff, decide_eq_true_eq, not_forall, not_not, exists_prop]

/-- The table after the run has the rows of the run and those it has left. -/
lemma offenders_upsertAll_iff (h : c.score runChecks = some rows) :
    offenders failOn (s.dailyQuality.upsertAll (rows.map Scorecard.entry)) ≠ [] ↔
      RunOffends failOn c ∨ LeftoverOffends failOn c s := by
  have hkeys : (rows.map Scorecard.entry).map Prod.fst = c.combos := by
    rw [map_fst_entry, map_slice_of_score h]
  have hnodup : ((rows.map Scorecard.entry).map Prod.fst).Nodup := by
    rw [hkeys]
    exact c.combos_nodup
  rw [offenders_ne_nil_iff]
  constructor
  · intro hrow
    rcases hrow with ⟨e, he, hiss⟩
    -- A row of the table is one of this run, or it was there before and is not overwritten.
    rcases (Dict.mem_upsertAll_iff hnodup).1 he with hnew | ⟨hout, hold⟩
    · rcases List.mem_map.1 hnew with ⟨card, hcard, rfl⟩
      rcases (mem_rows_iff h card).1 hcard with ⟨k, hk, hscore⟩
      exact Or.inl ⟨k, hk, card, hscore, hiss⟩
    · rw [hkeys] at hout
      exact Or.inr ⟨e, hold, hout, hiss⟩
  · intro hoffends
    rcases hoffends with ⟨k, hk, card, hscore, hiss⟩ | ⟨e, hold, hout, hiss⟩
    · have hnew : card.entry ∈ rows.map Scorecard.entry :=
        List.mem_map.2 ⟨card, (mem_rows_iff h card).2 ⟨k, hk, hscore⟩, rfl⟩
      exact ⟨card.entry, (Dict.mem_upsertAll_iff hnodup).2 (Or.inl hnew), hiss⟩
    · rw [← hkeys] at hout
      exact ⟨e, (Dict.mem_upsertAll_iff hnodup).2 (Or.inr ⟨hout, hold⟩), hiss⟩

/-- The frame of the run shows the critical issues. -/
lemma any_nCritical_iff (h : c.score runChecks = some rows) :
    (rows.any fun r => decide (0 < r.nCritical)) = true ↔ RunOffends .critical c := by
  rw [List.any_eq_true]
  constructor
  · intro hany
    rcases hany with ⟨card, hcard, hpos⟩
    rcases (mem_rows_iff h card).1 hcard with ⟨k, hk, hscore⟩
    rcases (nCritical_pos_iff hscore).1 (of_decide_eq_true hpos) with ⟨iss, hiss, hsev⟩
    exact ⟨k, hk, card, hscore, iss, hiss, (Severity.critical_le_iff iss.severity).2 hsev⟩
  · intro hrun
    rcases hrun with ⟨k, hk, card, hscore, iss, hiss, hsev⟩
    refine ⟨card, (mem_rows_iff h card).2 ⟨k, hk, hscore⟩, decide_eq_true ?_⟩
    exact (nCritical_pos_iff hscore).2 ⟨iss, hiss, (Severity.critical_le_iff iss.severity).1 hsev⟩

lemma RunOffends.of_critical (h : RunOffends .critical c) : RunOffends failOn c := by
  rcases h with ⟨k, hk, card, hscore, iss, hiss, hsev⟩
  exact ⟨k, hk, card, hscore, iss, hiss, failOn.value_le_critical.trans hsev⟩

/-- The exit code of a run that scores a slice. -/
lemma validate_of_rows (h : c.score runChecks = some rows) (hne : rows ≠ []) :
    (validate failOn c s = some 1 ∧
        (RunOffends failOn c ∨ failOn ≠ .critical ∧ LeftoverOffends failOn c s)) ∨
      (validate failOn c s = some 0 ∧
        ¬ (RunOffends failOn c ∨ failOn ≠ .critical ∧ LeftoverOffends failOn c s)) := by
  have hfirst := (and_iff_right failOn.value_le_critical).trans (any_nCritical_iff h)
  have hsecond := and_congr failOn.lt_critical_iff (offenders_upsertAll_iff failOn s h)
  unfold validate
  rw [writeDailyQuality_of_rows h hne, Option.bind_eq_bind, Option.bind_some]
  dsimp only
  rw [if_neg fun hnil => hne (List.isEmpty_iff.1 hnil)]
  -- The frame is looked at first, and the table only for the lesser severities.
  by_cases hrun : RunOffends .critical c
  · rw [if_pos (hfirst.2 hrun)]
    exact Or.inl ⟨rfl, Or.inl (hrun.of_critical failOn)⟩
  · rw [if_neg fun h => hrun (hfirst.1 h)]
    by_cases htable : failOn ≠ .critical ∧ (RunOffends failOn c ∨ LeftoverOffends failOn c s)
    · rw [if_pos (hsecond.2 htable)]
      exact Or.inl ⟨rfl, htable.2.imp_right fun hleft => ⟨htable.1, hleft⟩⟩
    · rw [if_neg fun h => htable (hsecond.1 h)]
      refine Or.inr ⟨rfl, ?_⟩
      intro h
      rcases h with hoffends | ⟨hlesser, hleft⟩
      · by_cases hcrit : failOn = .critical
        · exact hrun (hcrit ▸ hoffends)
        · exact htable ⟨hcrit, Or.inl hoffends⟩
      · exact htable ⟨hlesser, Or.inr hleft⟩

/-- A run without slices passes. -/
lemma validate_of_no_slices (h : c.score runChecks = some []) :
    validate failOn c s = some 0 ∧ ¬ RunOffends failOn c := by
  constructor
  · unfold validate
    rw [writeDailyQuality_of_nil h]
    rfl
  · intro hrun
    rcases hrun with ⟨k, hk, _⟩
    rw [← map_slice_of_score h] at hk
    cases hk

/-- With a slice, a row of another run decides unless the run fails anyway. -/
lemma gateCondition_iff (hall : ∀ k ∈ c.combos, Comparable c.views k.symbol k.venue k.date)
    (hne : c.combos ≠ []) :
    GateCondition failOn c s ↔
      ((RunOffends failOn c ∨ failOn ≠ .critical ∧ LeftoverOffends failOn c s) ↔
        RunOffends failOn c) := by
  unfold GateCondition
  rw [and_iff_right hall, or_iff_right hne, or_iff_left_iff_imp]
  by_cases hcrit : failOn = .critical
  · refine iff_of_true (Or.inl hcrit) ?_
    intro h
    exact absurd hcrit h.1
  · rw [or_iff_right hcrit, and_iff_right hcrit]

/-- The exit code is 1 exactly if the run has found an issue of the severity, and else 0, exactly if
every slice can be scored and no row of another run decides. -/
theorem validate_exit_code_iff :
    ((validate failOn c s = some 1 ↔ RunOffends failOn c) ∧
        (validate failOn c s = some 0 ↔ ¬ RunOffends failOn c)) ↔
      GateCondition failOn c s := by
  have hsome := score_isSome_iff c
  cases h : c.score runChecks with
  | none =>
      have hcode : validate failOn c s = none := by
        unfold validate
        rw [writeDailyQuality_of_none h]
        rfl
      rw [h] at hsome
      rw [hcode]
      -- A run that raises has no exit code, so it cannot be exact either way.
      refine iff_of_false ?_ fun hgate => absurd (hsome.2 hgate.1) Bool.false_ne_true
      intro hexact
      have hrun : ¬ RunOffends failOn c := fun hrun => absurd (hexact.1.2 hrun) (by decide)
      exact absurd (hexact.2.2 hrun) (by decide)
  | some rows =>
      rw [h] at hsome
      have hall := hsome.1 rfl
      -- Without a slice the table is not looked at.
      by_cases hne : rows = []
      · subst hne
        rcases validate_of_no_slices failOn s h with ⟨hzero, hrun⟩
        have hcombos : c.combos = [] := (map_slice_of_score h).symm
        refine iff_of_true ?_ ⟨hall, Or.inr (Or.inl hcombos)⟩
        rw [hzero]
        exact ⟨iff_of_false (by decide) hrun, iff_of_true rfl hrun⟩
      · have hcombos : c.combos ≠ [] := by
          intro hnil
          rw [← map_slice_of_score h] at hnil
          exact hne (List.map_eq_nil_iff.1 hnil)
        rw [gateCondition_iff failOn s hall hcombos]
        rcases validate_of_rows failOn s h hne with ⟨hone, hfails⟩ | ⟨hzero, hpasses⟩
        · rw [hone]
          constructor
          · intro hexact
            exact iff_of_true hfails (hexact.1.1 rfl)
          · intro hexact
            have hrun := hexact.1 hfails
            exact ⟨iff_of_true rfl hrun, iff_of_false (by decide) fun h => h hrun⟩
        · have hrun : ¬ RunOffends failOn c := fun hrun => hpasses (Or.inl hrun)
          rw [hzero]
          refine iff_of_true ?_ (iff_of_false hpasses hrun)
          exact ⟨iff_of_false (by decide) hrun, iff_of_true rfl hrun⟩

end Gate

/-- Two slices: one bar of the one, and of the other two bars in one second. -/
def twoSlices (symbols : Option (List String)) : QualityCall :=
  let bar (symbol : String) : Bar := ⟨1000000000, symbol, "okx", 1, 1, 1, 1, 1, 1, 1, 1, none⟩
  { symbols := symbols
    views :=
      { bars := Dict.empty
          |>.set ⟨⟨"bars_1s", "X-USD", "okx", "1970-01-01"⟩, .part 7⟩ [bar "X-USD"]
          |>.set ⟨⟨"bars_1s", "Y-USD", "okx", "1970-01-01"⟩, .part 8⟩ [bar "Y-USD", bar "Y-USD"]
        trades := Dict.empty
        quotes := Dict.empty }
    scan := Scan.plain
    scoredNs := fun _ => 9
    summarisedNs := 9 }

/-- After a run over both slices, a run that is restricted to the clean one fails, too. -/
theorem leftover_row_fails_clean_run :
    (twoSlices (some ["X-USD"])).combos = [⟨"1970-01-01", "X-USD", "okx"⟩] ∧
      ((twoSlices (some ["X-USD"])).score runChecks).map (fun rows => rows.map Scorecard.issues) =
        some [[]] ∧
      validate .major (twoSlices (some ["X-USD"]))
        (afterCall runChecks QualityState.fresh (twoSlices none)) = some 1 := by
  decide +kernel

end CryptoData
