import CryptoData.Query.Bars

/-!
# AsOf — reading the past through the stamps

`get_bars(..., asof=t)` selects the rows that are stamped at or before `t`.  Whether this is what a
read at `t` returned is a question about the rows alone: the engine may return rows that share venue
and time in any order, so two reads agree when the sets of their possible results agree, and these
are equal as soon as both select the same rows (`results_subset`).

If one of the two stores has more rows for the query to select, some query tells them apart
(`results_eq_iff`).
-/

namespace CryptoData

open Foundation

/-- The possible results of a query, over all engines. -/
def results (s : Store Bar) (symbol : String) (startNs endNs : Int) (timeframe : Timeframe)
    (sources : List String) (asof : Option Int) : Set (List Bar) :=
  { out | ∃ engine, getBars engine s symbol startNs endNs timeframe sources asof = out }

/-- `ingested_at_ns IS NULL OR ingested_at_ns <= cutoff`. -/
def stampedBy (cutoff : Int) (b : Bar) : Bool :=
  b.ingestedAtNs.all fun ingested => decide (ingested ≤ cutoff)

lemma selects_some (symbol : String) (venues : List String) (startNs endNs cutoff : Int) (b : Bar) :
    selects symbol venues startNs endNs (some cutoff) b =
      (selects symbol venues startNs endNs none b && stampedBy cutoff b) := by
  simp [selects, stampedBy]

section Engines

variable {s s' : Store Bar} {symbol : String} {startNs endNs : Int} {asof asof' : Option Int}

/-- An engine that makes `s'` select what `engine` makes `s` select. -/
lemma exists_engine (engine : QueryEngine) (venues : List String)
    (hperm : (s.allRows.filter (selects symbol venues startNs endNs asof)).Perm
      (s'.allRows.filter (selects symbol venues startNs endNs asof'))) :
    ∃ engine' : QueryEngine, engine'.sortIndex = engine.sortIndex ∧
      selectBars engine' s' symbol venues startNs endNs asof' =
        selectBars engine s symbol venues startNs endNs asof := by
  let selected := (engine.scan s.allRows).filter (selects symbol venues startNs endNs asof)
  let others := s'.allRows.filter fun b => !selects symbol venues startNs endNs asof' b
  have hselected : selected.Perm
      (s'.allRows.filter (selects symbol venues startNs endNs asof')) :=
    ((engine.scan_perm s.allRows).filter _).trans hperm
  have hall : (selected ++ others).Perm s'.allRows :=
    (hselected.append_right others).trans (List.filter_append_perm _ s'.allRows)
  -- The new engine returns the selected rows of `s'` first, in the order of the old one.
  refine ⟨⟨fun rows => if rows = s'.allRows then selected ++ others else rows, ?_,
    engine.sortIndex, engine.sortIndex_perm, engine.sortIndex_of_sorted⟩, rfl, ?_⟩
  · intro rows
    by_cases hrows : rows = s'.allRows
    · rw [if_pos hrows, hrows]
      exact hall
    · rw [if_neg hrows]
  · have hkeep : selected.filter (selects symbol venues startNs endNs asof') = selected := by
      refine List.filter_eq_self.2 ?_
      intro b hb
      exact (List.mem_filter.1 (hselected.mem_iff.1 hb)).2
    have hdrop : others.filter (selects symbol venues startNs endNs asof') = [] := by
      refine List.filter_eq_nil_iff.2 ?_
      intro b hb
      simpa using (List.mem_filter.1 hb).2
    simp only [selectBars, if_true]
    rw [List.filter_append, hkeep, hdrop, List.append_nil]

/-- Stores that select the same rows have the same results. -/
theorem results_subset (timeframe : Timeframe) (sources : List String)
    (hperm : ∀ venues, (s.allRows.filter (selects symbol venues startNs endNs asof)).Perm
      (s'.allRows.filter (selects symbol venues startNs endNs asof'))) :
    results s symbol startNs endNs timeframe sources asof ⊆
      results s' symbol startNs endNs timeframe sources asof' := by
  intro out hout
  rcases hout with ⟨engine, rfl⟩
  rcases exists_engine engine (if sources.isEmpty then ["agg"] else sources) (hperm _) with
    ⟨engine', hsort, hselect⟩
  refine ⟨engine', ?_⟩
  simp only [getBars, hselect, hsort]

end Engines

/-! ## Two stores that differ by some rows -/

section Balance

variable {final past : Store Bar} {t : Int} {lag surplus : Multiset Bar}

/-- A row that only one side has shows in the query for its venue and second. -/
lemma countP_eq_of_results_eq (engine : QueryEngine)
    (hbalance : (past.allRows : Multiset Bar) + lag =
      (final.allRows : Multiset Bar).filter (fun b => stampedBy t b = true) + surplus)
    (hsame : ∀ symbol startNs endNs timeframe sources,
      results final symbol startNs endNs timeframe sources (some t) =
        results past symbol startNs endNs timeframe sources none) (b : Bar) :
    lag.countP (fun c => selects b.symbol [b.venue] b.tsNs (b.tsNs + 1) none c = true) =
      surplus.countP fun c => selects b.symbol [b.venue] b.tsNs (b.tsNs + 1) none c = true := by
  let p := selects b.symbol [b.venue] b.tsNs (b.tsNs + 1) none
  have hmem : getBars engine final b.symbol b.tsNs (b.tsNs + 1) .oneSecond [b.venue] (some t) ∈
      results past b.symbol b.tsNs (b.tsNs + 1) .oneSecond [b.venue] none := by
    rw [← hsame]
    exact ⟨engine, rfl⟩
  rcases hmem with ⟨engine', hout⟩
  have hlength := congrArg List.length hout
  rw [length_getBars_oneSecond, length_getBars_oneSecond] at hlength
  have hfinal : ((final.allRows : Multiset Bar).filter fun b => stampedBy t b = true).countP
      (fun c => p c = true) =
        final.allRows.countP (selects b.symbol [b.venue] b.tsNs (b.tsNs + 1) (some t)) := by
    rw [Multiset.countP_filter, ← countP_allRows]
    refine Multiset.countP_congr rfl ?_
    intro c _
    rw [selects_some, Bool.and_eq_true]
  have hcount := congrArg (Multiset.countP fun c => p c = true) hbalance
  rw [Multiset.countP_add, Multiset.countP_add, hfinal, countP_allRows, hlength] at hcount
  exact Nat.add_left_cancel hcount

/-- The as-of read of one store returns what the read of the other returned, for every query,
exactly if neither has a row more. -/
theorem results_eq_iff (engine : QueryEngine)
    (hbalance : (past.allRows : Multiset Bar) + lag =
      (final.allRows : Multiset Bar).filter (fun b => stampedBy t b = true) + surplus)
    (hzero : lag = 0 ∨ surplus = 0) :
    (∀ symbol startNs endNs timeframe sources,
      results final symbol startNs endNs timeframe sources (some t) =
        results past symbol startNs endNs timeframe sources none) ↔ lag = 0 ∧ surplus = 0 := by
  constructor
  · intro hsame
    have hcount := countP_eq_of_results_eq engine hbalance hsame
    have hpos : ∀ (rows : Multiset Bar) (b : Bar), b ∈ rows → 0 < rows.countP
        fun c => selects b.symbol [b.venue] b.tsNs (b.tsNs + 1) none c = true := by
      intro rows b hb
      exact Multiset.countP_pos.2 ⟨b, hb, by simp [selects]⟩
    -- A row on one side is counted there, and nothing is counted on the other.
    rcases hzero with rfl | rfl
    · refine ⟨rfl, Multiset.eq_zero_of_forall_notMem ?_⟩
      intro b hb
      have hone := hpos surplus b hb
      rw [← hcount b, Multiset.countP_zero] at hone
      exact absurd hone (lt_irrefl 0)
    · refine ⟨Multiset.eq_zero_of_forall_notMem ?_, rfl⟩
      intro b hb
      have hone := hpos lag b hb
      rw [hcount b, Multiset.countP_zero] at hone
      exact absurd hone (lt_irrefl 0)
  · rintro ⟨rfl, rfl⟩ symbol startNs endNs timeframe sources
    rw [add_zero, add_zero, Multiset.filter_coe, Multiset.coe_eq_coe] at hbalance
    have hperm : ∀ venues, (final.allRows.filter
        (selects symbol venues startNs endNs (some t))).Perm
          (past.allRows.filter (selects symbol venues startNs endNs none)) := by
      intro venues
      have hselects : selects symbol venues startNs endNs (some t) =
          fun b => selects symbol venues startNs endNs none b && stampedBy t b := by
        funext b
        exact selects_some symbol venues startNs endNs t b
      rw [hselects, ← List.filter_filter]
      simpa using (hbalance.symm.filter (selects symbol venues startNs endNs none))
    exact Set.Subset.antisymm (results_subset timeframe sources hperm)
      (results_subset timeframe sources fun venues => (hperm venues).symm)

end Balance

end CryptoData
