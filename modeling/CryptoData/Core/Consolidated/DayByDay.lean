import CryptoData.Core.Aggregate
import CryptoData.Core.Consolidated.Tape

/-!
# DayByDay — building part by part

A cut on a second splits the trades of every venue in two.  No second lies on both sides, so

* the bars of a venue are those of the early trades followed by those of the late ones
  (`barsFromTrades_append`);
* the merge of the family is the merge of the early parts followed by that of the late parts
  (`mergeTrades_append`), because an early key is below every late one;
* the buckets of the tape are those of the two parts (`buildAggBars_append`).
-/

namespace CryptoData

open Foundation

/-! ## Bars of one venue -/

section Venue

variable (symbol venue : String)

/-- No second is shared, so no run of `barsFromTrades_cons` reaches over the cut. -/
theorem barsFromTrades_append (nowNs : Int) (early late : List Trade) :
    (∀ x ∈ early, ∀ y ∈ late, x.second ≠ y.second) →
      barsFromTrades symbol venue nowNs (early ++ late) =
        barsFromTrades symbol venue nowNs early ++ barsFromTrades symbol venue nowNs late := by
  induction early using secondRuns_induction with
  | nil =>
      intro _
      rfl
  | cons t trades ih =>
      intro hcut
      let run : Trade → Bool := fun u => decide (u.second = t.second)
      have hlate : late.takeWhile run = [] ∧ late.dropWhile run = late := by
        cases late with
        | nil => exact ⟨rfl, rfl⟩
        | cons u late =>
            have hne : run u = false := by
              have hut := hcut t List.mem_cons_self u List.mem_cons_self
              simpa [run] using Ne.symm hut
            exact ⟨List.takeWhile_cons_of_neg (by simp [hne]),
              List.dropWhile_cons_of_neg (by simp [hne])⟩
      have htake : (trades ++ late).takeWhile run = trades.takeWhile run := by
        rw [List.takeWhile_append, hlate.1, List.append_nil]
        split
        · next hall => exact ((List.takeWhile_prefix run).eq_of_length hall).symm
        · rfl
      have hdrop : (trades ++ late).dropWhile run = trades.dropWhile run ++ late := by
        rw [List.dropWhile_append, hlate.2]
        split
        · next hall => rw [List.isEmpty_iff.1 hall, List.nil_append]
        · rfl
      have hrest : ∀ x ∈ trades.dropWhile run, ∀ y ∈ late, x.second ≠ y.second := by
        intro x hx y hy
        exact hcut x (List.mem_cons_of_mem t ((List.dropWhile_sublist run).subset hx)) y hy
      rw [List.cons_append, barsFromTrades_cons, barsFromTrades_cons, htake, hdrop, ih hrest,
        List.cons_append]

lemma foldl_touch_unstamped (trades : List Trade) :
    ∀ b c : Bar, b.unstamped = c.unstamped →
      (trades.foldl BarFold.touch b).unstamped = (trades.foldl BarFold.touch c).unstamped := by
  induction trades with
  | nil =>
      intro b c h
      exact h
  | cons t trades ih =>
      intro b c h
      refine ih _ _ ?_
      have hb : (BarFold.touch b t).unstamped = BarFold.touch b.unstamped t := rfl
      have hc : (BarFold.touch c t).unstamped = BarFold.touch c.unstamped t := rfl
      rw [hb, hc, h]

/-- The clock reading only shows in the stamp of the bars. -/
theorem barsFromTrades_unstamped (now₁ now₂ : Int) (trades : List Trade) :
    (barsFromTrades symbol venue now₁ trades).map Bar.unstamped =
      (barsFromTrades symbol venue now₂ trades).map Bar.unstamped := by
  induction trades using secondRuns_induction with
  | nil => rfl
  | cons t trades ih =>
      have hfold := foldl_touch_unstamped
        (t :: trades.takeWhile fun u => decide (u.second = t.second))
        (BarFold.openBar symbol venue now₁ t) (BarFold.openBar symbol venue now₂ t) rfl
      have hclose : ∀ (b : Bar) (pxv v : ℚ),
          (BarFold.closeBar b pxv v).unstamped = BarFold.closeBar b.unstamped pxv v :=
        fun _ _ _ => rfl
      rw [barsFromTrades_cons, barsFromTrades_cons, List.map_cons, List.map_cons, ih, secondBar,
        secondBar, hclose, hclose, hfold]

end Venue

/-! ## The cut -/

/-- The trades before the cut. -/
def before (cut : Int) (trades : List Trade) : List Trade :=
  trades.filter fun t => decide (t.tsNs < cut)

/-- The trades from the cut on. -/
def since (cut : Int) (trades : List Trade) : List Trade :=
  trades.filter fun t => !decide (t.tsNs < cut)

section Cut

variable {cut : Int} {trades : List Trade}

/-- Sorted trades are the ones before the cut, then the others. -/
lemma before_append_since (cut : Int) (hsorted : trades.Pairwise fun x y => x.tsNs ≤ y.tsNs) :
    trades = before cut trades ++ since cut trades := by
  have hlt : ∀ x y : Trade, decide (x.tsNs < cut) = true → (!decide (y.tsNs < cut)) = true →
      x.tsNs < y.tsNs := by
    intro x y hx hy
    have hy' : cut ≤ y.tsNs := by simpa using hy
    exact lt_of_lt_of_le (of_decide_eq_true hx) hy'
  have happend := filter_append_filter hlt hsorted
  rw [before, since, happend]
  exact (List.filter_eq_self.2 fun t _ => by simp).symm

/-- A cut on the grid of seconds has no second on both sides. -/
lemma second_lt_of_cut (hcut : cut % nsPerSec = 0) {x y : Trade} (hx : x.tsNs < cut)
    (hy : cut ≤ y.tsNs) : x.second < y.second := by
  simp only [Trade.second, secondOf, nsPerSec] at hcut ⊢
  omega

lemma second_lt_of_mem (hcut : cut % nsPerSec = 0) {early late : List Trade}
    (hearly : ∀ x ∈ early, x.tsNs < cut) (hlate : ∀ y ∈ late, cut ≤ y.tsNs) :
    ∀ x ∈ early, ∀ y ∈ late, x.second < y.second := by
  intro x hx y hy
  exact second_lt_of_cut hcut (hearly x hx) (hlate y hy)

end Cut

/-! ## The merge of the family -/

section Family

variable {cut : Int} {perVenue : Dict String (List Trade)}

lemma apart_slotLists (lists : List (List Trade)) :
    Apart MergeState.slotKey (slotLists lists : Multiset (List MergeState.Slot)) := by
  -- The streams of two lists differ in the index.
  have hpair : (List.range lists.length).Pairwise fun i j =>
      ApartStreams MergeState.slotKey (MergeState.slots i (lists.getD i []))
        (MergeState.slots j (lists.getD j [])) := by
    refine (List.nodup_range).imp ?_
    intro i j hne x hx y hy hkey
    rcases List.mem_map.1 hx with ⟨t, _, rfl⟩
    rcases List.mem_map.1 hy with ⟨u, _, rfl⟩
    exact hne (congrArg (fun k : MergeKey ×ₗ ℕ => (ofLex k).2) hkey)
  exact Multiset.pairwise_coe_iff_pairwise.2 (List.pairwise_map.2 hpair)

/-- Cutting every list is cutting every stream. -/
lemma slotLists_filter (p : Trade → Bool) (lists : List (List Trade)) :
    slotLists (lists.map (List.filter p)) =
      (slotLists lists).map (List.filter fun x : MergeState.Slot => p x.2) := by
  refine List.ext_getElem (by simp [slotLists]) ?_
  intro i hi _
  have hin : i < lists.length := by simpa [slotLists] using hi
  simp [slotLists, MergeState.slots, List.getD_eq_getElem?_getD, List.getElem?_eq_getElem hin,
    List.filter_map, Function.comp_def]

/-- The merge of the whole family is the merge of the parts before the cut, then that of the parts
from the cut on. -/
theorem mergeTrades_append (cut : Int)
    (hsorted : ∀ rows ∈ perVenue.values, rows.Pairwise fun x y => x.tsNs ≤ y.tsNs) :
    ∃ early late, mergeTrades (perVenue.mapValues fun _ => before cut) = some early ∧
      mergeTrades (perVenue.mapValues fun _ => since cut) = some late ∧
        mergeTrades perVenue = some (early ++ late) := by
  let p : MergeState.Slot → Bool := fun x => decide (x.2.tsNs < cut)
  have hvalues : ∀ f : List Trade → List Trade,
      (perVenue.mapValues fun _ => f).values = perVenue.values.map f := by
    intro f
    simp [Dict.values, Dict.mapValues, Function.comp_def]
  rcases mergeLists_slots perVenue.values with ⟨whole, hwhole, hmerge⟩
  rcases mergeLists_slots (perVenue.values.map (before cut)) with ⟨early, hearly, hmergeEarly⟩
  rcases mergeLists_slots (perVenue.values.map (since cut)) with ⟨late, hlate, hmergeLate⟩
  have hstreamsEarly : slotLists (perVenue.values.map (before cut)) =
      (slotLists perVenue.values).map (List.filter p) :=
    slotLists_filter (fun t => decide (t.tsNs < cut)) perVenue.values
  have hstreamsLate : slotLists (perVenue.values.map (since cut)) =
      (slotLists perVenue.values).map (List.filter fun x => !p x) :=
    slotLists_filter (fun t => !decide (t.tsNs < cut)) perVenue.values
  rw [hstreamsEarly, ← Multiset.map_coe] at hmergeEarly
  rw [hstreamsLate, ← Multiset.map_coe] at hmergeLate
  have hkey : ∀ x y : MergeState.Slot, p x = true → p y = false →
      MergeState.slotKey x ≤ MergeState.slotKey y := by
    intro x y hx hy
    have hlt : x.2.tsNs < y.2.tsNs :=
      lt_of_lt_of_le (of_decide_eq_true hx) (not_lt.1 (of_decide_eq_false hy))
    have hmergeKey : mergeKey x.2 < mergeKey y.2 := Prod.Lex.lt_iff.2 (Or.inl hlt)
    exact le_of_lt (Prod.Lex.lt_iff.2 (Or.inl hmergeKey))
  have hcut : ∀ l ∈ (slotLists perVenue.values : Multiset (List MergeState.Slot)),
      l = l.filter p ++ l.filter fun x => !p x := by
    intro l hl
    have hl' : l ∈ slotLists perVenue.values := hl
    rcases List.mem_map.1 hl' with ⟨i, hi, rfl⟩
    have hin : i < perVenue.values.length := List.mem_range.1 hi
    have hmem : perVenue.values.getD i [] ∈ perVenue.values := by
      rw [List.getD_eq_getElem _ _ hin]
      exact List.getElem_mem hin
    have hrows := before_append_since cut (hsorted _ hmem)
    have hslots := congrArg (MergeState.slots i) hrows
    simpa [MergeState.slots, before, since, List.filter_map, Function.comp_def, p] using hslots
  -- The streams of two lists share no key, so the merge is the one put together from the parts.
  have hout : whole = early ++ late :=
    (hmergeEarly.append hkey hmergeLate hcut).unique (apart_slotLists _) hmerge
  refine ⟨early.map Prod.snd, late.map Prod.snd, ?_, ?_, ?_⟩
  · rw [mergeTrades, hvalues]
    exact hearly
  · rw [mergeTrades, hvalues]
    exact hlate
  · rw [mergeTrades, hwhole, hout, List.map_append]

end Family

/-! ## The tape -/

section Tape

variable {p : AggParams} {early late : List Trade}

/-- The seconds of two parts, when those of the first come before those of the second. -/
lemma seconds_append (hlt : ∀ x ∈ early, ∀ y ∈ late, x.second < y.second) :
    seconds p (early ++ late) = seconds p early ++ seconds p late := by
  have hsorted : (seconds p early ++ seconds p late).Pairwise (· < ·) := by
    refine List.pairwise_append.2 ⟨Dict.sortedKeys_sortedLT _ |>.pairwise,
      Dict.sortedKeys_sortedLT _ |>.pairwise, ?_⟩
    intro s hs t ht
    rcases mem_seconds_iff.1 hs with ⟨x, hx, _, rfl⟩
    rcases mem_seconds_iff.1 ht with ⟨y, hy, _, rfl⟩
    exact hlt x hx y hy
  refine List.Pairwise.eq_of_mem_iff (Dict.sortedKeys_sortedLT _ |>.pairwise) hsorted ?_
  intro s
  rw [mem_seconds_iff, List.mem_append, mem_seconds_iff, mem_seconds_iff]
  constructor
  · rintro ⟨t, ht, hadmits⟩
    rcases List.mem_append.1 ht with ht | ht
    · exact Or.inl ⟨t, ht, hadmits⟩
    · exact Or.inr ⟨t, ht, hadmits⟩
  · rintro (⟨t, ht, hadmits⟩ | ⟨t, ht, hadmits⟩)
    · exact ⟨t, List.mem_append_left late ht, hadmits⟩
    · exact ⟨t, List.mem_append_right early ht, hadmits⟩

lemma secondTrades_append (sec : Int) :
    secondTrades p (early ++ late) sec = secondTrades p early sec ++ secondTrades p late sec :=
  List.filter_append early late

/-- With one bit index for both, the tape of two parts is the tape of the first and then that of
the second. -/
theorem buildAggBars_append (nowNs : Int) (hindex : p.venuesIndex ≠ none)
    (hlt : ∀ x ∈ early, ∀ y ∈ late, x.second < y.second) :
    (buildAggBars p nowNs (early ++ late)).1 =
        (buildAggBars p nowNs early).1 ++ (buildAggBars p nowNs late).1 ∧
      (buildAggBars p nowNs (early ++ late)).2 =
        (buildAggBars p nowNs early).2 ++ (buildAggBars p nowNs late).2 := by
  have hused : ∀ trades, usedIndex p trades = usedIndex p [] := by
    intro trades
    cases hp : p.venuesIndex with
    | none => exact absurd hp hindex
    | some index => simp [usedIndex, hp]
  -- A second of one part holds nothing of the other.
  have hearly : ∀ sec ∈ seconds p early, secondTrades p (early ++ late) sec =
      secondTrades p early sec := by
    intro sec hsec
    rcases mem_seconds_iff.1 hsec with ⟨x, hx, _, rfl⟩
    have hnone : secondTrades p late x.second = [] := by
      refine secondTrades_eq_nil ?_
      intro hmem
      rcases mem_seconds_iff.1 hmem with ⟨y, hy, _, heq⟩
      exact absurd heq (hlt x hx y hy).ne'
    rw [secondTrades_append, hnone, List.append_nil]
  have hlate : ∀ sec ∈ seconds p late, secondTrades p (early ++ late) sec =
      secondTrades p late sec := by
    intro sec hsec
    rcases mem_seconds_iff.1 hsec with ⟨y, hy, _, rfl⟩
    have hnone : secondTrades p early y.second = [] := by
      refine secondTrades_eq_nil ?_
      intro hmem
      rcases mem_seconds_iff.1 hmem with ⟨x, hx, _, heq⟩
      exact absurd heq (hlt x hx y hy).ne
    rw [secondTrades_append, hnone, List.nil_append]
  have hrows : ((seconds p (early ++ late)).map fun sec =>
        aggSecond p (usedIndex p (early ++ late)) nowNs sec
          (secondTrades p (early ++ late) sec)) =
      ((seconds p early).map fun sec =>
          aggSecond p (usedIndex p early) nowNs sec (secondTrades p early sec)) ++
        (seconds p late).map fun sec =>
          aggSecond p (usedIndex p late) nowNs sec (secondTrades p late sec) := by
    rw [seconds_append hlt, List.map_append]
    congr 1
    · refine List.map_congr_left ?_
      intro sec hsec
      rw [hearly sec hsec, hused (early ++ late), hused early]
    · refine List.map_congr_left ?_
      intro sec hsec
      rw [hlate sec hsec, hused (early ++ late), hused late]
  rw [buildAggBars_eq, buildAggBars_eq, buildAggBars_eq, hrows]
  exact ⟨List.filterMap_append, List.filterMap_append⟩

end Tape

/-! ## Day by day is all at once -/

/-- A family of sorted streams, cut on a second: the bars of each venue, the merged stream, the bars
of the tape and its diagnostics are those of the part before the cut followed by those of the part
from the cut on, each build with its own clock reading. -/
theorem build_day_by_day (symbol venue : String) (p : AggParams) (venuesIndex : Dict String ℕ)
    (now now₁ now₂ cut : Int) (hcut : cut % nsPerSec = 0) (perVenue : Dict String (List Trade))
    (hsorted : ∀ rows ∈ perVenue.values, rows.Pairwise fun x y => x.tsNs ≤ y.tsNs) :
    (∀ rows ∈ perVenue.values,
      (barsFromTrades symbol venue now rows).map Bar.unstamped =
        (barsFromTrades symbol venue now₁ (before cut rows)).map Bar.unstamped ++
          (barsFromTrades symbol venue now₂ (since cut rows)).map Bar.unstamped) ∧
      ∃ whole early late, mergeTrades perVenue = some whole ∧
        mergeTrades (perVenue.mapValues fun _ => before cut) = some early ∧
        mergeTrades (perVenue.mapValues fun _ => since cut) = some late ∧
        whole = early ++ late ∧
        let q := { p with venuesIndex := some venuesIndex }
        (buildAggBars q now whole).1.map Bar.unstamped =
            (buildAggBars q now₁ early).1.map Bar.unstamped ++
              (buildAggBars q now₂ late).1.map Bar.unstamped ∧
          (buildAggBars q now whole).2 =
            (buildAggBars q now₁ early).2 ++ (buildAggBars q now₂ late).2 := by
  have hbefore : ∀ rows : List Trade, ∀ t ∈ before cut rows, t.tsNs < cut := by
    intro rows t ht
    exact of_decide_eq_true (List.mem_filter.1 ht).2
  have hsince : ∀ rows : List Trade, ∀ t ∈ since cut rows, cut ≤ t.tsNs := by
    intro rows t ht
    simpa using (List.mem_filter.1 ht).2
  constructor
  · intro rows hrows
    have hlt := second_lt_of_mem hcut (hbefore rows) (hsince rows)
    have happend := barsFromTrades_append symbol venue now (before cut rows) (since cut rows)
      fun x hx y hy => (hlt x hx y hy).ne
    rw [← before_append_since cut (hsorted rows hrows)] at happend
    rw [happend, List.map_append, barsFromTrades_unstamped symbol venue now now₁,
      barsFromTrades_unstamped symbol venue now now₂]
  · rcases mergeTrades_append cut hsorted with ⟨early, late, hearly, hlate, hwhole⟩
    refine ⟨early ++ late, early, late, hwhole, hearly, hlate, rfl, ?_⟩
    have hmemEarly : ∀ x ∈ early, x.tsNs < cut := by
      intro x hx
      rcases (mem_mergeTrades_iff hearly).1 hx with ⟨e, he, hxe⟩
      rcases List.mem_map.1 he with ⟨f, _, rfl⟩
      exact hbefore f.2 x hxe
    have hmemLate : ∀ y ∈ late, cut ≤ y.tsNs := by
      intro y hy
      rcases (mem_mergeTrades_iff hlate).1 hy with ⟨e, he, hye⟩
      rcases List.mem_map.1 he with ⟨f, _, rfl⟩
      exact hsince f.2 y hye
    let q : AggParams := { p with venuesIndex := some venuesIndex }
    have hindex : q.venuesIndex ≠ none := Option.some_ne_none venuesIndex
    have happend := buildAggBars_append now hindex (second_lt_of_mem hcut hmemEarly hmemLate)
    have hstamp₁ := buildAggBars_unstamped q now now₁ early
    have hstamp₂ := buildAggBars_unstamped q now now₂ late
    constructor
    · rw [happend.1, List.map_append, hstamp₁.1, hstamp₂.1]
    · rw [happend.2, hstamp₁.2, hstamp₂.2]

/-- A cut between two seconds of one venue. -/
theorem build_day_by_day_two_seconds :
    let rows : List Trade :=
      [{ tsNs := 999999999, venue := some "okx", price := 1, size := some 1 },
        { tsNs := 1000000000, venue := some "okx", price := 2, size := some 1 }]
    (barsFromTrades "BTC-USD" "okx" 9 rows).map Bar.unstamped =
      (barsFromTrades "BTC-USD" "okx" 7 (before 1000000000 rows)).map Bar.unstamped ++
        (barsFromTrades "BTC-USD" "okx" 8 (since 1000000000 rows)).map Bar.unstamped :=
  (build_day_by_day "BTC-USD" "okx" { symbol := "BTC-USD" } Dict.empty 9 7 8 1000000000
    (by decide)
    ⟨[("okx", [{ tsNs := 999999999, venue := some "okx", price := 1, size := some 1 },
      { tsNs := 1000000000, venue := some "okx", price := 2, size := some 1 }])], by decide⟩
    (by decide)).1 _ List.mem_cons_self

end CryptoData
