import CryptoData.Core.Consolidated.Filter
import CryptoData.Core.Symbols
import Mathlib.Algebra.Order.BigOperators.Group.List
import Mathlib.Algebra.Order.Floor.Ring
import Mathlib.Data.Rat.Floor

/-!
# Build — the consolidated one-second bars

`buildAggBars` drops the trades no bar may use, buckets the rest by second, filters each second
and rolls the survivors up.  Every bar is the roll-up of the trades that survive in its own second
(`rollsUp_of_mem`); with a threshold multiplier of at least one, every second with an
eligible trade has a bar, so nothing is lost between the input and the bars
(`buildAggBars_accounting`).
-/

namespace CryptoData

open Foundation

/-! ## The algorithm -/

/-- The keyword arguments of `build_agg_bars`. -/
structure AggParams where
  symbol : String
  venuesIndex : Option (Dict String ℕ) := none
  madK : ℚ := 5
  minVenuesForFilter : Int := 3
  excludedVenues : List String := []
  staleRecvLagMs : Option ℚ := none

/-- One entry of the per-second diagnostics; a median of `none` is `math.nan`. -/
structure Diag where
  tsNs : Int
  symbol : String
  nRaw : ℕ
  nKept : ℕ
  nDropped : ℕ
  medianPx : Option ℚ
  venues : List (Option String)
  deriving DecidableEq, Repr

/-- `int(x)`: rounding toward zero. -/
def truncate (x : ℚ) : Int :=
  if 0 ≤ x then ⌊x⌋ else ⌈x⌉

/-- `int(stale_recv_lag_ms * 1_000_000) if stale_recv_lag_ms else None`: a budget of zero is
falsy, and so means no gate. -/
def staleLagNs (staleRecvLagMs : Option ℚ) : Option Int :=
  match staleRecvLagMs with
  | none => none
  | some ms => if ms = 0 then none else some (truncate (ms * 1000000))

/-- The three `continue` tests of the bucketing loop. -/
def admits (p : AggParams) (t : Trade) : Bool :=
  if p.excludedVenues.contains t.venueName then
    false
  else if (staleLagNs p.staleRecvLagMs).any fun lagNs => decide (t.recv - t.tsNs > lagNs) then
    false
  else
    !decide (t.qty ≤ 0)

/-- The bar of one second; `None` stands for the `continue` on an empty list of survivors. -/
def rollUp (p : AggParams) (venuesIndex : Dict String ℕ) (nowNs sec : Int) :
    List Trade → Option Bar
  | [] => none
  | first :: rest =>
      let kept := first :: rest
      -- `total_v <= 0` is a `continue` as well, before the bar and its diagnostics.
      let totalV := (kept.map Trade.qty).sum
      if totalV ≤ 0 then
        none
      else
        let prices := kept.map Trade.price
        let keptVenues := sortedSet (kept.map Trade.venueName)
        some
          { tsNs := sec
            symbol := p.symbol
            venue := "agg"
            «open» := first.price
            high := prices.max (by simp [prices, kept])
            low := prices.min (by simp [prices, kept])
            close := (kept.getLast (by simp [kept])).price
            volume := totalV
            vwap := weightedMean Trade.price Trade.qty kept
            trades := kept.length
            sourcesMask := orMask venuesIndex keptVenues
            ingestedAtNs := some nowNs }

/-- The diagnostics of one second.  A second all of whose survivors have no volume is skipped
before its entry is written, and one without survivors lists the venues of all its trades. -/
def diagnose (p : AggParams) (sec : Int) (raw kept : List Trade) (med : Option ℚ) : Option Diag :=
  if kept.isEmpty then
    some
      { tsNs := sec
        symbol := p.symbol
        nRaw := raw.length
        nKept := 0
        nDropped := raw.length
        medianPx := med
        venues := (raw.map Trade.venue).dedup.insertionSort fun v w => v.getD "" ≤ w.getD "" }
  else if (kept.map Trade.qty).sum ≤ 0 then
    none
  else
    some
      { tsNs := sec
        symbol := p.symbol
        nRaw := raw.length
        nKept := kept.length
        nDropped := raw.length - kept.length
        medianPx := med
        venues := (sortedSet (kept.map Trade.venueName)).map some }

/-- The body of `for sec in sorted(by_sec)`. -/
def aggSecond (p : AggParams) (venuesIndex : Dict String ℕ) (nowNs sec : Int)
    (raw : List Trade) : Option Bar × Option Diag :=
  let filtered := robustFilter raw p.madK p.minVenuesForFilter
  (rollUp p venuesIndex nowNs sec filtered.1, diagnose p sec raw filtered.1 filtered.2)

/-- `build_agg_bars(..., return_diagnostics=True)`; without the flag the second list is not
built. -/
def buildAggBars (p : AggParams) (nowNs : Int) (consolidated : List Trade) :
    List Bar × List Diag :=
  -- One bucket for each second, visited in the order of the seconds.
  let admitted := consolidated.filter (admits p)
  let bySec := bucket Trade.second admitted
  let venuesIndex := p.venuesIndex.getD (venueBitmaskIndex (admitted.map Trade.venueName))
  let out := bySec.sortedKeys.map fun sec =>
    aggSecond p venuesIndex nowNs sec (bySec.getD sec [])
  (out.filterMap Prod.fst, out.filterMap Prod.snd)

/-! ## One second -/

/-- `by_sec[sec]`. -/
def secondTrades (p : AggParams) (consolidated : List Trade) (sec : Int) : List Trade :=
  consolidated.filter fun t => admits p t && decide (t.second = sec)

/-- The trades of `sec` that survive the filter. -/
def keptIn (p : AggParams) (consolidated : List Trade) (sec : Int) : List Trade :=
  (robustFilter (secondTrades p consolidated sec) p.madK p.minVenuesForFilter).1

/-- The index that `build_agg_bars` uses: the one it is given, or one over the venues it sees. -/
def usedIndex (p : AggParams) (consolidated : List Trade) : Dict String ℕ :=
  p.venuesIndex.getD
    (venueBitmaskIndex ((consolidated.filter (admits p)).map Trade.venueName))

section Second

variable {p : AggParams} {consolidated : List Trade} {sec : Int}

lemma qty_pos_of_admits {t : Trade} (h : admits p t = true) : 0 < t.qty := by
  by_contra hqty
  have hle : t.qty ≤ 0 := not_lt.1 hqty
  simp [admits, hle] at h

lemma admits_eq_true {t : Trade} (hvenue : t.venueName ∉ p.excludedVenues)
    (hlag : ∀ lagNs ∈ staleLagNs p.staleRecvLagMs, t.recv - t.tsNs ≤ lagNs) (hqty : 0 < t.qty) :
    admits p t = true := by
  have hstale : (staleLagNs p.staleRecvLagMs).any
      (fun lagNs => decide (t.recv - t.tsNs > lagNs)) = false := by
    cases hbudget : staleLagNs p.staleRecvLagMs with
    | none => rfl
    | some lagNs =>
        have hle := hlag lagNs (by simp [hbudget])
        simpa using hle
  simp [admits, hvenue, hstale, hqty]

lemma mem_secondTrades_iff {t : Trade} :
    t ∈ secondTrades p consolidated sec ↔
      t ∈ consolidated ∧ admits p t = true ∧ t.second = sec := by
  simp [secondTrades]

lemma getD_bySec :
    (bucket Trade.second (consolidated.filter (admits p))).getD sec [] =
      secondTrades p consolidated sec := by
  rw [getD_bucket, List.filter_filter]
  exact List.filter_congr fun t _ => Bool.and_comm _ _

lemma keptIn_sublist : (keptIn p consolidated sec).Sublist (secondTrades p consolidated sec) :=
  robustFilter_sublist _ _ _

lemma qty_pos_of_mem_keptIn {t : Trade} (h : t ∈ keptIn p consolidated sec) : 0 < t.qty :=
  qty_pos_of_admits (mem_secondTrades_iff.1 (keptIn_sublist.subset h)).2.1

/-- The survivors of a second have volume, so the guard on it never fires. -/
lemma sum_qty_pos (h : keptIn p consolidated sec ≠ []) :
    0 < ((keptIn p consolidated sec).map Trade.qty).sum := by
  refine List.sum_pos _ ?_ (by simpa using h)
  intro q hq
  obtain ⟨t, ht, rfl⟩ := List.mem_map.1 hq
  exact qty_pos_of_mem_keptIn ht

end Second

/-- What a roll-up of trades with volume says about them. -/
structure RollsUp (venuesIndex : Dict String ℕ) (sec : Int) (kept : List Trade) (b : Bar) :
    Prop where
  tsNs : b.tsNs = sec
  «open» : ∃ t ∈ kept.head?, b.open = t.price
  close : ∃ t ∈ kept.getLast?, b.close = t.price
  high : ∃ t ∈ kept, b.high = t.price
  low : ∃ t ∈ kept, b.low = t.price
  volume : b.volume = (kept.map Trade.qty).sum
  vwap : b.vwap = weightedMean Trade.price Trade.qty kept
  trades : b.trades = kept.length
  sourcesMask : b.sourcesMask = orMask venuesIndex (sortedSet (kept.map Trade.venueName))

theorem rollUp_spec (p : AggParams) (venuesIndex : Dict String ℕ) (nowNs sec : Int)
    {kept : List Trade} (hpos : kept ≠ [] → 0 < (kept.map Trade.qty).sum) :
    (kept = [] ∧ rollUp p venuesIndex nowNs sec kept = none) ∨
      ∃ b, rollUp p venuesIndex nowNs sec kept = some b ∧ RollsUp venuesIndex sec kept b := by
  cases kept with
  | nil => exact Or.inl ⟨rfl, rfl⟩
  | cons first rest =>
      have hvolume : ¬ ((first :: rest).map Trade.qty).sum ≤ 0 := not_le.2 (hpos (by simp))
      refine Or.inr ⟨_, if_neg hvolume, ?_⟩
      exact
        { tsNs := rfl
          «open» := ⟨first, rfl, rfl⟩
          close := ⟨_, List.getLast?_eq_some_getLast (List.cons_ne_nil first rest), rfl⟩
          high := exists_max_map Trade.price (by simp)
          low := exists_min_map Trade.price (by simp)
          volume := rfl
          vwap := rfl
          trades := rfl
          sourcesMask := rfl }

theorem diagnose_spec (p : AggParams) (sec : Int) (raw : List Trade) (med : Option ℚ)
    {kept : List Trade} (hne : kept ≠ []) (hpos : 0 < (kept.map Trade.qty).sum) :
    ∃ d, diagnose p sec raw kept med = some d ∧ d.tsNs = sec ∧ d.nRaw = raw.length ∧
      d.nKept = kept.length ∧ d.nDropped = raw.length - kept.length := by
  have hempty : kept.isEmpty = false := by simpa using hne
  have hvolume : ¬ (kept.map Trade.qty).sum ≤ 0 := not_le.2 hpos
  simp only [diagnose, hempty, hvolume, Bool.false_eq_true, if_false]
  exact ⟨_, rfl, rfl, rfl, rfl, rfl⟩

/-! ## The whole run -/

/-- The seconds that hold an admitted trade, in order. -/
def seconds (p : AggParams) (consolidated : List Trade) : List Int :=
  (bucket Trade.second (consolidated.filter (admits p))).sortedKeys

section Run

variable {p : AggParams} {nowNs : Int} {consolidated : List Trade} {sec : Int}

lemma mem_seconds_iff :
    sec ∈ seconds p consolidated ↔ ∃ t ∈ consolidated, admits p t = true ∧ t.second = sec := by
  simp [seconds, Dict.mem_sortedKeys, mem_keys_bucket, and_assoc]

lemma secondTrades_eq_nil (h : sec ∉ seconds p consolidated) :
    secondTrades p consolidated sec = [] := by
  refine List.filter_eq_nil_iff.2 ?_
  intro t ht hsec
  have hboth : admits p t = true ∧ t.second = sec := by simpa using hsec
  exact h (mem_seconds_iff.2 ⟨t, ht, hboth.1, hboth.2⟩)

theorem buildAggBars_eq :
    buildAggBars p nowNs consolidated =
      (((seconds p consolidated).map fun sec =>
          aggSecond p (usedIndex p consolidated) nowNs sec
            (secondTrades p consolidated sec)).filterMap Prod.fst,
        ((seconds p consolidated).map fun sec =>
          aggSecond p (usedIndex p consolidated) nowNs sec
            (secondTrades p consolidated sec)).filterMap Prod.snd) := by
  simp only [buildAggBars, seconds, usedIndex, getD_bySec]

/-- Every bar is the roll-up of the survivors of its own second. -/
theorem rollsUp_of_mem {b : Bar} (hb : b ∈ (buildAggBars p nowNs consolidated).1) :
    keptIn p consolidated b.tsNs ≠ [] ∧
      RollsUp (usedIndex p consolidated) b.tsNs (keptIn p consolidated b.tsNs) b := by
  rw [buildAggBars_eq] at hb
  obtain ⟨out, hout, hfst⟩ := List.mem_filterMap.1 hb
  obtain ⟨sec, _, rfl⟩ := List.mem_map.1 hout
  have hroll : rollUp p (usedIndex p consolidated) nowNs sec (keptIn p consolidated sec) =
      some b := hfst
  -- A second without survivors has no bar, so this one is a roll-up.
  rcases rollUp_spec p (usedIndex p consolidated) nowNs sec
      (fun h => sum_qty_pos h) with ⟨_, hnone⟩ | ⟨b', hsome, hspec⟩
  · rw [hnone] at hroll
    cases hroll
  · have hbb : b' = b := Option.some.inj (hsome.symm.trans hroll)
    subst hbb
    have hsec := hspec.tsNs
    refine ⟨?_, by simpa [hsec] using hspec⟩
    intro hnil
    obtain ⟨t, ht, _⟩ := hspec.high
    rw [← hsec, hnil] at ht
    cases ht

/-- Half of a nonempty second survives, so no second of the loop is emptied. -/
theorem keptIn_ne_nil (hK : 1 ≤ p.madK * madToSigma) (hsec : sec ∈ seconds p consolidated) :
    keptIn p consolidated sec ≠ [] := by
  intro hnil
  obtain ⟨t, ht, hadmits, hts⟩ := mem_seconds_iff.1 hsec
  have hmem : t ∈ secondTrades p consolidated sec :=
    mem_secondTrades_iff.2 ⟨ht, hadmits, hts⟩
  have hhalf : (secondTrades p consolidated sec).length ≤
      2 * (keptIn p consolidated sec).length := length_le_two_mul_kept _ hK
  have hpos := List.length_pos_of_mem hmem
  rw [hnil, List.length_nil] at hhalf
  exact absurd hhalf (not_le.2 hpos)

/-- A second with a survivor has a bar. -/
theorem exists_bar_of_keptIn (nowNs : Int) (h : keptIn p consolidated sec ≠ []) :
    ∃ b ∈ (buildAggBars p nowNs consolidated).1, b.tsNs = sec := by
  have hsec : sec ∈ seconds p consolidated := by
    by_contra hout
    have hsub : (keptIn p consolidated sec).Sublist (secondTrades p consolidated sec) :=
      keptIn_sublist
    rw [secondTrades_eq_nil hout] at hsub
    exact h (List.sublist_nil.1 hsub)
  rcases rollUp_spec p (usedIndex p consolidated) nowNs sec
      (fun h => sum_qty_pos h) with ⟨hnil, _⟩ | ⟨b, hsome, hspec⟩
  · exact absurd hnil h
  · refine ⟨b, ?_, hspec.tsNs⟩
    rw [buildAggBars_eq]
    exact List.mem_filterMap.2 ⟨_, List.mem_map.2 ⟨sec, hsec, rfl⟩, hsome⟩

/-- The bars are labelled for the tape, and their seconds come in the order of the loop. -/
theorem labels_of_mem_buildAggBars {b : Bar} (hb : b ∈ (buildAggBars p nowNs consolidated).1) :
    b.symbol = p.symbol ∧ b.venue = "agg" ∧ ∃ t ∈ consolidated, b.tsNs = t.second := by
  have hkept := rollsUp_of_mem hb
  rcases hkept.2.high with ⟨t, ht, _⟩
  have hsecond := mem_secondTrades_iff.1 (keptIn_sublist.subset ht)
  rw [buildAggBars_eq] at hb
  rcases List.mem_filterMap.1 hb with ⟨out, hout, hfst⟩
  rcases List.mem_map.1 hout with ⟨sec, _, rfl⟩
  have hroll : rollUp p (usedIndex p consolidated) nowNs sec (keptIn p consolidated sec) =
      some b := hfst
  cases hlist : keptIn p consolidated sec with
  | nil => simp [hlist, rollUp] at hroll
  | cons first rest =>
      rw [hlist] at hroll
      by_cases hvolume : ((first :: rest).map Trade.qty).sum ≤ 0
      · simp only [rollUp, hvolume, if_true] at hroll
        cases hroll
      · simp only [rollUp, hvolume, if_false, Option.some.injEq] at hroll
        subst hroll
        exact ⟨rfl, rfl, t, hsecond.1, hsecond.2.2.symm⟩

/-- Every bar carries the clock reading of its run. -/
theorem stamp_of_mem_buildAggBars {b : Bar} (hb : b ∈ (buildAggBars p nowNs consolidated).1) :
    b.ingestedAtNs = some nowNs := by
  rw [buildAggBars_eq] at hb
  rcases List.mem_filterMap.1 hb with ⟨out, hout, hfst⟩
  rcases List.mem_map.1 hout with ⟨sec, _, rfl⟩
  have hroll : rollUp p (usedIndex p consolidated) nowNs sec (keptIn p consolidated sec) =
      some b := hfst
  cases hlist : keptIn p consolidated sec with
  | nil => simp [hlist, rollUp] at hroll
  | cons first rest =>
      rw [hlist] at hroll
      by_cases hvolume : ((first :: rest).map Trade.qty).sum ≤ 0
      · simp only [rollUp, hvolume, if_true] at hroll
        cases hroll
      · simp only [rollUp, hvolume, if_false, Option.some.injEq] at hroll
        subst hroll
        rfl

/-- The seconds of the bars, with no assumption on the filter. -/
theorem buildAggBars_tsNs_sublist :
    ((buildAggBars p nowNs consolidated).1.map Bar.tsNs).Sublist (seconds p consolidated) := by
  rw [buildAggBars_eq]
  -- Each second of the loop adds its own bar or none.
  induction seconds p consolidated with
  | nil => exact List.Sublist.slnil
  | cons sec secs ih =>
      rcases rollUp_spec p (usedIndex p consolidated) nowNs sec
          (fun h => sum_qty_pos h) with ⟨_, hnone⟩ | ⟨b, hsome, hspec⟩
      · have hfst : (aggSecond p (usedIndex p consolidated) nowNs sec
            (secondTrades p consolidated sec)).1 = none := hnone
        simpa [List.filterMap_cons, hfst] using ih.cons sec
      · have hfst : (aggSecond p (usedIndex p consolidated) nowNs sec
            (secondTrades p consolidated sec)).1 = some b := hsome
        have hts := hspec.tsNs
        simpa [List.filterMap_cons, hfst, hts] using ih.cons_cons sec

end Run

/-! ## Accounting -/

/-- The venue is not excluded, the receive lag is within the budget, and the size is positive. -/
def Eligible (p : AggParams) (t : Trade) : Prop :=
  t.venueName ∉ p.excludedVenues ∧
    (∀ ms ∈ p.staleRecvLagMs, ((t.recv - t.tsNs : Int) : ℚ) ≤ ms * 1000000) ∧ 0 < t.qty

instance (p : AggParams) (t : Trade) : Decidable (Eligible p t) :=
  inferInstanceAs (Decidable (_ ∧ _ ∧ _))

/-- With a positive or absent budget, the guards of the loop admit exactly the eligible trades. -/
theorem admits_iff_eligible {p : AggParams} (hbudget : ∀ ms ∈ p.staleRecvLagMs, 0 < ms)
    (t : Trade) : admits p t = true ↔ Eligible p t := by
  -- An integer lag is within the budget exactly when it is within the truncated budget.
  have hlag : (staleLagNs p.staleRecvLagMs).any (fun lagNs => decide (t.recv - t.tsNs > lagNs)) =
      false ↔ ∀ ms ∈ p.staleRecvLagMs, ((t.recv - t.tsNs : Int) : ℚ) ≤ ms * 1000000 := by
    cases hms : p.staleRecvLagMs with
    | none => simp [staleLagNs]
    | some ms =>
        have hpos : 0 < ms := hbudget ms hms
        have hscaled : 0 ≤ ms * 1000000 := mul_nonneg hpos.le (by norm_num)
        have hfloor : t.recv - t.tsNs ≤ ⌊ms * 1000000⌋ ↔
            ((t.recv - t.tsNs : Int) : ℚ) ≤ ms * 1000000 := Int.le_floor
        simpa [staleLagNs, hpos.ne', truncate, hscaled] using hfloor
  unfold Eligible
  rw [← hlag]
  by_cases hexcluded : t.venueName ∈ p.excludedVenues
  · simp [admits, hexcluded]
  · cases hany : (staleLagNs p.staleRecvLagMs).any
        (fun lagNs => decide (t.recv - t.tsNs > lagNs)) with
    | true => simp [admits, hexcluded, hany]
    | false => simp [admits, hexcluded, hany]

/-- The eligible trades of one second, in stream order. -/
def eligibleIn (p : AggParams) (consolidated : List Trade) (sec : Int) : List Trade :=
  consolidated.filter fun t => decide (Eligible p t ∧ t.second = sec)

/-- The eligible trades of one second that its filter drops. -/
def droppedIn (p : AggParams) (consolidated : List Trade) (sec : Int) : List Trade :=
  (eligibleIn p consolidated sec).diff (keptIn p consolidated sec)

/-- What one second contributes to the two outputs. -/
structure Accounted (p : AggParams) (consolidated : List Trade) (b : Bar) (d : Diag) : Prop where
  sameSecond : d.tsNs = b.tsNs
  raw : d.nRaw = (eligibleIn p consolidated b.tsNs).length
  trades : b.trades = (keptIn p consolidated b.tsNs).length
  kept : d.nKept = b.trades
  split : d.nRaw = b.trades + d.nDropped
  volume : b.volume = ((keptIn p consolidated b.tsNs).map Trade.qty).sum

section Accounting

variable {p : AggParams} {consolidated : List Trade} {sec : Int}

lemma secondTrades_eq_eligibleIn (hbudget : ∀ ms ∈ p.staleRecvLagMs, 0 < ms) :
    secondTrades p consolidated sec = eligibleIn p consolidated sec := by
  refine List.filter_congr fun t _ => ?_
  have h := admits_iff_eligible hbudget t
  by_cases hadmits : admits p t = true
  · simp [hadmits, h.1 hadmits]
  · simp [hadmits, h.not.1 hadmits]

lemma keptIn_append_droppedIn_perm (hbudget : ∀ ms ∈ p.staleRecvLagMs, 0 < ms) :
    (keptIn p consolidated sec ++ droppedIn p consolidated sec).Perm
      (eligibleIn p consolidated sec) := by
  have hsub : (keptIn p consolidated sec).Sublist (eligibleIn p consolidated sec) := by
    rw [← secondTrades_eq_eligibleIn hbudget]
    exact keptIn_sublist
  exact List.subperm_append_diff_self_of_count_le fun t _ => hsub.count_le t

/-- One step of the loop over the seconds: both outputs are written, and they agree. -/
lemma aggSecond_accounted (nowNs : Int) (hbudget : ∀ ms ∈ p.staleRecvLagMs, 0 < ms)
    (hK : 1 ≤ p.madK * madToSigma) (hsec : sec ∈ seconds p consolidated) :
    ∃ b d, aggSecond p (usedIndex p consolidated) nowNs sec (secondTrades p consolidated sec) =
        (some b, some d) ∧ b.tsNs = sec ∧ Accounted p consolidated b d := by
  have hkept : keptIn p consolidated sec ≠ [] := keptIn_ne_nil hK hsec
  have hvolume := sum_qty_pos hkept
  have hsub : (keptIn p consolidated sec).Sublist (secondTrades p consolidated sec) :=
    keptIn_sublist
  obtain ⟨d, hdiag, hdsec, hraw, hnkept, hdropped⟩ :=
    diagnose_spec p sec (secondTrades p consolidated sec)
      (robustFilter (secondTrades p consolidated sec) p.madK p.minVenuesForFilter).2
      hkept hvolume
  rcases rollUp_spec p (usedIndex p consolidated) nowNs sec
      (fun h => sum_qty_pos h) with ⟨hnil, _⟩ | ⟨b, hroll, hspec⟩
  · exact absurd hnil hkept
  · have hsecond := hspec.tsNs
    refine ⟨b, d, Prod.ext hroll hdiag, hsecond, ⟨?_, ?_, ?_, ?_, ?_, ?_⟩⟩
    · rw [hdsec, hsecond]
    · rw [hraw, hsecond, secondTrades_eq_eligibleIn hbudget]
    · rw [hsecond, hspec.trades]
    · rw [hnkept, hspec.trades]
    · rw [hraw, hdropped, hspec.trades]
      exact (Nat.add_sub_of_le hsub.length_le).symm
    · rw [hsecond, hspec.volume]

/-- A loop whose every step writes to both outputs writes two lists of the same rows. -/
lemma exists_rows {F : Int → Option Bar × Option Diag} {R : Int → Bar → Diag → Prop} :
    ∀ secs : List Int, (∀ sec ∈ secs, ∃ b d, F sec = (some b, some d) ∧ R sec b d) →
      ∃ rows : List (Int × Bar × Diag), rows.map (fun r => r.1) = secs ∧
        (secs.map F).filterMap Prod.fst = rows.map (fun r => r.2.1) ∧
        (secs.map F).filterMap Prod.snd = rows.map (fun r => r.2.2) ∧
        ∀ r ∈ rows, R r.1 r.2.1 r.2.2
  | [], _ => ⟨[], by simp⟩
  | sec :: secs, h => by
      obtain ⟨b, d, hF, hR⟩ := h sec List.mem_cons_self
      obtain ⟨rows, hsecs, hfst, hsnd, hrows⟩ :=
        exists_rows secs fun s hs => h s (List.mem_cons_of_mem sec hs)
      refine ⟨(sec, b, d) :: rows, by simp [hsecs], by simp [hF, hfst], by simp [hF, hsnd], ?_⟩
      intro r hr
      rcases List.mem_cons.1 hr with rfl | hr
      · exact hR
      · exact hrows r hr

/-- The bars and diagnostics pair up, second by second. -/
theorem buildAggBars_rows (nowNs : Int) (hbudget : ∀ ms ∈ p.staleRecvLagMs, 0 < ms)
    (hK : 1 ≤ p.madK * madToSigma) :
    (buildAggBars p nowNs consolidated).1.map Bar.tsNs = seconds p consolidated ∧
      List.Forall₂ (Accounted p consolidated) (buildAggBars p nowNs consolidated).1
        (buildAggBars p nowNs consolidated).2 := by
  obtain ⟨rows, hsecs, hbars, hdiags, hrows⟩ :=
    exists_rows (R := fun sec b d => b.tsNs = sec ∧ Accounted p consolidated b d)
      (seconds p consolidated) fun sec hsec => aggSecond_accounted nowNs hbudget hK hsec
  rw [buildAggBars_eq, hbars, hdiags]
  constructor
  · rw [List.map_map, ← hsecs]
    exact List.map_congr_left fun r hr => (hrows r hr).1
  · rw [List.forall₂_map_left_iff, List.forall₂_map_right_iff]
    exact List.forall₂_same.2 fun r hr => (hrows r hr).2

/-- Survivors and dropped trades, read second by second, are the eligible trades. -/
lemma flatMap_seconds_perm (hbudget : ∀ ms ∈ p.staleRecvLagMs, 0 < ms) :
    ((seconds p consolidated).flatMap fun sec =>
        keptIn p consolidated sec ++ droppedIn p consolidated sec).Perm
      (consolidated.filter fun t => decide (Eligible p t)) := by
  have hadmitted : consolidated.filter (admits p) =
      consolidated.filter fun t => decide (Eligible p t) := by
    refine List.filter_congr fun t _ => ?_
    simpa using (Bool.eq_iff_iff).2 (by simpa using admits_iff_eligible hbudget t)
  -- Each bucket is one second's eligible trades, and bucketing only rearranges the list.
  have hbuckets := flatMap_sortedKeys_perm Trade.second (consolidated.filter (admits p))
  have hsecond : ∀ sec, (consolidated.filter (admits p)).filter
      (fun t => decide (t.second = sec)) = eligibleIn p consolidated sec := by
    intro sec
    rw [← secondTrades_eq_eligibleIn hbudget, ← getD_bySec, getD_bucket]
  simp only [hsecond] at hbuckets
  rw [← hadmitted]
  refine List.Perm.trans ?_ hbuckets
  apply List.Perm.flatMap_left
  intro sec _
  exact keptIn_append_droppedIn_perm hbudget

/-- One bar per traded second, and every trade accounted for. -/
theorem buildAggBars_accounting (p : AggParams) (nowNs : Int) (consolidated : List Trade)
    (hbudget : ∀ ms ∈ p.staleRecvLagMs, 0 < ms) (hK : 1 ≤ p.madK * madToSigma) :
    ((buildAggBars p nowNs consolidated).1.map Bar.tsNs).Pairwise (· < ·) ∧
      (∀ b ∈ (buildAggBars p nowNs consolidated).1, b.tsNs % nsPerSec = 0) ∧
      (∀ sec, (∃ b ∈ (buildAggBars p nowNs consolidated).1, b.tsNs = sec) ↔
        ∃ t ∈ consolidated, Eligible p t ∧ t.second = sec) ∧
      (∀ sec, (keptIn p consolidated sec).Sublist (eligibleIn p consolidated sec) ∧
        (eligibleIn p consolidated sec).length ≤ 2 * (keptIn p consolidated sec).length) ∧
      List.Forall₂ (Accounted p consolidated) (buildAggBars p nowNs consolidated).1
        (buildAggBars p nowNs consolidated).2 ∧
      consolidated.Perm
        (consolidated.filter (fun t => !decide (Eligible p t)) ++
          (buildAggBars p nowNs consolidated).1.flatMap fun b =>
            keptIn p consolidated b.tsNs ++ droppedIn p consolidated b.tsNs) := by
  have hrows : (buildAggBars p nowNs consolidated).1.map Bar.tsNs = seconds p consolidated ∧
      List.Forall₂ (Accounted p consolidated) (buildAggBars p nowNs consolidated).1
        (buildAggBars p nowNs consolidated).2 := buildAggBars_rows nowNs hbudget hK
  obtain ⟨hts, hpairs⟩ := hrows
  have hmem : ∀ sec, (∃ b ∈ (buildAggBars p nowNs consolidated).1, b.tsNs = sec) ↔
      sec ∈ seconds p consolidated := by
    intro sec
    rw [← hts, List.mem_map]
  have hkeptSub : ∀ sec, (keptIn p consolidated sec).Sublist (eligibleIn p consolidated sec) := by
    intro sec
    rw [← secondTrades_eq_eligibleIn hbudget]
    exact keptIn_sublist
  have hhalf : ∀ sec, (eligibleIn p consolidated sec).length ≤
      2 * (keptIn p consolidated sec).length := by
    intro sec
    rw [← secondTrades_eq_eligibleIn hbudget]
    exact length_le_two_mul_kept _ hK
  -- The seconds of the bars are the seconds of the loop; everything else is per second.
  refine ⟨?_, ?_, ?_, fun sec => ⟨hkeptSub sec, hhalf sec⟩, hpairs, ?_⟩
  · rw [hts]
    exact (Dict.sortedKeys_sortedLT _).pairwise
  · intro b hb
    obtain ⟨t, _, _, hsec⟩ := mem_seconds_iff.1 ((hmem b.tsNs).1 ⟨b, hb, rfl⟩)
    rw [← hsec]
    exact secondOf_emod t.tsNs
  · intro sec
    rw [hmem sec, mem_seconds_iff]
    simp only [admits_iff_eligible hbudget]
  · have hbars : ((buildAggBars p nowNs consolidated).1.flatMap fun b =>
        keptIn p consolidated b.tsNs ++ droppedIn p consolidated b.tsNs) =
        (seconds p consolidated).flatMap fun sec =>
          keptIn p consolidated sec ++ droppedIn p consolidated sec := by
      rw [← hts, List.flatMap_map]
    rw [hbars]
    have hsplit := List.filter_append_perm (fun t => decide (Eligible p t)) consolidated
    exact ((List.Perm.append_left _ (flatMap_seconds_perm hbudget)).trans
      (List.perm_append_comm.trans hsplit)).symm

/-- Two seconds: in the first a print is far off and one is stale, in the second there is only one. -/
def twoSecondsTape : List Trade :=
  [{ tsNs := 1100000000, venue := some "kraken", price := 100, size := some 2 },
    { tsNs := 1200000000, venue := some "okx", price := 101, size := some 1 },
    { tsNs := 1300000000, venue := some "gemini", price := 200, size := some 1 },
    { tsNs := 1400000000, recvNs := some 9000000000, venue := some "okx", price := 100
      size := some 4 },
    { tsNs := 2500000000, venue := some "kraken", price := 100, size := some 3 }]

theorem buildAggBars_accounting_two_seconds :
    let p : AggParams := { symbol := "BTC-USD", staleRecvLagMs := some 5000 }
    (droppedIn p twoSecondsTape 1000000000).map Trade.venue = [some "gemini"] ∧
      (∃ b ∈ (buildAggBars p 0 twoSecondsTape).1, b.tsNs = 2000000000) ∧
      twoSecondsTape.Perm
        (twoSecondsTape.filter (fun t => !decide (Eligible p t)) ++
          (buildAggBars p 0 twoSecondsTape).1.flatMap fun b =>
            keptIn p twoSecondsTape b.tsNs ++ droppedIn p twoSecondsTape b.tsNs) := by
  intro p
  have hbudget : ∀ ms ∈ some (5000 : ℚ), 0 < ms := by decide +kernel
  have hK : 1 ≤ (5 : ℚ) * madToSigma := by decide +kernel
  rcases buildAggBars_accounting p 0 twoSecondsTape hbudget hK with
    ⟨_, _, hseconds, _, _, hperm⟩
  refine ⟨by decide +kernel, (hseconds 2000000000).2 ?_, hperm⟩
  exact ⟨twoSecondsTape.getLast (by decide), List.getLast_mem _, by decide +kernel⟩

end Accounting

end CryptoData
