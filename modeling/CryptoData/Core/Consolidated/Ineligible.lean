import CryptoData.Core.Consolidated.Tape

/-!
# Ineligible — trades that no bar may use

A stream to which trades have been added is a `Woven` list of the old trades and the added ones.
`buildAggBars` reads a stream through the guards of its loop only (`buildAggBars_congr`), and the
diagnostics count every trade that passes them (`sum_nRaw`).

So added trades that are not eligible leave the tape alone exactly if no guard lets them through.
A lag budget of zero is read as no budget, and then a late print goes through
(`ineligible_inert_iff`).
-/

namespace CryptoData

open Foundation

/-! ## Woven lists -/

section Weave

variable {α : Type*}

/-- `ys` holds the elements of `xs` and those of `zs`, both in their order. -/
inductive Woven : List α → List α → List α → Prop
  | nil : Woven [] [] []
  | kept {x : α} {xs zs ys : List α} : Woven xs zs ys → Woven (x :: xs) zs (x :: ys)
  | added {z : α} {xs zs ys : List α} : Woven xs zs ys → Woven xs (z :: zs) (z :: ys)

namespace Woven

variable {xs zs ys : List α}

/-- Added elements that fail a test are not seen behind it. -/
theorem filter_eq {p : α → Bool} (h : Woven xs zs ys) (hfail : ∀ z ∈ zs, p z = false) :
    ys.filter p = xs.filter p := by
  induction h with
  | nil => rfl
  | @kept x xs zs ys _ ih =>
      rw [List.filter_cons, List.filter_cons, ih hfail]
  | @added z xs zs ys _ ih =>
      have hz : ¬ p z = true := by
        rw [hfail z List.mem_cons_self]
        exact Bool.false_ne_true
      rw [List.filter_cons_of_neg hz]
      exact ih fun y hy => hfail y (List.mem_cons_of_mem z hy)

theorem length_filter (p : α → Bool) (h : Woven xs zs ys) :
    (ys.filter p).length = (xs.filter p).length + (zs.filter p).length := by
  induction h with
  | nil => rfl
  | @kept x xs zs ys _ ih =>
      by_cases hx : p x = true
      · rw [List.filter_cons_of_pos hx, List.filter_cons_of_pos hx, List.length_cons,
          List.length_cons, ih, Nat.add_right_comm]
      · rw [List.filter_cons_of_neg hx, List.filter_cons_of_neg hx, ih]
  | @added z xs zs ys _ ih =>
      by_cases hz : p z = true
      · rw [List.filter_cons_of_pos hz, List.filter_cons_of_pos hz, List.length_cons,
          List.length_cons, ih, Nat.add_assoc]
      · rw [List.filter_cons_of_neg hz, List.filter_cons_of_neg hz, ih]

end Woven

end Weave

/-! ## What the tape depends on -/

section Tape

variable {p : AggParams} {nowNs : Int} {xs ys : List Trade}

/-- The trades that the guards let through decide everything. -/
theorem buildAggBars_congr (h : ys.filter (admits p) = xs.filter (admits p)) :
    buildAggBars p nowNs ys = buildAggBars p nowNs xs := by
  simp only [buildAggBars, h]

/-- Each second of the loop writes an entry that counts its trades. -/
lemma aggSecond_nRaw (p : AggParams) (nowNs : Int) (xs : List Trade)
    (venuesIndex : Dict String ℕ) (sec : Int) :
    ∃ d, (aggSecond p venuesIndex nowNs sec (secondTrades p xs sec)).2 = some d ∧
      d.nRaw = (secondTrades p xs sec).length := by
  by_cases hkept : keptIn p xs sec = []
  · -- A second without survivors writes its entry before the `continue`.
    have hempty : (robustFilter (secondTrades p xs sec) p.madK p.minVenuesForFilter).1.isEmpty =
        true := List.isEmpty_iff.2 hkept
    refine ⟨_, if_pos hempty, rfl⟩
  · rcases diagnose_spec p sec (secondTrades p xs sec)
        (robustFilter (secondTrades p xs sec) p.madK p.minVenuesForFilter).2 hkept
        (sum_qty_pos hkept) with ⟨d, hd, _, hraw, _⟩
    exact ⟨d, hd, hraw⟩

lemma sum_nRaw_seconds (venuesIndex : Dict String ℕ) :
    ∀ secs : List Int,
      (((secs.map fun sec => aggSecond p venuesIndex nowNs sec (secondTrades p xs sec)).filterMap
          Prod.snd).map Diag.nRaw).sum =
        (secs.flatMap fun sec => secondTrades p xs sec).length
  | [] => rfl
  | sec :: secs => by
      rcases aggSecond_nRaw p nowNs xs venuesIndex sec with ⟨d, hd, hraw⟩
      rw [List.map_cons, List.filterMap_cons_some hd, List.map_cons, List.sum_cons,
        sum_nRaw_seconds venuesIndex secs, List.flatMap_cons, List.length_append, hraw]

/-- The diagnostics count every trade that the guards let through. -/
theorem sum_nRaw :
    ((buildAggBars p nowNs xs).2.map Diag.nRaw).sum = (xs.filter (admits p)).length := by
  -- Every admitted trade is in the bucket of one second of the loop.
  have hbuckets := flatMap_sortedKeys_perm Trade.second (xs.filter (admits p))
  have hsecond : ∀ sec, (xs.filter (admits p)).filter (fun t => decide (t.second = sec)) =
      secondTrades p xs sec := by
    intro sec
    rw [← getD_bySec, getD_bucket]
  simp only [hsecond] at hbuckets
  calc
    ((buildAggBars p nowNs xs).2.map Diag.nRaw).sum
        = ((seconds p xs).flatMap fun sec => secondTrades p xs sec).length := by
          rw [buildAggBars_eq]
          exact sum_nRaw_seconds _ _
    _ = (xs.filter (admits p)).length := hbuckets.length_eq

end Tape

/-! ## Ineligible trades -/

/-- The lag gate lets a trade through that the other two guards let through, if the budget is
zero. -/
lemma admits_of_zero_budget {p : AggParams} (hbudget : p.staleRecvLagMs = some 0) {t : Trade} :
    admits p t = true ↔ ¬ (t.venueName ∈ p.excludedVenues ∨ t.qty ≤ 0) := by
  by_cases hvenue : t.venueName ∈ p.excludedVenues
  · simp [admits, hvenue]
  · simp [admits, hvenue, hbudget, staleLagNs]

/-- Added trades that are from an excluded venue, late beyond the budget or without positive size
leave bars and diagnostics unchanged exactly if the budget is not zero, or each of them is from an
excluded venue or without positive size. -/
theorem ineligible_inert_iff {p : AggParams} {ms : ℚ} (hbudget : p.staleRecvLagMs = some ms)
    (hms : 0 ≤ ms) {xs zs ys : List Trade} (hwoven : Woven xs zs ys)
    (hout : ∀ z ∈ zs, ¬ Eligible p z) (now₁ now₂ : Int) :
    ((buildAggBars p now₁ ys).1.map Bar.unstamped = (buildAggBars p now₂ xs).1.map Bar.unstamped ∧
        (buildAggBars p now₁ ys).2 = (buildAggBars p now₂ xs).2) ↔
      (ms ≠ 0 ∨ ∀ z ∈ zs, z.venueName ∈ p.excludedVenues ∨ z.qty ≤ 0) := by
  have hstamp := buildAggBars_unstamped p now₁ now₂ xs
  have hunchanged : (∀ z ∈ zs, admits p z = false) →
      (buildAggBars p now₁ ys).1.map Bar.unstamped = (buildAggBars p now₂ xs).1.map Bar.unstamped ∧
        (buildAggBars p now₁ ys).2 = (buildAggBars p now₂ xs).2 := by
    intro hfail
    rw [buildAggBars_congr (hwoven.filter_eq hfail)]
    exact hstamp
  by_cases hzero : ms = 0
  · subst hzero
    constructor
    · intro hsame
      refine Or.inr ?_
      -- Equal diagnostics count equally many trades, so no added one was let through.
      have hcount : (xs.filter (admits p)).length + (zs.filter (admits p)).length =
          (xs.filter (admits p)).length := by
        calc
          (xs.filter (admits p)).length + (zs.filter (admits p)).length
              = (ys.filter (admits p)).length := (hwoven.length_filter _).symm
          _ = ((buildAggBars p now₁ ys).2.map Diag.nRaw).sum := sum_nRaw.symm
          _ = ((buildAggBars p now₂ xs).2.map Diag.nRaw).sum := by rw [hsame.2]
          _ = (xs.filter (admits p)).length := sum_nRaw
      have hnone : zs.filter (admits p) = [] :=
        List.eq_nil_of_length_eq_zero (Nat.left_eq_add.1 hcount.symm)
      intro z hz
      by_contra hguards
      exact List.filter_eq_nil_iff.1 hnone z hz ((admits_of_zero_budget hbudget).2 hguards)
    · intro hguards
      refine hunchanged ?_
      intro z hz
      rcases hguards with hne | hguards
      · exact absurd rfl hne
      · refine Bool.eq_false_iff.2 ?_
        intro hadmits
        exact (admits_of_zero_budget hbudget).1 hadmits (hguards z hz)
  · -- A positive budget is compared with, and the guards stop whatever is not eligible.
    have hpos : ∀ b ∈ p.staleRecvLagMs, 0 < b := by
      intro b hb
      rw [hbudget] at hb
      exact Option.some.inj hb ▸ lt_of_le_of_ne hms (Ne.symm hzero)
    refine iff_of_true (hunchanged ?_) (Or.inl hzero)
    intro z hz
    refine Bool.eq_false_iff.2 ?_
    intro hadmits
    exact hout z hz ((admits_iff_eligible hpos z).1 hadmits)

/-- A print that arrives three seconds late. -/
def latePrint : Trade :=
  { tsNs := 1500000000, recvNs := some 4500000000, venue := some "okx", price := 900
    size := some 1 }

def timelyPrint : Trade :=
  { tsNs := 1400000000, recvNs := some 1400000000, venue := some "okx", price := 100
    size := some 1 }

def budgeted (ms : ℚ) : AggParams :=
  { symbol := "BTC-USD", staleRecvLagMs := some ms }

/-- With a budget of a second, the late print leaves no trace. -/
theorem ineligible_inert_iff_late_print :
    (buildAggBars (budgeted 1000) 7 [timelyPrint, latePrint]).1.map Bar.unstamped =
        (buildAggBars (budgeted 1000) 8 [timelyPrint]).1.map Bar.unstamped ∧
      (buildAggBars (budgeted 1000) 7 [timelyPrint, latePrint]).2 =
        (buildAggBars (budgeted 1000) 8 [timelyPrint]).2 := by
  have hwoven : Woven [timelyPrint] [latePrint] [timelyPrint, latePrint] :=
    Woven.kept (Woven.added Woven.nil)
  have hout : ∀ z ∈ [latePrint], ¬ Eligible (budgeted 1000) z := by decide +kernel
  have hms : (0 : ℚ) ≤ 1000 := by decide +kernel
  have hne : (1000 : ℚ) ≠ 0 := by decide +kernel
  exact (ineligible_inert_iff rfl hms hwoven hout 7 8).2 (Or.inl hne)

/-- With a budget of zero, the late print closes the bar. -/
theorem zero_budget_keeps_late_print :
    Woven [timelyPrint] [latePrint] [timelyPrint, latePrint] ∧
      ¬ Eligible (budgeted 0) latePrint ∧
      (buildAggBars (budgeted 0) 7 [timelyPrint, latePrint]).1.map (fun b => b.close) = [900] ∧
      (buildAggBars (budgeted 0) 7 [timelyPrint]).1.map (fun b => b.close) = [100] :=
  ⟨Woven.kept (Woven.added Woven.nil), by decide +kernel, by decide +kernel, by decide +kernel⟩

end CryptoData
