import CryptoData.Core.Aggregate
import CryptoData.Core.Consolidated.Build
import CryptoData.Foundation.Candle

/-!
# Summary — one-second bars as candles of their trades

Both builders make bars that summarise trades: a bar of `barsFromTrades` summarises the trades of
its second (`summarises_of_mem_barsFromTrades`), a bar of `buildAggBars` those that survive in its
second (`summarises_of_mem_buildAggBars`).
-/

namespace CryptoData

open Foundation

/-- The prices and sums of a bar, without its labels. -/
def Bar.candle (b : Bar) : Candle ℚ :=
  ⟨b.open, b.high, b.low, b.close, b.volume, b.vwap, b.trades⟩

/-! ## Bars of one venue -/

section Venue

variable (symbol venue : String) (nowNs : Int)

open BarFold

/-- What touching an open bar with trades does to its prices and its count. -/
lemma foldl_touch_prices :
    ∀ (trades : List Trade) (b : Bar),
      (trades.foldl touch b).open = b.open ∧
      (trades.foldl touch b).trades = b.trades + trades.length ∧
      (trades.foldl touch b).close = ((trades.getLast?).map Trade.price).getD b.close ∧
      (b.high ≤ (trades.foldl touch b).high ∧
        (∀ t ∈ trades, t.price ≤ (trades.foldl touch b).high) ∧
        ((trades.foldl touch b).high = b.high ∨
          ∃ t ∈ trades, (trades.foldl touch b).high = t.price)) ∧
      ((trades.foldl touch b).low ≤ b.low ∧
        (∀ t ∈ trades, (trades.foldl touch b).low ≤ t.price) ∧
        ((trades.foldl touch b).low = b.low ∨
          ∃ t ∈ trades, (trades.foldl touch b).low = t.price))
  | [], b => by simp
  | t :: trades, b => by
      rcases foldl_touch_prices trades (touch b t) with
        ⟨hopen, hcount, hclose, ⟨hhigh, hle, htop⟩, hlow, hge, hbottom⟩
      rw [List.foldl_cons]
      refine ⟨hopen, ?_, ?_, ⟨?_, ?_, ?_⟩, ?_, ?_, ?_⟩
      · rw [hcount, List.length_cons]
        simp only [touch]
        omega
      · rw [hclose]
        cases trades with
        | nil => rfl
        | cons u us => simp [List.getLast?_eq_some_getLast]
      · exact le_trans (le_max_left b.high t.price) hhigh
      · intro u hu
        rcases List.mem_cons.1 hu with rfl | hu
        · exact le_trans (le_max_right b.high u.price) hhigh
        · exact hle u hu
      · rcases htop with heq | ⟨u, hu, heq⟩
        · rcases max_choice b.high t.price with hmax | hmax
          · exact Or.inl (heq.trans hmax)
          · exact Or.inr ⟨t, List.mem_cons_self, heq.trans hmax⟩
        · exact Or.inr ⟨u, List.mem_cons_of_mem t hu, heq⟩
      · exact le_trans hlow (min_le_left b.low t.price)
      · intro u hu
        rcases List.mem_cons.1 hu with rfl | hu
        · exact le_trans hlow (min_le_right b.low u.price)
        · exact hge u hu
      · rcases hbottom with heq | ⟨u, hu, heq⟩
        · rcases min_choice b.low t.price with hmin | hmin
          · exact Or.inl (heq.trans hmin)
          · exact Or.inr ⟨t, List.mem_cons_self, heq.trans hmin⟩
        · exact Or.inr ⟨u, List.mem_cons_of_mem t hu, heq⟩

/-- The bar of a run of trades summarises the run. -/
lemma summarises_secondBar (t : Trade) (rest : List Trade) :
    Summarises Trade.price Trade.qty (secondBar symbol venue nowNs t rest).candle (t :: rest) := by
  rcases foldl_touch_prices (t :: rest) (openBar symbol venue nowNs t) with
    ⟨hopen, hcount, hclose, ⟨_, hle, htop⟩, _, hge, hbottom⟩
  have hlast : ∃ u ∈ (t :: rest).getLast?,
      ((t :: rest).foldl touch (openBar symbol venue nowNs t)).close = u.price := by
    refine ⟨_, List.getLast?_eq_some_getLast (List.cons_ne_nil t rest), ?_⟩
    rw [hclose, List.getLast?_eq_some_getLast (List.cons_ne_nil t rest)]
    rfl
  exact
    { «open» := ⟨t, rfl, hopen⟩
      close := hlast
      high := by
        -- The bar is opened at the first price, which the run holds.
        rcases htop with heq | hmem
        · exact ⟨t, List.mem_cons_self, heq⟩
        · exact hmem
      le_high := hle
      low := by
        rcases hbottom with heq | hmem
        · exact ⟨t, List.mem_cons_self, heq⟩
        · exact hmem
      low_le := hge
      volume := rfl
      vwap := rfl
      count := by
        have hzero : (openBar symbol venue nowNs t).trades = 0 := rfl
        rw [hzero, Nat.zero_add] at hcount
        exact hcount }

/-- On sorted trades, every bar summarises the trades of its second. -/
theorem summarises_of_mem_barsFromTrades (trades : List Trade) :
    (trades.Pairwise fun x y => x.tsNs ≤ y.tsNs) →
      ∀ b ∈ barsFromTrades symbol venue nowNs trades,
        Summarises Trade.price Trade.qty b.candle
          (trades.filter fun t => decide (t.second = b.tsNs)) := by
  induction trades using secondRuns_induction with
  | nil =>
      intro _ b hb
      cases hb
  | cons t trades ih =>
      intro hsorted b hb
      have hlater := fun u => second_lt_of_mem_dropWhile (u := u) hsorted
      have hsplit : t :: trades = (t :: trades.takeWhile fun u => decide (u.second = t.second)) ++
          trades.dropWhile fun u => decide (u.second = t.second) := by
        rw [List.cons_append, List.takeWhile_append_dropWhile]
      have hrun : ∀ u ∈ t :: trades.takeWhile fun u => decide (u.second = t.second),
          u.second = t.second := by
        intro u hu
        rcases List.mem_cons.1 hu with rfl | hu
        · rfl
        · simpa using List.mem_takeWhile_imp hu
      rw [barsFromTrades_cons] at hb
      rw [hsplit, List.filter_append]
      rcases List.mem_cons.1 hb with rfl | hb
      -- The first bar: its second is the leading run.
      · have hts : (secondBar symbol venue nowNs t
            (trades.takeWhile fun u => decide (u.second = t.second))).tsNs = t.second :=
          (secondBar_labels symbol venue nowNs t _).1
        rw [hts, List.filter_eq_self.2 (by simpa using hrun), List.filter_eq_nil_iff.2 ?_,
          List.append_nil]
        · exact summarises_secondBar symbol venue nowNs t _
        · intro u hu
          simpa using (hlater u hu).ne'
      · have htail := ih ((List.pairwise_cons.1 hsorted).2.sublist (List.dropWhile_sublist _)) b hb
        rcases labels_of_mem_barsFromTrades symbol venue nowNs _ b hb with ⟨_, _, u, hu, hbu⟩
        rw [List.filter_eq_nil_iff.2 ?_, List.nil_append]
        · exact htail
        · intro v hv
          rw [hrun v hv, hbu]
          simpa using (hlater u hu).ne

/-- The seconds of the bars are those of the trades. -/
theorem exists_mem_barsFromTrades_iff {trades : List Trade} {sec : Int}
    (hsorted : trades.Pairwise fun x y => x.tsNs ≤ y.tsNs) :
    (∃ b ∈ barsFromTrades symbol venue nowNs trades, b.tsNs = sec) ↔
      ∃ t ∈ trades, t.second = sec := by
  constructor
  · intro h
    rcases h with ⟨b, hb, rfl⟩
    rcases labels_of_mem_barsFromTrades symbol venue nowNs trades b hb with ⟨_, _, t, ht, hts⟩
    exact ⟨t, ht, hts.symm⟩
  · revert hsorted
    induction trades using secondRuns_induction with
    | nil =>
        intro _ h
        rcases h with ⟨t, ht, _⟩
        cases ht
    | cons t trades ih =>
        intro hsorted h
        rcases h with ⟨u, hu, hsec⟩
        rw [barsFromTrades_cons]
        by_cases hfirst : u.second = t.second
        · refine ⟨_, List.mem_cons_self, ?_⟩
          rw [(secondBar_labels symbol venue nowNs t _).1, ← hfirst, hsec]
        · have hrest : u ∈ trades.dropWhile fun v => decide (v.second = t.second) := by
            have hu' : u ∈ trades := by
              rcases List.mem_cons.1 hu with rfl | hu
              · exact absurd rfl hfirst
              · exact hu
            rw [← List.takeWhile_append_dropWhile (p := fun v => decide (v.second = t.second))
              (l := trades)] at hu'
            rcases List.mem_append.1 hu' with hrun | hrest
            · exact absurd (by simpa using List.mem_takeWhile_imp hrun) hfirst
            · exact hrest
          rcases ih ((List.pairwise_cons.1 hsorted).2.sublist (List.dropWhile_sublist _))
            ⟨u, hrest, hsec⟩ with ⟨b, hb, hts⟩
          exact ⟨b, List.mem_cons_of_mem _ hb, hts⟩

end Venue

/-! ## Bars of the tape -/

section Tape

variable {p : AggParams} {nowNs : Int} {consolidated : List Trade}

lemma summarises_of_rollUp {venuesIndex : Dict String ℕ} {sec : Int} {kept : List Trade} {b : Bar}
    (h : rollUp p venuesIndex nowNs sec kept = some b) :
    Summarises Trade.price Trade.qty b.candle kept := by
  cases kept with
  | nil => cases h
  | cons first rest =>
      by_cases hvolume : ((first :: rest).map Trade.qty).sum ≤ 0
      · simp only [rollUp, hvolume, if_true] at h
        cases h
      · simp only [rollUp, hvolume, if_false, Option.some.injEq] at h
        subst h
        exact
          { «open» := ⟨first, rfl, rfl⟩
            close := ⟨_, List.getLast?_eq_some_getLast (List.cons_ne_nil first rest), rfl⟩
            high := exists_max_map Trade.price (by simp)
            le_high := fun t ht => List.le_max_of_mem (List.mem_map_of_mem ht)
            low := exists_min_map Trade.price (by simp)
            low_le := fun t ht => List.min_le_of_mem (List.mem_map_of_mem ht)
            volume := rfl
            vwap := (if_pos (not_le.1 hvolume)).symm
            count := rfl }

/-- Every bar of the tape summarises the trades that survive in its second. -/
theorem summarises_of_mem_buildAggBars {b : Bar} (hb : b ∈ (buildAggBars p nowNs consolidated).1) :
    Summarises Trade.price Trade.qty b.candle (keptIn p consolidated b.tsNs) := by
  rw [buildAggBars_eq] at hb
  rcases List.mem_filterMap.1 hb with ⟨out, hout, hfst⟩
  rcases List.mem_map.1 hout with ⟨sec, _, rfl⟩
  have hroll : rollUp p (usedIndex p consolidated) nowNs sec (keptIn p consolidated sec) =
      some b := hfst
  have hsec : b.tsNs = sec := by
    rcases rollUp_spec p (usedIndex p consolidated) nowNs sec
      (fun h => sum_qty_pos h) with ⟨_, hnone⟩ | ⟨b', hsome, hspec⟩
    · rw [hnone] at hroll
      cases hroll
    · rw [← Option.some.inj (hsome.symm.trans hroll)]
      exact hspec.tsNs
  rw [hsec]
  exact summarises_of_rollUp hroll

end Tape

end CryptoData
