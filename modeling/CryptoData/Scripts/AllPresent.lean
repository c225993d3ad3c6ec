import CryptoData.Scripts.BuildRows

/-!
# AllPresent — building every day that has raw trades

`build_bars_1s --all-present` collects the (symbol, date) pairs of the directories under `trades`
and runs `build_for` on each, in sorted order.  The bars of a list of trades hold what the trades
hold (`barsFromTrades_amount`).  So the run puts into the directory of every day and venue bars of
the trade count and the volume of the raw trades there, and the totals that it prints are the number
of bars it has written (`build_all_present_spec`).
-/

namespace CryptoData

open Foundation

/-! ## The script -/

/-- `_all_present_combos()`, for the date directories that the globs find. -/
def allPresentCombos (found : List (String × String)) : List (String × String) :=
  found.dedup.insertionSort fun a b => toLex a ≤ toLex b

/-- The command line. -/
structure BuildArgs where
  symbol : Option String := none
  date : Option String := none
  allPresent : Bool := false

/-- The pairs to build; `none` stands for `p.error`. -/
def BuildArgs.combos (args : BuildArgs) (found : List (String × String)) :
    Option (List (String × String)) :=
  if args.allPresent then
    some (allPresentCombos found)
  else
    match args.symbol, args.date with
    | some symbol, some date =>
        -- Empty texts do not count as given.
        if symbol = "" ∨ date = "" then none else some [(symbol, date)]
    | _, _ => none

/-- `for symbol, date in combos`, with `total_pv` and `total_agg`. -/
def buildCombos (fs : Listing) (cfg : AggConfig) :
    List (String × String) → World → Option (World × ℕ × ℕ)
  | [], w => some (w, 0, 0)
  | (symbol, date) :: combos, w => do
      let built ← buildFor fs cfg symbol date w
      let rest ← buildCombos fs cfg combos built.1
      some (rest.1, built.2.perVenueBars + rest.2.1, built.2.aggBars + rest.2.2)

/-- `main()`. -/
def buildMain (fs : Listing) (cfg : AggConfig) (found : List (String × String)) (args : BuildArgs)
    (w : World) : Option (World × ℕ × ℕ) := do
  let combos ← args.combos found
  buildCombos fs cfg combos w

/-! ## Amounts -/

/-- A count of trades and a volume. -/
abbrev Amount := ℕ × ℚ

def Bar.amount (b : Bar) : Amount :=
  (b.trades, b.volume)

def Trade.amount (t : Trade) : Amount :=
  (1, t.qty)

/-- What the bars in a directory amount to. -/
def booked (bars : Multiset (Partition × Bar)) (dir : Partition) : Amount :=
  ((bars.filter fun row => row.1 = dir).map fun row => row.2.amount).sum

/-- What the raw trades in a directory amount to. -/
def stored (trades : Multiset (Partition × Trade)) (dir : Partition) : Amount :=
  ((trades.filter fun row => row.1 = dir).map fun row => row.2.amount).sum

lemma booked_add (bars bars' : Multiset (Partition × Bar)) (dir : Partition) :
    booked (bars + bars') dir = booked bars dir + booked bars' dir := by
  rw [booked, Multiset.filter_add, Multiset.map_add, Multiset.sum_add]
  rfl

lemma booked_barFiles (symbol date venue : String) (bars : List Bar) (dir : Partition) :
    booked (barFiles symbol date venue bars) dir =
      if barDir symbol date venue = dir then (bars.map Bar.amount).sum else 0 := by
  have hmem : ∀ row ∈ barFiles symbol date venue bars, row.1 = barDir symbol date venue := by
    intro row hrow
    rcases List.mem_map.1 (Multiset.mem_coe.1 hrow) with ⟨b, _, rfl⟩
    rfl
  by_cases hdir : barDir symbol date venue = dir
  · rw [if_pos hdir, booked, Multiset.filter_eq_self.2 fun row hrow => (hmem row hrow).trans hdir,
      barFiles, Multiset.map_coe, List.map_map, Multiset.sum_coe]
    rfl
  · rw [if_neg hdir, booked, Multiset.filter_eq_nil.2 fun row hrow heq =>
      hdir ((hmem row hrow).symm.trans heq)]
    rfl

/-! ## The bars of one venue -/

section Venue

variable (symbol venue : String) (nowNs : Int)

lemma foldl_touch_trades (trades : List Trade) :
    ∀ b : Bar, (trades.foldl BarFold.touch b).trades = b.trades + trades.length := by
  induction trades with
  | nil => exact fun _ => rfl
  | cons t trades ih =>
      intro b
      rw [List.foldl_cons, ih, List.length_cons, BarFold.touch, add_assoc, add_comm 1]

lemma sum_amount (trades : List Trade) :
    (trades.map Trade.amount).sum = (trades.length, (trades.map Trade.qty).sum) := by
  induction trades with
  | nil => rfl
  | cons t trades ih =>
      rw [List.map_cons, List.sum_cons, ih, List.map_cons, List.sum_cons, List.length_cons,
        add_comm trades.length 1]
      rfl

lemma secondBar_amount (t : Trade) (rest : List Trade) :
    (secondBar symbol venue nowNs t rest).amount = ((t :: rest).map Trade.amount).sum := by
  have hcount := foldl_touch_trades (t :: rest) (BarFold.openBar symbol venue nowNs t)
  rw [sum_amount]
  exact Prod.ext (hcount.trans (zero_add _)) rfl

/-- Bars hold what the trades hold. -/
lemma barsFromTrades_amount (trades : List Trade) :
    ((barsFromTrades symbol venue nowNs trades).map Bar.amount).sum =
      (trades.map Trade.amount).sum := by
  induction trades using secondRuns_induction with
  | nil => rfl
  | cons t trades ih =>
      rw [barsFromTrades_cons, List.map_cons, List.sum_cons, ih, secondBar_amount, ← List.sum_append,
        ← List.map_append, List.cons_append, List.takeWhile_append_dropWhile]

end Venue

/-! ## One day -/

section Day

variable {symbol date venue : String}

/-- A day of a venue is what lies in its directory. -/
lemma dayRows_amount (s : Store Trade) (symbol date venue : String) :
    ((dayRows s symbol date venue).map Trade.amount).sum =
      stored s.located ⟨"trades", symbol, venue, date⟩ := by
  let dir : Partition := ⟨"trades", symbol, venue, date⟩
  have hperm : (dayRows s symbol date venue).Perm
      (s.readNames dir (s.sortedNames dir fun _ => true)) := List.perm_insertionSort _ _
  have hrows : ((s.readNames dir (s.sortedNames dir fun _ => true)).map fun r => (dir, r) :
      Multiset (Partition × Trade)) = s.located.filter fun row => row.1 = dir :=
    coe_readNames_all s dir
  rw [(hperm.map Trade.amount).sum_eq, stored, ← hrows, Multiset.map_coe, List.map_map,
    Multiset.sum_coe]
  rfl

/-- The dictionary of a build has the trades of its day. -/
lemma collected_amount (fs : Listing) (s : Store Trade) (symbol date venue : String) :
    ((collectTrades fs s symbol date).get? venue).elim 0
        (fun trades => (trades.map Trade.amount).sum) =
      stored s.located ⟨"trades", symbol, venue, date⟩ := by
  rw [get?_collectTrades, ← dayRows_amount]
  by_cases hrows : dayRows s symbol date venue = []
  · rw [if_neg (not_not.2 hrows), hrows]
    rfl
  · rw [if_pos hrows]
    rfl

/-- Each venue's bars go to the directory of the venue. -/
lemma booked_venues (perVenueTrades : Dict String (List Trade)) (stamp : String → Int)
    (symbol date venue : String) :
    booked (perVenueTrades.entries.map fun e => barFiles symbol date e.1
        (barsFromTrades symbol e.1 (stamp e.1) e.2)).sum (barDir symbol date venue) =
      (perVenueTrades.get? venue).elim 0 fun trades => (trades.map Trade.amount).sum := by
  have hsum : ∀ es : List (String × List Trade),
      booked (es.map fun e => barFiles symbol date e.1
          (barsFromTrades symbol e.1 (stamp e.1) e.2)).sum (barDir symbol date venue) =
        (es.map fun e => if e.1 = venue then (e.2.map Trade.amount).sum else 0).sum := by
    intro es
    induction es with
    | nil => rfl
    | cons e es ih =>
        rw [List.map_cons, List.sum_cons, booked_add, ih, List.map_cons, List.sum_cons,
          booked_barFiles, barsFromTrades_amount]
        refine congrArg (· + _) (if_congr ?_ rfl rfl)
        exact ⟨fun h => congrArg Partition.venue h, fun h => congrArg (barDir symbol date) h⟩
  have hmeasure := perVenueTrades.measure_erase venue
    fun v trades => if v = venue then (trades.map Trade.amount).sum else (0 : Amount)
  have hothers : (perVenueTrades.erase venue).measure
      (fun v trades => if v = venue then (trades.map Trade.amount).sum else (0 : Amount)) = 0 := by
    refine List.sum_eq_zero ?_
    intro x hx
    rcases List.mem_map.1 hx with ⟨e, he, rfl⟩
    exact if_neg (Dict.mem_erase_iff.1 he).1
  rw [hsum]
  refine hmeasure.trans ?_
  rw [hothers, add_zero]
  cases perVenueTrades.get? venue with
  | none => rfl
  | some trades => exact if_pos rfl

/-- Nothing makes no tape. -/
lemma ne_nil_of_mem_tape {cfg : AggConfig} {nowNs : Int} {perVenueTrades : Dict String (List Trade)}
    {tape : Tape} (h : consolidate cfg symbol nowNs perVenueTrades = some tape) {b : Bar}
    (hb : b ∈ tape.aggBars) : perVenueTrades.entries ≠ [] := by
  intro hnil
  have hspot : (spotTrades perVenueTrades).entries.isEmpty = true := by
    simp [spotTrades, Dict.filter, hnil]
  have hempty : consolidate cfg symbol nowNs perVenueTrades = some ⟨[], [], []⟩ := by
    simp [consolidate, hspot]
  cases hempty.symm.trans h
  exact absurd hb List.not_mem_nil

/-- What a build adds. -/
structure BuiltDay (w w' : World) (symbol date : String) (added : Multiset (Partition × Bar)) :
    Prop where
  timely : w'.Timely
  trades : w'.trades = w.trades
  located : w'.bars.located = added + w.bars.located
  -- A day without trades gets no bars.
  dated : ∀ row ∈ added, HasTrades w.trades symbol date ∧
    ∃ venue, row.1 = barDir symbol date venue
  own : ∀ venue, venue ≠ "agg" → booked added (barDir symbol date venue) =
    stored w.trades.located ⟨"trades", symbol, venue, date⟩
  elsewhere : ∀ dir, (∀ venue, dir ≠ barDir symbol date venue) → booked added dir = 0

lemma buildFor_builtDay (fs : Listing) (cfg : AggConfig) (symbol date : String) {w : World}
    (h : w.Timely) :
    ∃ w' report added, buildFor fs cfg symbol date w = some (w', report) ∧
      BuiltDay w w' symbol date added := by
  rcases buildFor_located fs cfg symbol date h with
    ⟨w', report, tape, nowNs, stamp, hrun, htape, htimely, htrades, hlocated⟩
  refine ⟨w', report, _, hrun, htimely, htrades, hlocated.trans (add_assoc _ _ _).symm, ?_, ?_, ?_⟩
  · rintro ⟨dir, b⟩ hrow
    rcases Multiset.mem_add.1 hrow with hagg | hvenue
    · rcases mem_barFiles_iff.1 hagg with ⟨hdir, hb⟩
      refine ⟨collectTrades_ne_nil_iff.1 (ne_nil_of_mem_tape htape hb), "agg", hdir⟩
    · rcases (mem_sum_barFiles_iff _).1 hvenue with ⟨e, he, hdir, _⟩
      exact ⟨collectTrades_ne_nil_iff.1 (List.ne_nil_of_mem he), e.1, hdir⟩
  · intro venue hagg
    have hne : barDir symbol date "agg" ≠ barDir symbol date venue :=
      fun heq => hagg (congrArg Partition.venue heq).symm
    rw [booked_add, booked_barFiles, if_neg hne, zero_add, booked_venues, collected_amount]
  · intro dir hdir
    have hsum : ∀ es : List (String × List Trade),
        booked (es.map fun e => barFiles symbol date e.1
          (barsFromTrades symbol e.1 (stamp e.1) e.2)).sum dir = 0 := by
      intro es
      induction es with
      | nil => rfl
      | cons e es ih =>
          rw [List.map_cons, List.sum_cons, booked_add, ih, booked_barFiles,
            if_neg fun heq => hdir e.1 heq.symm, add_zero]
    rw [booked_add, hsum, booked_barFiles, if_neg fun heq => hdir "agg" heq.symm, add_zero]

end Day

/-! ## The counts -/

section Counts

lemma buildVenue_count (symbol date : String) {acc : World × ℕ} (h : acc.1.Timely)
    (e : String × List Trade) :
    (buildVenue symbol date acc e).1.bars.located.card + acc.2 =
      acc.1.bars.located.card + (buildVenue symbol date acc e).2 := by
  have hcount : (buildVenue symbol date acc e).2 =
      acc.2 + (barsFromTrades symbol e.1 acc.1.now e.2).length := by
    rw [buildVenue]
    cases hbars : barsFromTrades symbol e.1 acc.1.now e.2 with
    | nil => rfl
    | cons b bars => rfl
  rw [(buildVenue_located symbol date h e).2.2, hcount, Multiset.card_add, barFiles,
    Multiset.coe_card, List.length_map, add_comm _ (acc.1.bars.located.card), add_assoc,
    add_comm acc.2]

lemma buildVenues_count (symbol date : String) :
    ∀ (entries : List (String × List Trade)) {acc : World × ℕ}, acc.1.Timely →
      (entries.foldl (buildVenue symbol date) acc).1.bars.located.card + acc.2 =
        acc.1.bars.located.card + (entries.foldl (buildVenue symbol date) acc).2
  | [], _, _ => rfl
  | e :: entries, acc, h => by
      have hfirst := buildVenue_count symbol date h e
      have hrest := buildVenues_count symbol date entries (buildVenue_located symbol date h e).1
      rw [List.foldl_cons]
      omega

lemma buildAgg_count {cfg : AggConfig} {symbol date : String}
    {perVenueTrades : Dict String (List Trade)} {w w' : World} {diagnostics : BuildDiagnostics}
    (h : w.Timely) (hrun : buildAgg cfg symbol date perVenueTrades w = some (w', diagnostics)) :
    w'.bars.located.card = w.bars.located.card + diagnostics.aggBars.getD 0 := by
  rcases consolidate_spec cfg symbol w.now perVenueTrades with ⟨tape, htape, _, _⟩
  cases hempty : (spotTrades perVenueTrades).entries.isEmpty with
  | true =>
      have hnone := (if_pos hempty).symm.trans hrun
      cases hnone
      rfl
  | false =>
      have hagg : buildAgg cfg symbol date perVenueTrades w =
          some (writeTape symbol date w.tock tape,
            tapeDiagnostics (sortedSet (spotTrades perVenueTrades).keys) tape) := by
        simp [buildAgg, hempty, htape]
      cases hagg.symm.trans hrun
      rw [writeTape, writeUnlessEmpty_located h.tock, Multiset.card_add, barFiles,
        Multiset.coe_card, List.length_map, add_comm]
      rfl

/-- The two counts of a build are the number of bars it writes. -/
lemma buildFor_count {fs : Listing} {cfg : AggConfig} {symbol date : String} {w w' : World}
    {report : BuildReport} (h : w.Timely)
    (hrun : buildFor fs cfg symbol date w = some (w', report)) :
    w'.bars.located.card =
      w.bars.located.card + (report.perVenueBars + report.aggBars) := by
  generalize hcollect : collectTrades fs w.trades symbol date = perVenueTrades at hrun
  cases hempty : perVenueTrades.entries.isEmpty with
  | true =>
      simp only [buildFor, hcollect, hempty, if_true] at hrun
      cases hrun
      rfl
  | false =>
      let venues := perVenueTrades.entries.foldl (buildVenue symbol date) (w, 0)
      have hvenues := buildVenues_count symbol date perVenueTrades.entries
        (show (w, 0).1.Timely from h)
      rcases buildVenues_located symbol date perVenueTrades.entries (w, 0) perVenueTrades.nodup h
        with ⟨_, htimely, _, _⟩
      rcases buildAgg_located cfg symbol date perVenueTrades htimely with
        ⟨w₂, diagnostics, tape, hagg, _, htimely₂, _, _⟩
      rcases logBuild_spec symbol date venues.2 diagnostics htimely₂ with
        ⟨w₃, hlog, _, _, hbars₃⟩
      have hspec : buildFor fs cfg symbol date w =
          some (w₃, ⟨venues.2, diagnostics.aggBars.getD 0, some diagnostics⟩) := by
        simp [buildFor, hcollect, hempty, hagg, hlog, venues]
      cases hspec.symm.trans hrun
      have hcount := buildAgg_count htimely hagg
      rw [hbars₃, hcount]
      simp only [add_zero] at hvenues
      rw [hvenues, add_assoc]

end Counts

/-! ## All days -/

section All

variable {fs : Listing} {cfg : AggConfig}

lemma allPresentCombos_nodup (found : List (String × String)) : (allPresentCombos found).Nodup :=
  (List.perm_insertionSort _ _).nodup_iff.2 found.nodup_dedup

lemma mem_allPresentCombos_iff {found : List (String × String)} {combo : String × String} :
    combo ∈ allPresentCombos found ↔ combo ∈ found := by
  rw [allPresentCombos, List.mem_insertionSort, List.mem_dedup]

/-- A bar that lies in a directory of a day with trades. -/
def OfDay (w : World) (row : Partition × Bar) : Prop :=
  ∃ symbol date, HasTrades w.trades symbol date ∧ ∃ venue, row.1 = barDir symbol date venue

/-- What the loop adds, and its totals. -/
lemma buildCombos_spec (fs : Listing) (cfg : AggConfig) :
    ∀ (combos : List (String × String)) {w : World}, combos.Nodup → w.Timely →
      ∃ w' perVenue agg added, buildCombos fs cfg combos w = some (w', perVenue, agg) ∧
        w'.Timely ∧ w'.trades = w.trades ∧ w'.bars.located = added + w.bars.located ∧
        perVenue + agg = added.card ∧ (∀ row ∈ added, OfDay w row) ∧
        ∀ symbol date venue, venue ≠ "agg" → booked added (barDir symbol date venue) =
          if (symbol, date) ∈ combos then stored w.trades.located ⟨"trades", symbol, venue, date⟩
          else 0
  | [], w, _, h => ⟨w, 0, 0, 0, rfl, h, rfl, (zero_add _).symm, rfl,
      fun _ hrow => absurd hrow (Multiset.notMem_zero _), fun _ _ _ _ => rfl⟩
  | (symbol, date) :: combos, w, hnodup, h => by
      have hcons := List.nodup_cons.1 hnodup
      rcases buildFor_builtDay fs cfg symbol date h with ⟨w₁, report, added₁, hrun₁, hday⟩
      rcases buildCombos_spec fs cfg combos hcons.2 hday.timely with
        ⟨w₂, perVenue, agg, added₂, hrun₂, htimely, htrades, hlocated, htotal, hdays, hbooked⟩
      have hcount := buildFor_count h hrun₁
      rw [hday.located, Multiset.card_add] at hcount
      refine ⟨w₂, report.perVenueBars + perVenue, report.aggBars + agg, added₂ + added₁, ?_,
        htimely, htrades.trans hday.trades, ?_, ?_, ?_, ?_⟩
      · simp only [buildCombos, hrun₁, hrun₂, Option.bind_eq_bind, Option.bind_some]
      · rw [hlocated, hday.located, add_assoc]
      · rw [Multiset.card_add]
        omega
      · intro row hrow
        rcases Multiset.mem_add.1 hrow with hlater | hhere
        · have hof := hdays row hlater
          rw [OfDay, hday.trades] at hof
          exact hof
        · exact ⟨symbol, date, hday.dated row hhere⟩
      · intro symbol' date' venue hagg
        rw [booked_add, hbooked symbol' date' venue hagg, hday.trades]
        by_cases hhere : (symbol', date') = (symbol, date)
        · cases hhere
          rw [if_neg hcons.1, if_pos List.mem_cons_self, zero_add, hday.own venue hagg]
        · have hother : booked added₁ (barDir symbol' date' venue) = 0 := by
            refine hday.elsewhere _ ?_
            intro venue' heq
            exact hhere (Prod.ext (congrArg Partition.symbol heq) (congrArg Partition.date heq))
          rw [hother, add_zero]
          refine if_congr ?_ rfl rfl
          exact ⟨List.mem_cons_of_mem _, fun hmem => (List.mem_cons.1 hmem).resolve_left hhere⟩

lemma stored_eq_zero {s : Store Trade} {dir : Partition}
    (h : ∀ path ∈ s.keys, path.partition ≠ dir) : stored s.located dir = 0 := by
  have hnone : (s.located.filter fun row => row.1 = dir) = 0 := by
    refine Multiset.filter_eq_nil.2 ?_
    intro row hrow heq
    rcases Store.mem_located_iff.1 hrow with ⟨name, rows, hget, _⟩
    exact h ⟨row.1, name⟩ (Dict.mem_keys_iff.2 ⟨rows, hget⟩) heq
  rw [stored, hnone]
  rfl

/-- All directories together. -/
lemma buildCombos_all (fs : Listing) (cfg : AggConfig) (found : List (String × String)) {w : World}
    (h : w.Timely)
    (hfound : ∀ path ∈ w.trades.keys, path.partition.table = "trades" →
      (path.partition.symbol, path.partition.date) ∈ found) :
    ∃ w' perVenue agg added,
      buildCombos fs cfg (allPresentCombos found) w = some (w', perVenue, agg) ∧
      w'.Timely ∧ w'.trades = w.trades ∧ w'.bars.located = added + w.bars.located ∧
      perVenue + agg = added.card ∧ (∀ row ∈ added, OfDay w row) ∧
      ∀ symbol date venue, venue ≠ "agg" → booked added (barDir symbol date venue) =
        stored w.trades.located ⟨"trades", symbol, venue, date⟩ := by
  rcases buildCombos_spec fs cfg (allPresentCombos found) (allPresentCombos_nodup found) h with
    ⟨w', perVenue, agg, added, hrun, htimely, htrades, hlocated, htotal, hdays, hbooked⟩
  refine ⟨w', perVenue, agg, added, hrun, htimely, htrades, hlocated, htotal, hdays, ?_⟩
  intro symbol date venue hagg
  rw [hbooked symbol date venue hagg]
  by_cases hcombo : (symbol, date) ∈ allPresentCombos found
  · exact if_pos hcombo
  · rw [if_neg hcombo]
    refine (stored_eq_zero ?_).symm
    intro path hpath heq
    refine hcombo (mem_allPresentCombos_iff.2 ?_)
    have hin := hfound path hpath (congrArg Partition.table heq)
    rw [heq] at hin
    exact hin

/-- Building all that is present raises nothing, leaves the raw trades, and adds bars that hold, day
by day and venue by venue, all raw trades exactly once; the printed totals count them. -/
theorem build_all_present_spec (fs : Listing) (cfg : AggConfig) (found : List (String × String))
    (args : BuildArgs) (hargs : args.allPresent = true) (w : World) (h : w.Timely)
    (hfound : ∀ path ∈ w.trades.keys, path.partition.table = "trades" →
      (path.partition.symbol, path.partition.date) ∈ found) :
    ∃ w' perVenue agg added, buildMain fs cfg found args w = some (w', perVenue, agg) ∧
      w'.Timely ∧ w'.trades = w.trades ∧ w'.bars.located = added + w.bars.located ∧
      perVenue + agg = added.card ∧
      ∀ symbol date venue, venue ≠ "agg" → booked added (barDir symbol date venue) =
        stored w.trades.located ⟨"trades", symbol, venue, date⟩ := by
  rcases buildCombos_all fs cfg found h hfound with
    ⟨w', perVenue, agg, added, hrun, htimely, htrades, hlocated, htotal, _, hbooked⟩
  refine ⟨w', perVenue, agg, added, ?_, htimely, htrades, hlocated, htotal, hbooked⟩
  simp only [buildMain, BuildArgs.combos, hargs, if_true, Option.bind_eq_bind, Option.bind_some,
    hrun]

end All

/-- Two trades of one second, and nothing built yet. -/
def unbuiltWorld : World :=
  World.mk (fun n => (n : Int) + 1) 0
    (Dict.empty.set ⟨⟨"trades", "BTC-USD", "kraken", "1970-01-01"⟩, .part 0⟩
      [{ tsNs := 2000, venue := some "kraken", price := 100, size := some 2 },
        { tsNs := 3000, venue := some "kraken", price := 101, size := some 1 }])
    Dict.empty []

theorem build_all_present_one_day :
    ∃ w' perVenue agg added,
      buildMain Listing.plain {} [("BTC-USD", "1970-01-01")] { allPresent := true } unbuiltWorld =
        some (w', perVenue, agg) ∧
      w'.bars.located = added + unbuiltWorld.bars.located ∧
      booked added (barDir "BTC-USD" "1970-01-01" "kraken") = (2, 3) := by
  have htimely : unbuiltWorld.Timely := World.Timely.single (fun i j hij => by omega) (by decide) _
  rcases build_all_present_spec Listing.plain {} [("BTC-USD", "1970-01-01")]
      { allPresent := true } rfl unbuiltWorld htimely (by decide +kernel) with
    ⟨w', perVenue, agg, added, hrun, _, _, hlocated, _, hbooked⟩
  refine ⟨w', perVenue, agg, added, hrun, hlocated, ?_⟩
  rw [hbooked "BTC-USD" "1970-01-01" "kraken" (by decide)]
  decide +kernel

end CryptoData
