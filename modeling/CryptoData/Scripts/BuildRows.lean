import CryptoData.Scripts.BuildBars

/-!
# BuildRows — the rows of a build, directory by directory

`buildFor_located` says what a build adds to the bars tree: in the directory of each venue with
trades that day the bars of its trades, in the `agg` directory the bars of the tape, and nothing
elsewhere.
-/

namespace CryptoData

open Foundation

/-- The directory of the bars of a venue. -/
def barDir (symbol date venue : String) : Partition :=
  ⟨"bars_1s", symbol, venue, date⟩

/-- Bars in the directory of a venue. -/
def barFiles (symbol date venue : String) (bars : List Bar) : Multiset (Partition × Bar) :=
  (bars.map fun b => (barDir symbol date venue, b) : List (Partition × Bar))

section Rows

variable {symbol date : String}

@[simp] lemma mem_barFiles_iff {venue : String} {bars : List Bar} {dir : Partition} {b : Bar} :
    (dir, b) ∈ barFiles symbol date venue bars ↔ dir = barDir symbol date venue ∧ b ∈ bars := by
  rw [barFiles, Multiset.mem_coe, List.mem_map]
  constructor
  · rintro ⟨b', hb', heq⟩
    cases heq
    exact ⟨rfl, hb'⟩
  · rintro ⟨rfl, hb⟩
    exact ⟨b, hb, rfl⟩

lemma mem_sum_barFiles_iff {rows : String × List Trade → List Bar} {dir : Partition} {b : Bar} :
    ∀ entries : List (String × List Trade),
      (dir, b) ∈ (entries.map fun e => barFiles symbol date e.1 (rows e)).sum ↔
        ∃ e ∈ entries, dir = barDir symbol date e.1 ∧ b ∈ rows e
  | [] => by simp
  | e :: entries => by
      rw [List.map_cons, List.sum_cons, Multiset.mem_add, mem_barFiles_iff,
        mem_sum_barFiles_iff entries]
      simp

/-- A guarded write files its rows, whether or not there are any. -/
lemma writeUnlessEmpty_located {w : World} (h : w.Timely) (rows : List Bar)
    (symbol venue date : String) :
    (if rows.isEmpty then w else w.writeBars rows symbol venue date).bars.located =
      barFiles symbol date venue rows + w.bars.located := by
  cases hrows : rows.isEmpty with
  | true =>
      rw [if_pos rfl, List.isEmpty_iff.1 hrows]
      exact (zero_add _).symm
  | false =>
      rw [if_neg Bool.false_ne_true]
      exact Store.located_write (h.fresh_bars rfl) rows

lemma buildVenue_located (symbol date : String) {acc : World × ℕ} (h : acc.1.Timely)
    (e : String × List Trade) :
    (buildVenue symbol date acc e).1.Timely ∧
      (buildVenue symbol date acc e).1.trades = acc.1.trades ∧
      (buildVenue symbol date acc e).1.bars.located =
        barFiles symbol date e.1 (barsFromTrades symbol e.1 acc.1.now e.2) +
          acc.1.bars.located := by
  have hspec := writeUnlessEmpty_spec h.tock
    (barsFromTrades symbol e.1 acc.1.now e.2) symbol e.1 date
  rw [buildVenue_fst]
  exact ⟨hspec.1, hspec.2.1, writeUnlessEmpty_located h.tock _ symbol e.1 date⟩

/-- Each venue of the loop has its own stamp. -/
lemma buildVenues_located (symbol date : String) :
    ∀ (entries : List (String × List Trade)) (acc : World × ℕ),
      (entries.map Prod.fst).Nodup → acc.1.Timely →
        ∃ stamp : String → Int,
          (entries.foldl (buildVenue symbol date) acc).1.Timely ∧
          (entries.foldl (buildVenue symbol date) acc).1.trades = acc.1.trades ∧
          (entries.foldl (buildVenue symbol date) acc).1.bars.located =
            (entries.map fun e => barFiles symbol date e.1
              (barsFromTrades symbol e.1 (stamp e.1) e.2)).sum + acc.1.bars.located
  | [], acc, _, h => ⟨fun _ => 0, h, rfl, by simp⟩
  | e :: entries, acc, hnodup, h => by
      have hcons := List.nodup_cons.1 hnodup
      rcases buildVenue_located symbol date h e with
        ⟨htimely, htrades, hrows⟩
      rcases buildVenues_located symbol date entries _ hcons.2 htimely with
        ⟨stamp, htimely', htrades', hrows'⟩
      refine ⟨fun v => if v = e.1 then acc.1.now else stamp v, htimely', htrades'.trans htrades, ?_⟩
      -- The later venues keep their stamps, since their names differ from this one.
      have hlater : (entries.map fun f => barFiles symbol date f.1 (barsFromTrades symbol f.1
            (if f.1 = e.1 then acc.1.now else stamp f.1) f.2)) =
          entries.map fun f => barFiles symbol date f.1
            (barsFromTrades symbol f.1 (stamp f.1) f.2) := by
        refine List.map_congr_left ?_
        intro f hf
        have hne : f.1 ≠ e.1 := fun heq => hcons.1 (List.mem_map.2 ⟨f, hf, heq⟩)
        rw [if_neg hne]
      have hown : (fun v => if v = e.1 then acc.1.now else stamp v) e.1 = acc.1.now := if_pos rfl
      rw [List.foldl_cons, hrows', hrows, List.map_cons, List.sum_cons, hlater, hown,
        ← add_assoc, add_comm _ (barFiles symbol date e.1 _)]

/-- The agg half files the bars of the tape. -/
lemma buildAgg_located (cfg : AggConfig) (symbol date : String)
    (perVenueTrades : Dict String (List Trade)) {w : World} (h : w.Timely) :
    ∃ w' diagnostics tape, buildAgg cfg symbol date perVenueTrades w = some (w', diagnostics) ∧
      consolidate cfg symbol w.now perVenueTrades = some tape ∧ w'.Timely ∧
      w'.trades = w.trades ∧
      w'.bars.located = barFiles symbol date "agg" tape.aggBars + w.bars.located := by
  rcases consolidate_spec cfg symbol w.now perVenueTrades with ⟨tape, hrun, _, _⟩
  cases hempty : (spotTrades perVenueTrades).entries.isEmpty with
  | true =>
      have hnone : consolidate cfg symbol w.now perVenueTrades = some ⟨[], [], []⟩ := by
        simp [consolidate, hempty]
      exact ⟨w, _, ⟨[], [], []⟩, if_pos hempty, hnone, h, rfl, (zero_add _).symm⟩
  | false =>
      have hagg : buildAgg cfg symbol date perVenueTrades w =
          some (writeTape symbol date w.tock tape,
            tapeDiagnostics (sortedSet (spotTrades perVenueTrades).keys) tape) := by
        simp [buildAgg, hempty, hrun]
      have hspec := writeUnlessEmpty_spec h.tock tape.aggBars symbol "agg" date
      exact ⟨_, _, tape, hagg, hrun, hspec.1, hspec.2.1,
        writeUnlessEmpty_located h.tock tape.aggBars symbol "agg" date⟩

/-- What a build adds to the directory of a venue, in terms of its row in the dictionary. -/
lemma mem_located_iff {perVenueTrades : Dict String (List Trade)} {stamp : String → Int}
    {agg : List Bar} {old located : Multiset (Partition × Bar)}
    (h : located = barFiles symbol date "agg" agg + ((perVenueTrades.entries.map fun e =>
      barFiles symbol date e.1 (barsFromTrades symbol e.1 (stamp e.1) e.2)).sum + old))
    (venue : String) (b : Bar) :
    (barDir symbol date venue, b) ∈ located ↔ (venue = "agg" ∧ b ∈ agg) ∨
      (∃ rows ∈ perVenueTrades.get? venue, b ∈ barsFromTrades symbol venue (stamp venue) rows) ∨
        (barDir symbol date venue, b) ∈ old := by
  have hdir : ∀ v, barDir symbol date venue = barDir symbol date v ↔ venue = v := by
    intro v
    simp [barDir]
  rw [h, Multiset.mem_add, Multiset.mem_add, mem_barFiles_iff, mem_sum_barFiles_iff, hdir]
  refine or_congr Iff.rfl (or_congr ?_ Iff.rfl)
  constructor
  · rintro ⟨e, he, hvenue, hb⟩
    obtain rfl := (hdir e.1).1 hvenue
    exact ⟨e.2, Dict.get?_eq_some_iff.2 he, hb⟩
  · rintro ⟨rows, hrows, hb⟩
    exact ⟨(venue, rows), Dict.get?_eq_some_iff.1 hrows, rfl, hb⟩

end Rows

/-- A build files the bars of each venue and the bars of the tape, and nothing else. -/
theorem buildFor_located (fs : Listing) (cfg : AggConfig) (symbol date : String) {w : World}
    (h : w.Timely) :
    ∃ w' report tape, ∃ nowNs : Int, ∃ stamp : String → Int,
      buildFor fs cfg symbol date w = some (w', report) ∧
      consolidate cfg symbol nowNs (collectTrades fs w.trades symbol date) = some tape ∧
      w'.Timely ∧ w'.trades = w.trades ∧
      w'.bars.located = barFiles symbol date "agg" tape.aggBars +
        (((collectTrades fs w.trades symbol date).entries.map fun e => barFiles symbol date e.1
          (barsFromTrades symbol e.1 (stamp e.1) e.2)).sum + w.bars.located) := by
  generalize hcollect : collectTrades fs w.trades symbol date = perVenueTrades
  cases hempty : perVenueTrades.entries.isEmpty with
  | true =>
      have hnil : perVenueTrades.entries = [] := List.isEmpty_iff.1 hempty
      have hspot : (spotTrades perVenueTrades).entries.isEmpty = true := by
        simp [spotTrades, Dict.filter, hnil]
      refine ⟨w, ⟨0, 0, none⟩, ⟨[], [], []⟩, 0, fun _ => 0, ?_, ?_, h, rfl, ?_⟩
      · simp [buildFor, hcollect, hempty]
      · simp [consolidate, hspot]
      · simp [hnil, barFiles]
  | false =>
      rcases buildVenues_located symbol date perVenueTrades.entries (w, 0) perVenueTrades.nodup h
        with ⟨stamp, htimely₁, htrades₁, hrows₁⟩
      rcases buildAgg_located cfg symbol date perVenueTrades htimely₁ with
        ⟨w₂, diagnostics, tape, hagg, htape, htimely₂, htrades₂, hrows₂⟩
      rcases logBuild_spec symbol date
        (perVenueTrades.entries.foldl (buildVenue symbol date) (w, 0)).2 diagnostics htimely₂ with
        ⟨w₃, hlog, htimely₃, htrades₃, hbars₃⟩
      have hrun : buildFor fs cfg symbol date w =
          some (w₃, ⟨(perVenueTrades.entries.foldl (buildVenue symbol date) (w, 0)).2,
            diagnostics.aggBars.getD 0, some diagnostics⟩) := by
        simp [buildFor, hcollect, hempty, hagg, hlog]
      refine ⟨w₃, _, tape, _, stamp, hrun, htape, htimely₃, ?_, ?_⟩
      · rw [htrades₃, htrades₂, htrades₁]
      · rw [hbars₃, hrows₂, hrows₁]

end CryptoData
