import CryptoData.Scripts.BuildBars
import CryptoData.Storage.CompactOrder

/-!
# CompactTape — a build does not see a compaction

A build reads the raw trades through the rows of each day directory, in the order of the file
names.  Compaction leaves that sequence alone, so the build of a day is the same right before and
right after it: `compaction_preserves_tape`.
-/

namespace CryptoData

open Foundation

/-! ## The raw trades of the world -/

/-- The world over other files of raw trades. -/
def World.withTrades (w : World) (s : Store Trade) : World :=
  { w with trades := s }

section Build

variable (symbol date : String) (s : Store Trade)

lemma buildVenue_withTrades (acc : World × ℕ) (e : String × List Trade) :
    buildVenue symbol date (acc.1.withTrades s, acc.2) e =
      ((buildVenue symbol date acc e).1.withTrades s, (buildVenue symbol date acc e).2) := by
  have hnow : (acc.1.withTrades s).now = acc.1.now := rfl
  cases hempty : (barsFromTrades symbol e.1 acc.1.now e.2).isEmpty with
  | true =>
      simp only [buildVenue, hnow, hempty, if_true]
      rfl
  | false =>
      simp only [buildVenue, hnow, hempty, Bool.false_eq_true, if_false]
      rfl

lemma foldl_buildVenue_withTrades :
    ∀ (entries : List (String × List Trade)) (acc : World × ℕ),
      entries.foldl (buildVenue symbol date) (acc.1.withTrades s, acc.2) =
        ((entries.foldl (buildVenue symbol date) acc).1.withTrades s,
          (entries.foldl (buildVenue symbol date) acc).2)
  | [], _ => rfl
  | e :: entries, acc => by
      rw [List.foldl_cons, List.foldl_cons, buildVenue_withTrades,
        foldl_buildVenue_withTrades entries]

lemma buildAgg_withTrades (cfg : AggConfig) (perVenueTrades : Dict String (List Trade))
    (w : World) :
    buildAgg cfg symbol date perVenueTrades (w.withTrades s) =
      (buildAgg cfg symbol date perVenueTrades w).map fun out => (out.1.withTrades s, out.2) := by
  have hnow : (w.withTrades s).now = w.now := rfl
  unfold buildAgg
  rw [hnow]
  cases hempty : (spotTrades perVenueTrades).entries.isEmpty with
  | true => rfl
  | false =>
      rcases consolidate_spec cfg symbol w.now perVenueTrades with ⟨tape, hrun, _, _⟩
      rw [hrun]
      have hwrite : writeTape symbol date (w.withTrades s).tock tape =
          (writeTape symbol date w.tock tape).withTrades s := by
        unfold writeTape
        cases tape.aggBars.isEmpty with
        | true => rfl
        | false => rfl
      simp [hwrite]

lemma logBuild_withTrades (perVenueBars : ℕ) (diagnostics : BuildDiagnostics) (w : World) :
    logBuild symbol date perVenueBars diagnostics (w.withTrades s) =
      (logBuild symbol date perVenueBars diagnostics w).map fun w' => w'.withTrades s := by
  have hkind : "backfill" ∈ correctionKinds := by decide
  have hseverity : "info" ∈ correctionSeverities := by decide
  have hnow : (w.withTrades s).now = w.now := rfl
  have hlog : (w.withTrades s).corrections = w.corrections := rfl
  cases hused : w.corrections.any fun c => decide (c.correctionId = w.now) with
  | true =>
      simp only [logBuild, World.recordCorrection, hkind, hseverity, hnow, hlog, hused,
        not_true_eq_false, if_false, if_true]
      rfl
  | false =>
      simp only [logBuild, World.recordCorrection, hkind, hseverity, hnow, hlog, hused,
        not_true_eq_false, Bool.false_eq_true, if_false]
      rfl

/-- A build only uses the raw trades that it collects. -/
theorem buildFor_withTrades (fs : Listing) (cfg : AggConfig) (w : World)
    (hcollect : collectTrades fs s symbol date = collectTrades fs w.trades symbol date) :
    buildFor fs cfg symbol date (w.withTrades s) =
      (buildFor fs cfg symbol date w).map fun out => (out.1.withTrades s, out.2) := by
  have htrades : (w.withTrades s).trades = s := rfl
  have hvenues := foldl_buildVenue_withTrades symbol date s
    (collectTrades fs w.trades symbol date).entries (w, 0)
  cases hempty : (collectTrades fs w.trades symbol date).entries.isEmpty with
  | true =>
      simp only [buildFor, htrades, hcollect, hempty, if_true]
      rfl
  | false =>
      simp only [buildFor, htrades, hcollect, hempty, Bool.false_eq_true, if_false, hvenues,
        buildAgg_withTrades]
      cases buildAgg cfg symbol date (collectTrades fs w.trades symbol date)
          ((collectTrades fs w.trades symbol date).entries.foldl (buildVenue symbol date)
            (w, 0)).1 with
      | none => rfl
      | some agg =>
          simp only [Option.map_some, Option.bind_eq_bind, Option.bind_some, logBuild_withTrades]
          cases logBuild symbol date
              ((collectTrades fs w.trades symbol date).entries.foldl (buildVenue symbol date)
                (w, 0)).2 agg.2 agg.1 with
          | none => rfl
          | some w' => rfl

end Build

/-! ## Before and after -/

variable {s : Store Trade} {partition : Partition} {now : Int}

lemma collectTrades_congr {s' : Store Trade} {fs : Listing} {symbol date : String}
    (hlisting : fs.iterdir (venueDirs s' symbol) = fs.iterdir (venueDirs s symbol))
    (hrows : ∀ venue, dayRows s' symbol date venue = dayRows s symbol date venue) :
    collectTrades fs s' symbol date = collectTrades fs s symbol date := by
  unfold collectTrades
  rw [hlisting]
  simp only [hrows]

/-- The merged file takes the place of parts of the same venue, so no directory comes or goes. -/
lemma venueDirs_compactPartition_perm (hfresh : ⟨partition, .compacted now⟩ ∉ s.keys)
    (symbol : String) :
    (venueDirs (compactPartition s partition now).1 symbol).Perm (venueDirs s symbol) := by
  by_cases hmany : (s.sortedNames partition PartName.isPart).length ≤ 1
  · simp only [compactPartition, hmany, if_true]
    exact List.Perm.refl _
  · have hne : s.sortedNames partition PartName.isPart ≠ [] := by
      intro hnil
      rw [hnil] at hmany
      exact hmany (Nat.zero_le 1)
    rcases List.exists_mem_of_ne_nil _ hne with ⟨name, hname⟩
    have hpart := (mem_sortedNames_iff.1 hname).1
    refine (List.perm_ext_iff_of_nodup (List.nodup_dedup _) (List.nodup_dedup _)).2 ?_
    intro venue
    change venue ∈ venueDirs _ symbol ↔ venue ∈ venueDirs s symbol
    rw [mem_venueDirs_iff, mem_venueDirs_iff, (compactPartition_spec hmany hfresh).1]
    constructor
    · rintro ⟨path, hpath, hdir⟩
      rcases List.mem_append.1 hpath with hold | hnew
      · exact ⟨path, (List.mem_filter.1 hold).1, hdir⟩
      · rw [List.mem_singleton.1 hnew] at hdir
        exact ⟨⟨partition, name⟩, hpart, hdir⟩
    · rintro ⟨path, hpath, hdir⟩
      by_cases hmerged : path.partition = partition ∧ path.name.isPart = true
      · rw [hmerged.1] at hdir
        exact ⟨_, List.mem_append_right _ (List.mem_singleton.2 rfl), hdir⟩
      · exact ⟨path, List.mem_append_left _
          (List.mem_filter.2 ⟨hpath, decide_eq_true hmerged⟩), hdir⟩

/-- A compaction leaves the rows of every directory in their order, and so the rows of every day
with their ties.  The directories of a symbol are the ones that were there, so they are listed as
before, and every build comes out the same. -/
theorem compaction_preserves_tape (hlater : LaterSuffix s partition now) :
    (∀ dir, readAll (compactPartition s partition now).1 dir = readAll s dir) ∧
    Store.located (compactPartition s partition now).1 = s.located ∧
    (∀ symbol date venue, dayRows (compactPartition s partition now).1 symbol date venue =
      dayRows s symbol date venue) ∧
    (∀ symbol, (venueDirs (compactPartition s partition now).1 symbol).Perm
      (venueDirs s symbol)) ∧
    ∀ (fs : Listing) (cfg : AggConfig) (symbol date : String) (w : World), w.trades = s →
      fs.iterdir (venueDirs (compactPartition s partition now).1 symbol) =
        fs.iterdir (venueDirs s symbol) →
      buildFor fs cfg symbol date (w.withTrades (compactPartition s partition now).1) =
        (buildFor fs cfg symbol date w).map fun out =>
          (out.1.withTrades (compactPartition s partition now).1, out.2) := by
  have hread := readAll_compactPartition hlater
  have hrows : ∀ symbol date venue, dayRows (compactPartition s partition now).1 symbol date
      venue = dayRows s symbol date venue := by
    intro symbol date venue
    exact congrArg (List.insertionSort fun a b => a.tsNs ≤ b.tsNs)
      (hread ⟨"trades", symbol, venue, date⟩)
  refine ⟨hread, compactPartition_located hlater.fresh, hrows,
    venueDirs_compactPartition_perm hlater.fresh, ?_⟩
  rintro fs cfg symbol date w rfl hlisting
  exact buildFor_withTrades symbol date _ fs cfg w
    (collectTrades_congr hlisting (hrows symbol date))

/-- A day with an earlier compacted file, a backfill part and a live part. -/
def mixedParts : Store Trade where
  entries :=
    [(⟨⟨"trades", "BTC-USD", "okx", "2026-05-12"⟩, .hourPart 1 25⟩,
        [{ tsNs := 7, venue := some "okx", price := 102, size := some 1 }]),
      (⟨⟨"trades", "BTC-USD", "okx", "2026-05-12"⟩, .part 20⟩,
        [{ tsNs := 7, venue := some "okx", price := 101, size := some 1 }]),
      (⟨⟨"trades", "BTC-USD", "okx", "2026-05-12"⟩, .compacted 12⟩,
        [{ tsNs := 7, venue := some "okx", price := 100, size := some 1 }])]
  nodup := by decide

theorem compaction_preserves_tape_mixedParts :
    dayRows (compactPartition mixedParts ⟨"trades", "BTC-USD", "okx", "2026-05-12"⟩ 30).1 "BTC-USD"
        "2026-05-12" "okx" =
      dayRows mixedParts "BTC-USD" "2026-05-12" "okx" := by
  have hold : ∀ c, ⟨⟨"trades", "BTC-USD", "okx", "2026-05-12"⟩, .compacted c⟩ ∈ mixedParts.keys →
      c = 12 := by
    intro c hc
    simpa [mixedParts, Dict.keys] using hc
  have hlater : LaterSuffix mixedParts ⟨"trades", "BTC-USD", "okx", "2026-05-12"⟩ 30 := by
    refine ⟨?_, ?_, ?_⟩
    · intro c hc
      rw [hold c hc]
      decide
    · intro c hc
      rw [hold c hc]
      decide
    · intro c hc
      rw [hold c hc]
      decide
  exact (compaction_preserves_tape hlater).2.2.1 _ _ _

end CryptoData
