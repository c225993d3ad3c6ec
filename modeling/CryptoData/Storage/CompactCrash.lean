import CryptoData.Storage.Compact

/-!
# CompactCrash — compaction step by step

Compaction writes the merged file and then removes the originals one by one; readers look at the
tree between any two of these steps, and a crash can leave it there.  Until the last row-carrying
original is gone, its rows are in the tree twice (`located_compactPrefix`).  The next run does not
repair this: it merges part files only, and the compacted file is not one.

`crashSafeAt_iff` says after which prefixes of the steps nothing is wrong.
-/

namespace CryptoData

open Foundation

variable {ρ : Type*}

/-! ## The steps of a compaction -/

/-- What a compaction does to the file system. -/
inductive FileOp (ρ : Type*)
  | write (path : PartPath) (rows : List ρ)
  | unlink (path : PartPath)

def FileOp.run (s : Store ρ) : FileOp ρ → Store ρ
  | .write path rows => s.write path rows
  | .unlink path => Dict.erase s path

/-- The steps of `compact_partition`: one write, then one `unlink` for each original. -/
def compactOps (s : Store ρ) (partition : Partition) (now : Int) : List (FileOp ρ) :=
  let files := s.sortedNames partition PartName.isPart
  if files.length ≤ 1 then
    []
  else
    .write ⟨partition, .compacted now⟩ (s.readNames partition files) ::
      files.map fun name => .unlink ⟨partition, name⟩

/-- The tree after the first `k` steps. -/
def compactPrefix (s : Store ρ) (partition : Partition) (now : Int) (k : ℕ) : Store ρ :=
  ((compactOps s partition now).take k).foldl FileOp.run s

/-- All steps together are the compaction. -/
theorem foldl_compactOps (s : Store ρ) (partition : Partition) (now : Int) :
    (compactOps s partition now).foldl FileOp.run s = (compactPartition s partition now).1 := by
  by_cases hfew : (s.sortedNames partition PartName.isPart).length ≤ 1
  · simp only [compactOps, compactPartition, hfew, if_true, List.foldl_nil]
  · simp only [compactOps, compactPartition, hfew, if_false, List.foldl_cons, List.foldl_map]
    rfl

/-- A completed compaction is the longest prefix. -/
theorem compactPrefix_all (s : Store ρ) (partition : Partition) (now : Int) :
    compactPrefix s partition now (compactOps s partition now).length =
      (compactPartition s partition now).1 := by
  rw [compactPrefix, List.take_length, foldl_compactOps]

/-! ## What a reader sees in between -/

/-- The rows of a directory, each with the directory. -/
def inDir (partition : Partition) (rows : List ρ) : Multiset (Partition × ρ) :=
  (rows.map fun r => (partition, r) : Multiset (Partition × ρ))

lemma inDir_append (partition : Partition) (xs ys : List ρ) :
    inDir partition (xs ++ ys) = inDir partition xs + inDir partition ys := by
  simp [inDir]

lemma inDir_eq_zero_iff {partition : Partition} {rows : List ρ} :
    inDir partition rows = 0 ↔ rows = [] := by
  simp [inDir]

/-- Removing files that hold what they held in `s` takes exactly their rows away. -/
lemma located_foldl_unlink (s written : Store ρ) (partition : Partition) {names : List PartName}
    (hnodup : names.Nodup)
    (hget : ∀ name ∈ names, written.get? ⟨partition, name⟩ = s.get? ⟨partition, name⟩) :
    Store.located written = inDir partition (s.readNames partition names) +
      Store.located ((names.map fun name => PartPath.mk partition name).foldl Dict.erase
        written) := by
  have hpaths : (names.map fun name => PartPath.mk partition name).Nodup := by
    refine hnodup.map ?_
    intro m n hmn
    exact congrArg PartPath.name hmn
  have herase := Dict.measure_foldl_erase
    (fun (path : PartPath) (rows : List ρ) =>
      (rows.map fun r => (path.partition, r) : Multiset (Partition × ρ)))
    (names.map fun name => PartPath.mk partition name) written hpaths
  refine herase.trans ?_
  congr 1
  rw [inDir, located_readNames s partition names]
  refine congrArg List.sum (List.map_congr_left ?_)
  intro path hpath
  rcases List.mem_map.1 hpath with ⟨name, hname, rfl⟩
  rw [hget name hname]

/-- Once the merged file is written, the originals that are left are seen twice. -/
theorem located_compactPrefix {s : Store ρ} {partition : Partition} {now : Int}
    (hfresh : ⟨partition, .compacted now⟩ ∉ s.keys)
    (hmany : ¬ (s.sortedNames partition PartName.isPart).length ≤ 1) (k : ℕ) :
    Store.located (compactPrefix s partition now (k + 1)) = s.located +
      inDir partition (s.readNames partition
        ((s.sortedNames partition PartName.isPart).drop k)) := by
  let files := s.sortedNames partition PartName.isPart
  let written := s.write ⟨partition, .compacted now⟩ (s.readNames partition files)
  have hrun : compactPrefix s partition now (k + 1) =
      ((files.take k).map fun name => PartPath.mk partition name).foldl Dict.erase written := by
    simp only [compactPrefix, compactOps, hmany, if_false, List.take_succ_cons, List.foldl_cons]
    rw [← List.map_take, List.foldl_map, List.foldl_map]
    rfl
  have hget : ∀ name ∈ files.take k,
      written.get? ⟨partition, name⟩ = s.get? ⟨partition, name⟩ := by
    intro name hname
    have hpart := (mem_sortedNames_iff.1 (List.mem_of_mem_take hname)).2
    refine Dict.get?_set_ne _ _ ?_
    intro heq
    have hcompacted : name = .compacted now := congrArg PartPath.name heq
    rw [hcompacted] at hpart
    cases hpart
  have hremoved := located_foldl_unlink s written partition
    ((sortedNames_nodup s partition PartName.isPart).sublist (List.take_sublist k _)) hget
  have hwritten : Store.located written =
      inDir partition (s.readNames partition files) + s.located :=
    Store.located_write hfresh (s.readNames partition files)
  -- The merged file holds the removed originals and the ones that are left.
  have hsplit : s.readNames partition files =
      s.readNames partition (files.take k) ++ s.readNames partition (files.drop k) := by
    simp only [Store.readNames]
    rw [← List.flatMap_append, List.take_append_drop]
  rw [hsplit, inDir_append] at hwritten
  rw [hrun]
  refine add_left_cancel (hremoved.symm.trans (hwritten.trans ?_))
  rw [add_assoc, add_comm s.located]

/-! ## Crashes -/

/-- New part files, written one after the other. -/
def addParts (s : Store ρ) (partition : Partition) (parts : List (PartName × List ρ)) : Store ρ :=
  parts.foldl (fun s part => s.write ⟨partition, part.1⟩ part.2) s

/-- The files are parts, and their names are new. -/
structure NewParts (s : Store ρ) (partition : Partition) (parts : List (PartName × List ρ)) :
    Prop where
  isPart : ∀ part ∈ parts, part.1.isPart = true
  nodup : (parts.map Prod.fst).Nodup
  fresh : ∀ part ∈ parts, ⟨partition, part.1⟩ ∉ s.keys

lemma located_addParts (partition : Partition) :
    ∀ (parts : List (PartName × List ρ)) (s : Store ρ), NewParts s partition parts →
      Store.located (addParts s partition parts) =
        s.located + inDir partition (parts.flatMap Prod.snd)
  | [], s, _ => (add_zero _).symm
  | part :: parts, s, h => by
      have hnodup := List.nodup_cons.1 h.nodup
      have hrest : NewParts (s.write ⟨partition, part.1⟩ part.2) partition parts := by
        refine ⟨fun q hq => h.isPart q (List.mem_cons_of_mem part hq), hnodup.2, ?_⟩
        intro q hq hkey
        rcases Dict.mem_keys_set.1 hkey with heq | hold
        · have hname : q.1 = part.1 := congrArg PartPath.name heq
          exact hnodup.1 (List.mem_map.2 ⟨q, hq, hname⟩)
        · exact h.fresh q (List.mem_cons_of_mem part hq) hold
      have htail := located_addParts partition parts _ hrest
      have hhead := Store.located_write (h.fresh part List.mem_cons_self) part.2
      rw [List.flatMap_cons, inDir_append]
      refine htail.trans ?_
      rw [hhead, add_comm _ s.located, add_assoc]
      rfl

/-- After `k` steps a reader sees the rows from before the compaction; and if the process dies
there, parts are added and compaction runs again, the rows are the old ones and the new ones. -/
structure CrashSafeAt (s : Store ρ) (partition : Partition) (now : Int) (k : ℕ) : Prop where
  visible : (compactPrefix s partition now k).located = s.located
  recovered : ∀ (parts : List (PartName × List ρ)) (later : Int),
    NewParts (compactPrefix s partition now k) partition parts →
    ⟨partition, .compacted later⟩ ∉
      (addParts (compactPrefix s partition now k) partition parts).keys →
    Store.located
        (compactPartition (addParts (compactPrefix s partition now k) partition parts) partition
          later).1 =
      s.located + inDir partition (parts.flatMap Prod.snd)

/-- A prefix of the steps is safe exactly if there is nothing to merge, nothing is written yet, or
the originals that are left hold no rows. -/
theorem crashSafeAt_iff {s : Store ρ} {partition : Partition} {now : Int}
    (hfresh : ⟨partition, .compacted now⟩ ∉ s.keys) (k : ℕ) :
    CrashSafeAt s partition now k ↔
      (s.sortedNames partition PartName.isPart).length ≤ 1 ∨ k = 0 ∨
        s.readNames partition ((s.sortedNames partition PartName.isPart).drop (k - 1)) = [] := by
  have hvisible : (compactPrefix s partition now k).located = s.located ↔
      (s.sortedNames partition PartName.isPart).length ≤ 1 ∨ k = 0 ∨
        s.readNames partition ((s.sortedNames partition PartName.isPart).drop (k - 1)) = [] := by
    by_cases hfew : (s.sortedNames partition PartName.isPart).length ≤ 1
    · refine iff_of_true ?_ (Or.inl hfew)
      simp only [compactPrefix, compactOps, hfew, if_true, List.take_nil, List.foldl_nil]
    · cases k with
      | zero => exact iff_of_true rfl (Or.inr (Or.inl rfl))
      | succ k =>
          rw [located_compactPrefix hfresh hfew, add_eq_left, inDir_eq_zero_iff]
          simp [hfew]
  constructor
  · intro h
    exact hvisible.1 h.visible
  · intro h
    refine ⟨hvisible.2 h, ?_⟩
    intro parts later hparts hlater
    rw [compactPartition_located hlater, located_addParts partition parts _ hparts, hvisible.2 h]

/-- Two hourly parts with one trade each, and the clock reading of the compaction. -/
def twoParts : Store Trade where
  entries :=
    [(⟨⟨"trades", "BTC-USD", "okx", "2026-05-12"⟩, .hourPart 0 1⟩,
        [{ tsNs := 1, venue := some "okx", price := 100, size := some 1 }]),
      (⟨⟨"trades", "BTC-USD", "okx", "2026-05-12"⟩, .hourPart 1 2⟩,
        [{ tsNs := 2, venue := some "okx", price := 101, size := some 1 }])]
  nodup := by decide

/-- With the merged file written and no original removed, every row is there twice. -/
theorem compaction_visible_and_not_crashSafe :
    ¬ ∀ (s : Store Trade) (partition : Partition) (now : Int),
        ⟨partition, .compacted now⟩ ∉ s.keys →
        ∀ k ≤ (compactOps s partition now).length, CrashSafeAt s partition now k := by
  intro h
  have hsafe := h twoParts ⟨"trades", "BTC-USD", "okx", "2026-05-12"⟩ 3 (by decide) 1
    (by decide +kernel)
  have hcards := congrArg Multiset.card hsafe.visible
  revert hcards
  decide +kernel

theorem crashSafeAt_iff_twoParts :
    CrashSafeAt twoParts ⟨"trades", "BTC-USD", "okx", "2026-05-12"⟩ 3 3 ↔
      (twoParts.sortedNames ⟨"trades", "BTC-USD", "okx", "2026-05-12"⟩ PartName.isPart).length ≤ 1 ∨
        3 = 0 ∨
        twoParts.readNames ⟨"trades", "BTC-USD", "okx", "2026-05-12"⟩
          ((twoParts.sortedNames ⟨"trades", "BTC-USD", "okx", "2026-05-12"⟩
            PartName.isPart).drop (3 - 1)) = [] :=
  crashSafeAt_iff (by decide) 3

end CryptoData
