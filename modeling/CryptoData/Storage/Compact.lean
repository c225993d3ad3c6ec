import CryptoData.Storage.Parquet

/-!
# Compact — merging the part files of a partition

`compactPartition` writes the rows of all part files of one directory into a single compacted file
and removes the originals.  If the name of the new file is not in use, the rows under the tree are
the same before and after, up to their order (`compactPartition_allRows_perm`).
-/

namespace CryptoData

open Foundation

variable {ρ : Type*}

/-- `compact_partition(part_dir, table)` at the clock reading `now`: the new tree, and the number
of files merged. -/
def compactPartition (s : Store ρ) (partition : Partition) (now : Int) : Store ρ × ℕ :=
  let files := s.sortedNames partition PartName.isPart
  -- A single part file, or none, is left as it is.
  if files.length ≤ 1 then
    (s, 0)
  else
    let merged := s.readNames partition files
    -- The merged file is in place before the originals are removed.
    let written := s.write ⟨partition, .compacted now⟩ merged
    ((files.map fun name => PartPath.mk partition name).foldl Dict.erase written, files.length)

namespace World

/-- Compaction of one partition of the raw trades; the clock is only read if there is work. -/
def compactTrades (w : World) (partition : Partition) : World :=
  let out := compactPartition w.trades partition w.now
  if out.2 = 0 then w else { w.tock with trades := out.1 }

/-- Compaction of one partition of the derived bars. -/
def compactBars (w : World) (partition : Partition) : World :=
  let out := compactPartition w.bars partition w.now
  if out.2 = 0 then w else { w.tock with bars := out.1 }

end World

/-! ## Compaction rearranges the rows -/

lemma sortedNames_nodup (s : Store ρ) (partition : Partition) (p : PartName → Bool) :
    (s.sortedNames partition p).Nodup := by
  refine (List.perm_insertionSort _ _).nodup_iff.2 ?_
  refine List.Nodup.map_on ?_ (s.keys_nodup.filter _)
  intro path hpath path' hpath' hname
  have hleft := (List.mem_filter.1 hpath).2
  have hright := (List.mem_filter.1 hpath').2
  rcases path with ⟨dir, name⟩
  rcases path' with ⟨dir', name'⟩
  simp only [Bool.and_eq_true, decide_eq_true_eq] at hleft hright hname
  simp [hleft.1, hright.1, hname]

lemma mem_sortedNames_iff {s : Store ρ} {partition : Partition} {p : PartName → Bool}
    {name : PartName} :
    name ∈ s.sortedNames partition p ↔ ⟨partition, name⟩ ∈ s.keys ∧ p name = true := by
  simp only [Store.sortedNames, List.mem_insertionSort, List.mem_map, List.mem_filter,
    Bool.and_eq_true, decide_eq_true_eq]
  constructor
  · intro h
    rcases h with ⟨⟨dir, name'⟩, ⟨hmem, hdir, hp⟩, hname⟩
    simp only at hdir hp hname
    subst hdir
    subst hname
    exact ⟨hmem, hp⟩
  · intro h
    exact ⟨⟨partition, name⟩, ⟨h.1, rfl, h.2⟩, rfl⟩

lemma located_readNames (s : Store ρ) (partition : Partition) :
    ∀ names : List PartName,
      ((s.readNames partition names).map fun r => (partition, r) : Multiset (Partition × ρ)) =
        ((names.map fun name => PartPath.mk partition name).map fun path =>
          (s.get? path).elim 0 fun rows =>
            (rows.map fun r => (path.partition, r) : Multiset (Partition × ρ))).sum
  | [] => rfl
  | name :: names => by
      have hrest := located_readNames s partition names
      have hone : ((s.getD ⟨partition, name⟩ []).map fun r => (partition, r) :
            Multiset (Partition × ρ)) =
          (s.get? ⟨partition, name⟩).elim 0 fun rows =>
            (rows.map fun r => (partition, r) : Multiset (Partition × ρ)) := by
        unfold Dict.getD
        cases s.get? ⟨partition, name⟩ with
        | none => rfl
        | some rows => rfl
      have hsplit : s.readNames partition (name :: names) =
          s.getD ⟨partition, name⟩ [] ++ s.readNames partition names := rfl
      rw [hsplit, List.map_append, ← Multiset.coe_add, hone, hrest]
      rfl

/-- All files of a directory hold its rows. -/
lemma coe_readNames_all (s : Store ρ) (dir : Partition) :
    ((s.readNames dir (s.sortedNames dir fun _ => true)).map fun r => (dir, r) :
        Multiset (Partition × ρ)) = s.located.filter fun row => row.1 = dir := by
  let content := fun path : PartPath => (s.get? path).elim 0 fun rows =>
    (rows.map fun r => (path.partition, r) : Multiset (Partition × ρ))
  have hpaths : ((s.sortedNames dir fun _ => true).map fun name => PartPath.mk dir name).Perm
      ((s.entries.filter fun e => decide (e.1.partition = dir)).map Prod.fst) := by
    refine ((List.perm_insertionSort _ _).map _).trans (List.Perm.of_eq ?_)
    simp only [Bool.and_true]
    rw [List.map_map, Dict.keys, List.filter_map, List.map_map]
    refine List.map_congr_left ?_
    intro e he
    have hdir : e.1.partition = dir := of_decide_eq_true (List.mem_filter.1 he).2
    simp only [Function.comp_apply, ← hdir]
  rw [located_readNames, (hpaths.map content).sum_eq, s.filter_located fun d => d = dir,
    List.map_map]
  refine congrArg List.sum (List.map_congr_left ?_)
  intro e he
  have hget : s.get? e.1 = some e.2 := Dict.get?_eq_some_iff.2 (List.mem_filter.1 he).1
  simp only [content, Function.comp_apply, hget, Option.elim]

/-- With a new name for the compacted file, every row stays in its directory, exactly once. -/
theorem compactPartition_located {s : Store ρ} {partition : Partition} {now : Int}
    (hfresh : ⟨partition, .compacted now⟩ ∉ s.keys) :
    Store.located (compactPartition s partition now).1 = s.located := by
  by_cases hfew : (s.sortedNames partition PartName.isPart).length ≤ 1
  · simp [compactPartition, hfew]
  · let files := s.sortedNames partition PartName.isPart
    let paths := files.map fun name => PartPath.mk partition name
    let written := s.write ⟨partition, .compacted now⟩ (s.readNames partition files)
    let tagged := fun (path : PartPath) (rows : List ρ) =>
      (rows.map fun r => (path.partition, r) : Multiset (Partition × ρ))
    have hnodup : paths.Nodup := by
      refine (sortedNames_nodup s partition PartName.isPart).map ?_
      intro m n hmn
      exact congrArg PartPath.name hmn
    -- The originals are still what they were when they are removed.
    have hget : (paths.map fun path => (written.get? path).elim 0 (tagged path)) =
        paths.map fun path => (s.get? path).elim 0 (tagged path) := by
      refine List.map_congr_left fun path hpath => ?_
      rcases List.mem_map.1 hpath with ⟨name, hname, rfl⟩
      have hpart := (mem_sortedNames_iff.1 hname).2
      have hne : PartPath.mk partition name ≠ ⟨partition, .compacted now⟩ := by
        intro heq
        have hcompacted : name = .compacted now := congrArg PartPath.name heq
        simp [hcompacted, PartName.isPart] at hpart
      rw [show written.get? ⟨partition, name⟩ = s.get? ⟨partition, name⟩ from
        Dict.get?_set_ne _ _ hne]
    -- The new file carries the rows of the originals, and these are then taken away once.
    have hremoved : Store.located written = (paths.map fun path =>
        (s.get? path).elim 0 (tagged path)).sum +
          Store.located (paths.foldl Dict.erase written) := by
      rw [← hget]
      exact Dict.measure_foldl_erase tagged paths written hnodup
    have hmerged : ((s.readNames partition files).map fun r => (partition, r) :
        Multiset (Partition × ρ)) = (paths.map fun path =>
          (s.get? path).elim 0 (tagged path)).sum := located_readNames s partition files
    have hwritten := Store.located_write hfresh (s.readNames partition files)
    rw [hmerged] at hwritten
    have hrun : (compactPartition s partition now).1 = paths.foldl Dict.erase written := by
      simp only [compactPartition, hfew, if_false]
      rfl
    rw [hrun]
    exact add_left_cancel (hremoved.symm.trans hwritten)

/-- Compaction only rearranges what a reader of the whole tree sees. -/
theorem compactPartition_allRows_perm {s : Store ρ} {partition : Partition} {now : Int}
    (hfresh : ⟨partition, .compacted now⟩ ∉ s.keys) :
    (Store.allRows (compactPartition s partition now).1).Perm s.allRows := by
  refine Multiset.coe_eq_coe.1 ?_
  rw [Store.coe_allRows, Store.coe_allRows, compactPartition_located hfresh]

/-! ## Compaction in the shared world -/

lemma mem_keys_foldl_erase {path : PartPath} :
    ∀ (paths : List PartPath) (s : Store ρ), path ∈ (paths.foldl Dict.erase s).keys →
      path ∈ s.keys
  | [], _, h => h
  | p :: paths, s, h => (Dict.mem_keys_erase.1 (mem_keys_foldl_erase paths (s.erase p) h)).2

lemma mem_keys_compactPartition {s : Store ρ} {partition : Partition} {now : Int}
    {path : PartPath} (h : path ∈ (compactPartition s partition now).1.keys) :
    path = ⟨partition, .compacted now⟩ ∨ path ∈ s.keys := by
  by_cases hfew : (s.sortedNames partition PartName.isPart).length ≤ 1
  · simp only [compactPartition, hfew, if_true] at h
    exact Or.inr h
  · simp only [compactPartition, hfew, if_false] at h
    exact Dict.mem_keys_set.1 (mem_keys_foldl_erase _ _ h)

namespace World

/-- What one compaction of either tree leaves alone. -/
structure Rearranged (w w' : World) : Prop where
  timely : w'.Timely
  trades : w'.trades.located = w.trades.located
  bars : w'.bars.located = w.bars.located

theorem Timely.compactTrades {w : World} (h : w.Timely) (partition : Partition) :
    Rearranged w (w.compactTrades partition) := by
  unfold World.compactTrades
  by_cases hnone : (compactPartition w.trades partition w.now).2 = 0
  · simp only [hnone, if_true]
    exact ⟨h, rfl, rfl⟩
  · simp only [hnone, if_false]
    refine ⟨⟨h.increasing, ?_, h.tock.bars, h.tock.corrections⟩, ?_, rfl⟩
    · intro path hpath
      rcases mem_keys_compactPartition hpath with rfl | hold
      · exact h.now_lt_tock
      · exact h.tock.trades path hold
    · exact compactPartition_located (h.fresh_trades rfl)

theorem Timely.compactBars {w : World} (h : w.Timely) (partition : Partition) :
    Rearranged w (w.compactBars partition) := by
  unfold World.compactBars
  by_cases hnone : (compactPartition w.bars partition w.now).2 = 0
  · simp only [hnone, if_true]
    exact ⟨h, rfl, rfl⟩
  · simp only [hnone, if_false]
    refine ⟨⟨h.increasing, h.tock.trades, ?_, h.tock.corrections⟩, rfl, ?_⟩
    · intro path hpath
      rcases mem_keys_compactPartition hpath with rfl | hold
      · exact h.now_lt_tock
      · exact h.tock.bars path hold
    · exact compactPartition_located (h.fresh_bars rfl)

end World

end CryptoData
