import CryptoData.Foundation.NameOrder
import CryptoData.Foundation.StableSort
import CryptoData.Storage.Compact

/-!
# CompactOrder — compaction and the order of the rows

The raw trades of a day are read file by file in the order of the file names.  A compacted file
sorts before every part file, and a later one after the earlier ones, so the merged rows are read
where the parts were read: `readAll_compactPartition`, for any files whatever.
-/

namespace CryptoData

open Foundation

variable {ρ : Type*}

/-- The rows of a directory, all files in the order of their names. -/
def readAll (s : Store ρ) (dir : Partition) : List ρ :=
  s.readNames dir (s.sortedNames dir fun _ => true)

/-- The new suffix is later than those of the compacted files of the directory, and as long. -/
structure LaterSuffix (s : Store ρ) (partition : Partition) (now : Int) : Prop where
  nonneg : ∀ c, ⟨partition, .compacted c⟩ ∈ s.keys → 0 ≤ c
  later : ∀ c, ⟨partition, .compacted c⟩ ∈ s.keys → c < now
  sameLength : ∀ c, ⟨partition, .compacted c⟩ ∈ s.keys →
    (toString c).length = (toString now).length

/-! ## The order of the names -/

namespace PartName

/-- `render m ≤ render n`, the order of `sorted(...)`. -/
def Before (m n : PartName) : Prop :=
  m.render ≤ n.render

instance : DecidableRel Before :=
  fun m n => inferInstanceAs (Decidable (m.render ≤ n.render))

lemma compacted_lt_part (c : Int) {n : PartName} (h : n.isPart = true) :
    (compacted c).render < n.render := by
  rw [String.lt_iff_toList_lt]
  cases n with
  | hourPart hour suffix =>
      simp only [render, String.toList_append]
      exact List.cons_lt_cons_iff.2 (Or.inl (by decide))
  | part suffix =>
      simp only [render, String.toList_append]
      exact List.cons_lt_cons_iff.2 (Or.inl (by decide))
  | compacted suffix => cases h

lemma compacted_lt_compacted {c d : Int} (hc : 0 ≤ c) (hlt : c < d)
    (hlen : (toString c).length = (toString d).length) :
    (compacted c).render < (compacted d).render := by
  rw [String.lt_iff_toList_lt]
  simp only [render, String.toList_append, List.append_assoc]
  refine append_left_lt _ (append_lt_append ?_ (toString_lt_toString hc hlt hlen) _ _)
  rw [String.length_toList, String.length_toList]
  exact hlen

end PartName

/-! ## The files of a directory -/

/-- The names in a directory, as the file system has them. -/
def namesIn (s : Store ρ) (dir : Partition) : List PartName :=
  (s.keys.filter fun path => decide (path.partition = dir)).map PartPath.name

lemma sortedNames_eq (s : Store ρ) (dir : Partition) (p : PartName → Bool) :
    s.sortedNames dir p = ((namesIn s dir).filter p).insertionSort PartName.Before := by
  have hfilter : (namesIn s dir).filter p =
      (s.keys.filter fun path => decide (path.partition = dir) && p path.name).map
        PartPath.name := by
    rw [namesIn, List.filter_map, List.filter_filter]
    refine congrArg (List.map PartPath.name) (List.filter_congr ?_)
    intro path _
    exact Bool.and_comm _ _
  rw [hfilter]
  rfl

/-- Read in order: the compacted files, then the parts. -/
theorem sortedNames_all_eq (s : Store ρ) (dir : Partition) :
    (s.sortedNames dir fun _ => true) =
      ((namesIn s dir).filter fun name => !name.isPart).insertionSort PartName.Before ++
        s.sortedNames dir PartName.isPart := by
  rw [sortedNames_eq, sortedNames_eq, List.filter_true]
  have hsplit := insertionSort_eq_append PartName.Before (fun name => !name.isPart)
    (namesIn s dir) ?_
  · simpa using hsplit
  · intro m _ n _ hm hn
    have hpart : n.isPart = true := by simpa using hn
    cases m with
    | compacted c =>
        have hlt := PartName.compacted_lt_part c hpart
        exact ⟨hlt.le, not_le.2 hlt⟩
    | hourPart hour suffix => cases hm
    | part suffix => cases hm

lemma readNames_congr {s s' : Store ρ} {dir : Partition} {names : List PartName}
    (h : ∀ name ∈ names, s'.get? ⟨dir, name⟩ = s.get? ⟨dir, name⟩) :
    s'.readNames dir names = s.readNames dir names := by
  refine List.flatMap_congr ?_
  intro name hname
  rw [Dict.getD, Dict.getD, h name hname]

/-! ## Before and after -/

section Compact

variable {s : Store ρ} {partition : Partition} {now : Int}

lemma LaterSuffix.fresh (h : LaterSuffix s partition now) :
    ⟨partition, .compacted now⟩ ∉ s.keys :=
  fun hmem => lt_irrefl now (h.later now hmem)

/-- What a compaction that has work to do leaves in the tree. -/
lemma compactPartition_spec
    (hmany : ¬ (s.sortedNames partition PartName.isPart).length ≤ 1)
    (hfresh : ⟨partition, .compacted now⟩ ∉ s.keys) :
    Dict.keys (compactPartition s partition now).1 =
        (s.keys.filter fun path =>
          decide (¬ (path.partition = partition ∧ path.name.isPart = true))) ++
          [⟨partition, .compacted now⟩] ∧
      Dict.get? (compactPartition s partition now).1 ⟨partition, .compacted now⟩ =
        some (s.readNames partition (s.sortedNames partition PartName.isPart)) ∧
      ∀ path ∈ s.keys, ¬ (path.partition = partition ∧ path.name.isPart = true) →
        Dict.get? (compactPartition s partition now).1 path = s.get? path := by
  let files := s.sortedNames partition PartName.isPart
  let paths := files.map fun name => PartPath.mk partition name
  let written := s.write ⟨partition, .compacted now⟩ (s.readNames partition files)
  have hrun : (compactPartition s partition now).1 = paths.foldl Dict.erase written := by
    simp only [compactPartition, hmany, if_false]
    rfl
  have hpaths : ∀ path ∈ s.keys,
      path ∈ paths ↔ path.partition = partition ∧ path.name.isPart = true := by
    intro path hkey
    constructor
    · intro hpath
      rcases List.mem_map.1 hpath with ⟨name, hname, rfl⟩
      exact ⟨rfl, (mem_sortedNames_iff.1 hname).2⟩
    · rintro ⟨rfl, hpart⟩
      exact List.mem_map.2 ⟨path.name, mem_sortedNames_iff.2 ⟨hkey, hpart⟩, rfl⟩
  have hnew : (⟨partition, .compacted now⟩ : PartPath) ∉ paths := by
    intro hpath
    rcases List.mem_map.1 hpath with ⟨name, hname, heq⟩
    have hcompacted : name = .compacted now := congrArg PartPath.name heq
    have hpart := (mem_sortedNames_iff.1 hname).2
    rw [hcompacted] at hpart
    cases hpart
  rw [hrun]
  refine ⟨?_, ?_, ?_⟩
  · have hkeys : Dict.keys written = s.keys ++ [⟨partition, .compacted now⟩] :=
      Dict.keys_set_of_notMem _ hfresh
    rw [Dict.keys_foldl_erase, hkeys, List.filter_append]
    congr 1
    · refine List.filter_congr ?_
      intro path hkey
      exact decide_eq_decide.2 (not_congr (hpaths path hkey))
    · simp [hnew]
  · rw [Dict.get?_foldl_erase paths written hnew]
    exact Dict.get?_set_self _ _ _
  · intro path hkey hkeep
    have hout : path ∉ paths := fun hmem => hkeep ((hpaths path hkey).1 hmem)
    rw [Dict.get?_foldl_erase paths written hout]
    refine Dict.get?_set_ne _ _ ?_
    rintro rfl
    exact hfresh hkey

/-- The names after a compaction: other directories as they were, in this one the compacted files
and the new one. -/
lemma namesIn_compactPartition
    (hmany : ¬ (s.sortedNames partition PartName.isPart).length ≤ 1)
    (hfresh : ⟨partition, .compacted now⟩ ∉ s.keys) (dir : Partition) :
    namesIn (compactPartition s partition now).1 dir =
      if dir = partition then
        ((namesIn s dir).filter fun name => !name.isPart) ++ [.compacted now]
      else namesIn s dir := by
  rw [namesIn, (compactPartition_spec hmany hfresh).1, List.filter_append, List.filter_filter,
    List.map_append]
  by_cases hdir : dir = partition
  · subst hdir
    rw [if_pos rfl, namesIn, List.filter_map, List.filter_filter]
    congr 1
    · refine congrArg (List.map PartPath.name) (List.filter_congr ?_)
      intro path _
      by_cases hpath : path.partition = dir
      · simp [hpath]
      · simp [hpath]
    · simp
  · have hother : ¬ partition = dir := fun h => hdir h.symm
    rw [if_neg hdir, namesIn]
    have hnone : (([⟨partition, .compacted now⟩] : List PartPath).filter
        fun path => decide (path.partition = dir)) = [] := by simp [hother]
    rw [hnone, List.map_nil, List.append_nil]
    refine congrArg (List.map PartPath.name) (List.filter_congr ?_)
    intro path _
    by_cases hpath : path.partition = dir
    · simp [hpath, hdir]
    · simp [hpath]

/-- Compaction leaves the sequence of rows of every directory as it was. -/
theorem readAll_compactPartition (hlater : LaterSuffix s partition now) (dir : Partition) :
    readAll (compactPartition s partition now).1 dir = readAll s dir := by
  by_cases hmany : (s.sortedNames partition PartName.isPart).length ≤ 1
  · simp only [compactPartition, hmany, if_true]
  · rcases compactPartition_spec hmany hlater.fresh with ⟨_, hnew, hkeep⟩
    have hnames := namesIn_compactPartition hmany hlater.fresh dir
    have hmem : ∀ name, name ∈ namesIn s dir → ⟨dir, name⟩ ∈ s.keys := by
      intro name hname
      rcases List.mem_map.1 hname with ⟨path, hpath, rfl⟩
      have hin := List.mem_filter.1 hpath
      have hdir : path.partition = dir := of_decide_eq_true hin.2
      rw [← hdir]
      exact hin.1
    unfold readAll
    by_cases hdir : dir = partition
    · subst hdir
      rw [if_pos rfl] at hnames
      -- The new file sorts behind the old compacted ones, where the parts were.
      have hlast : ∀ name ∈ (namesIn s dir).filter fun name => !name.isPart,
          PartName.Before name (.compacted now) := by
        intro name hname
        have hin := List.mem_filter.1 hname
        cases name with
        | compacted c =>
            have hkey := hmem _ hin.1
            exact (PartName.compacted_lt_compacted (hlater.nonneg c hkey) (hlater.later c hkey)
              (hlater.sameLength c hkey)).le
        | hourPart hour suffix => cases hin.2
        | part suffix => cases hin.2
      rw [sortedNames_eq (compactPartition s dir now).1, List.filter_true, hnames,
        insertionSort_concat PartName.Before hlast, sortedNames_all_eq]
      simp only [Store.readNames, List.flatMap_append]
      congr 1
      · refine List.flatMap_congr ?_
        intro name hname
        have hin := List.mem_filter.1 ((List.mem_insertionSort _).1 hname)
        have hget := hkeep ⟨dir, name⟩ (hmem name hin.1) (by simpa using hin.2)
        rw [Dict.getD, Dict.getD, hget]
      · rw [List.flatMap_singleton, Dict.getD, hnew]
        rfl
    · rw [if_neg hdir] at hnames
      rw [sortedNames_eq, sortedNames_eq, hnames]
      refine readNames_congr ?_
      intro name hname
      refine hkeep ⟨dir, name⟩ (hmem name ?_) (fun h => hdir h.1)
      simpa using hname

end Compact

end CryptoData
