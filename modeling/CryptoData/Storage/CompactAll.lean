import CryptoData.Storage.CompactOrder
import Mathlib.Algebra.GroupWithZero.Nat

/-!
# CompactAll — the nightly job over all directories

`compact_all` goes through the directories of all tables under both roots and merges the parts of
each; directories of a table without a schema are passed over.  What one visit does to its directory
the others do not undo, since a visit leaves the files of all other directories alone
(`get?_visit_of_ne`).

So afterwards no directory of a known table has more than one part, every row lies where it lay, and
a second run finds nothing to do, whenever and in whatever order it comes (`compact_all_settles`).
-/

namespace CryptoData

open Foundation

variable {ρ : Type*}

/-! ## The algorithm -/

/-- The directories under a root, in the order in which they are found, each with what the clock
shows there. -/
abbrev Visits := List (Partition × Int)

/-- `for table_dir in root.iterdir(): for part_dir in table_dir.rglob("date=*")`. -/
def compactRoot : Visits → Store ρ → Store ρ × ℕ
  | [], s => (s, 0)
  | (dir, now) :: visits, s =>
      -- `schema_for(table)` raises a `KeyError` for any other table.
      if dir.table ∈ schemaTables then
        let out := compactPartition s dir now
        let rest := compactRoot visits out.1
        (rest.1, out.2 + rest.2)
      else compactRoot visits s

/-- The two trees after the run, and the number of files that were merged. -/
structure Compacted (ρ : Type*) where
  raw : Store ρ
  derived : Store ρ
  total : ℕ

/-- `compact_all()`. -/
def compactAll (raw derived : Store ρ) (rawVisits derivedVisits : Visits) : Compacted ρ where
  raw := (compactRoot rawVisits raw).1
  derived := (compactRoot derivedVisits derived).1
  total := (compactRoot rawVisits raw).2 + (compactRoot derivedVisits derived).2

/-! ## One visit -/

/-- The parts of a directory. -/
def partsOf (s : Store ρ) (dir : Partition) : List PartName :=
  s.sortedNames dir PartName.isPart

/-- Every directory of a file is found once, and no reading is the suffix of a compacted file. -/
structure Finds (s : Store ρ) (visits : Visits) : Prop where
  nodup : (visits.map Prod.fst).Nodup
  all : ∀ path ∈ s.keys, path.partition ∈ visits.map Prod.fst
  fresh : ∀ visit ∈ visits, (⟨visit.1, .compacted visit.2⟩ : PartPath) ∉ s.keys

/-- What the visits leave of a root. -/
structure Settles (visits : Visits) (s s' : Store ρ) : Prop where
  located : s'.located = s.located
  -- Where there was something to merge, no part is left.
  merged : ∀ dir ∈ visits.map Prod.fst, dir.table ∈ schemaTables → 2 ≤ (partsOf s dir).length →
    ∀ name, name.isPart = true → s'.get? ⟨dir, name⟩ = none
  untouched : ∀ path : PartPath, path.partition ∉ visits.map Prod.fst ∨
    path.partition.table ∉ schemaTables ∨ (partsOf s path.partition).length ≤ 1 →
      s'.get? path = s.get? path

section Visit

variable {s : Store ρ} {dir : Partition} {now : Int}

lemma compactPartition_of_few (h : (partsOf s dir).length ≤ 1) :
    compactPartition s dir now = (s, 0) := if_pos h

lemma total_compactPartition :
    (compactPartition s dir now).2 =
      if (partsOf s dir).length ≤ 1 then 0 else (partsOf s dir).length := by
  by_cases hfew : (partsOf s dir).length ≤ 1
  · rw [compactPartition_of_few hfew, if_pos hfew]
  · rw [if_neg hfew]
    exact congrArg Prod.snd (if_neg hfew)

/-- Files outside the directory stay as they are. -/
lemma get?_visit_of_ne (hfresh : (⟨dir, .compacted now⟩ : PartPath) ∉ s.keys) {path : PartPath}
    (hne : path.partition ≠ dir) :
    Dict.get? (compactPartition s dir now).1 path = s.get? path := by
  by_cases hfew : (partsOf s dir).length ≤ 1
  · rw [compactPartition_of_few hfew]
  · rcases compactPartition_spec hfew hfresh with ⟨hkeys, _, hkeep⟩
    by_cases hmem : path ∈ s.keys
    · exact hkeep path hmem fun h => hne h.1
    · -- What was not there has not been created.
      have hout : path ∉ Dict.keys (compactPartition s dir now).1 := by
        rw [hkeys, List.mem_append, not_or, List.mem_singleton]
        refine ⟨fun h => hmem (List.mem_filter.1 h).1, ?_⟩
        intro heq
        exact hne (congrArg PartPath.partition heq)
      rw [Dict.get?_eq_none_iff.2 hout, Dict.get?_eq_none_iff.2 hmem]

lemma partsOf_visit_of_ne (hfresh : (⟨dir, .compacted now⟩ : PartPath) ∉ s.keys)
    {dir' : Partition} (hne : dir' ≠ dir) :
    partsOf (compactPartition s dir now).1 dir' = partsOf s dir' := by
  by_cases hfew : (partsOf s dir).length ≤ 1
  · rw [compactPartition_of_few hfew]
  · rw [partsOf, partsOf, sortedNames_eq, sortedNames_eq, namesIn_compactPartition hfew hfresh,
      if_neg hne]

lemma part_visit_self (hfresh : (⟨dir, .compacted now⟩ : PartPath) ∉ s.keys)
    (hmany : ¬ (partsOf s dir).length ≤ 1) {name : PartName} (hpart : name.isPart = true) :
    Dict.get? (compactPartition s dir now).1 ⟨dir, name⟩ = none := by
  refine Dict.get?_eq_none_iff.2 ?_
  rw [(compactPartition_spec hmany hfresh).1, List.mem_append, not_or, List.mem_singleton]
  constructor
  · intro h
    exact of_decide_eq_true (List.mem_filter.1 h).2 ⟨rfl, hpart⟩
  · intro heq
    have hname : name = .compacted now := congrArg PartPath.name heq
    rw [hname] at hpart
    cases hpart

end Visit

/-! ## All visits -/

section Root

/-- The parts that the known directories with more than one have. -/
def toMerge (s : Store ρ) (visits : Visits) : ℕ :=
  (visits.map fun visit =>
    if visit.1.table ∈ schemaTables ∧ 2 ≤ (partsOf s visit.1).length then
      (partsOf s visit.1).length
    else 0).sum

/-- The directories of the later visits are as before. -/
lemma toMerge_visit {s : Store ρ} {dir : Partition} {now : Int} {visits : Visits}
    (hfresh : (⟨dir, .compacted now⟩ : PartPath) ∉ s.keys) (hout : dir ∉ visits.map Prod.fst) :
    toMerge (compactPartition s dir now).1 visits = toMerge s visits := by
  refine congrArg List.sum (List.map_congr_left ?_)
  intro visit hvisit
  have hne : visit.1 ≠ dir := by
    intro heq
    exact hout (heq ▸ List.mem_map_of_mem hvisit)
  rw [partsOf_visit_of_ne hfresh hne]

lemma compactRoot_cons_known {s : Store ρ} {dir : Partition} {now : Int} {visits : Visits}
    (hknown : dir.table ∈ schemaTables) :
    compactRoot ((dir, now) :: visits) s =
      ((compactRoot visits (compactPartition s dir now).1).1,
        (compactPartition s dir now).2 + (compactRoot visits (compactPartition s dir now).1).2) :=
  if_pos hknown

lemma compactRoot_cons_unknown {s : Store ρ} {dir : Partition} {now : Int} {visits : Visits}
    (hunknown : dir.table ∉ schemaTables) :
    compactRoot ((dir, now) :: visits) s = compactRoot visits s := if_neg hunknown

/-- A visit, and then the others. -/
lemma Settles.cons {s s' : Store ρ} {dir : Partition} {now : Int} {visits : Visits}
    (hknown : dir.table ∈ schemaTables)
    (hfresh : (⟨dir, .compacted now⟩ : PartPath) ∉ s.keys) (hout : dir ∉ visits.map Prod.fst)
    (hrest : Settles visits (compactPartition s dir now).1 s') :
    Settles ((dir, now) :: visits) s s' where
  located := hrest.located.trans (compactPartition_located hfresh)
  merged := by
    intro dir' hdir' hknown hmany name hpart
    by_cases hsame : dir' = dir
    · subst hsame
      rw [hrest.untouched ⟨dir', name⟩ (Or.inl hout)]
      exact part_visit_self hfresh (not_le.2 hmany) hpart
    · have hlater : dir' ∈ visits.map Prod.fst := (List.mem_cons.1 hdir').resolve_left hsame
      rw [← partsOf_visit_of_ne hfresh hsame] at hmany
      exact hrest.merged dir' hlater hknown hmany name hpart
  untouched := by
    intro path hpath
    by_cases hsame : path.partition = dir
    · -- Its own visit has done nothing, and no other one comes by.
      rw [hrest.untouched path (Or.inl (by rw [hsame]; exact hout))]
      rcases hpath with hnot | hunknown | hfew
      · exact absurd (hsame ▸ List.mem_cons_self) hnot
      · exact absurd (hsame ▸ hknown) hunknown
      · rw [hsame] at hfew
        rw [compactPartition_of_few hfew]
    · rw [← get?_visit_of_ne hfresh hsame]
      refine hrest.untouched path ?_
      rw [partsOf_visit_of_ne hfresh hsame]
      refine hpath.imp_left ?_
      intro hnot hlater
      exact hnot (List.mem_cons_of_mem dir hlater)

/-- The run over one root. -/
lemma compactRoot_spec :
    ∀ (visits : Visits) (s : Store ρ), (visits.map Prod.fst).Nodup →
      (∀ visit ∈ visits, (⟨visit.1, .compacted visit.2⟩ : PartPath) ∉ s.keys) →
        Settles visits s (compactRoot visits s).1 ∧ (compactRoot visits s).2 = toMerge s visits
  | [], s, _, _ => ⟨⟨rfl, fun _ hdir => absurd hdir List.not_mem_nil, fun _ _ => rfl⟩, rfl⟩
  | (dir, now) :: visits, s, hnodup, hfresh => by
      have hcons := List.nodup_cons.1 hnodup
      by_cases hknown : dir.table ∈ schemaTables
      · have hhere := hfresh (dir, now) List.mem_cons_self
        have hlater : ∀ visit ∈ visits,
            (⟨visit.1, .compacted visit.2⟩ : PartPath) ∉
              Dict.keys (compactPartition s dir now).1 := by
          intro visit hvisit hmem
          rcases mem_keys_compactPartition hmem with heq | hold
          · have hdir : visit.1 = dir := congrArg PartPath.partition heq
            exact hcons.1 (List.mem_map.2 ⟨visit, hvisit, hdir⟩)
          · exact hfresh visit (List.mem_cons_of_mem _ hvisit) hold
        have hrest := compactRoot_spec visits (compactPartition s dir now).1 hcons.2 hlater
        rw [compactRoot_cons_known hknown]
        refine ⟨Settles.cons hknown hhere hcons.1 hrest.1, ?_⟩
        rw [hrest.2, toMerge_visit hhere hcons.1, total_compactPartition]
        have hmany : (dir.table ∈ schemaTables ∧ 2 ≤ (partsOf s dir).length) ↔
            ¬ (partsOf s dir).length ≤ 1 := by
          rw [not_le]
          exact and_iff_right hknown
        simp only [toMerge, List.map_cons, List.sum_cons, hmany, ite_not]
      · have hrest := compactRoot_spec visits s hcons.2 fun visit hvisit =>
          hfresh visit (List.mem_cons_of_mem _ hvisit)
        rw [compactRoot_cons_unknown hknown]
        refine ⟨⟨hrest.1.located, ?_, ?_⟩, ?_⟩
        · intro dir' hdir' hknown'
          rcases List.mem_cons.1 hdir' with heq | hin
          · subst heq
            exact absurd hknown' hknown
          · exact hrest.1.merged dir' hin hknown'
        · intro path hpath
          refine hrest.1.untouched path ?_
          refine hpath.imp_left ?_
          intro hnot hin
          exact hnot (List.mem_cons_of_mem dir hin)
        · rw [hrest.2]
          simp only [toMerge, List.map_cons, List.sum_cons, hknown, false_and, if_false, zero_add]

/-- A part of a directory is a file of the tree. -/
lemma mem_partsOf_iff {s : Store ρ} {dir : Partition} {name : PartName} :
    name ∈ partsOf s dir ↔ s.get? ⟨dir, name⟩ ≠ none ∧ name.isPart = true := by
  rw [partsOf, mem_sortedNames_iff, Ne, Dict.get?_eq_none_iff, not_not]

/-- No directory of a known table is left with more than one part. -/
lemma Settles.few {visits : Visits} {s s' : Store ρ} (h : Settles visits s s')
    (hall : ∀ path ∈ s.keys, path.partition ∈ visits.map Prod.fst) {dir : Partition}
    (hknown : dir.table ∈ schemaTables) : (partsOf s' dir).length ≤ 1 := by
  by_cases hfew : (partsOf s dir).length ≤ 1
  · -- The parts are those from before.
    have hperm : (partsOf s' dir).Perm (partsOf s dir) := by
      refine (List.perm_ext_iff_of_nodup (sortedNames_nodup s' dir _)
        (sortedNames_nodup s dir _)).2 ?_
      intro name
      have hget := h.untouched ⟨dir, name⟩ (Or.inr (Or.inr hfew))
      exact mem_partsOf_iff.trans ((by rw [hget] : _ ↔ _).trans mem_partsOf_iff.symm)
    exact hperm.length_eq.trans_le hfew
  · have hmany : 2 ≤ (partsOf s dir).length := not_le.1 hfew
    have hdir : dir ∈ visits.map Prod.fst := by
      rcases List.exists_mem_of_length_pos (lt_of_lt_of_le Nat.zero_lt_two hmany) with
        ⟨name, hname⟩
      exact hall ⟨dir, name⟩ (mem_sortedNames_iff.1 hname).1
    have hnone : partsOf s' dir = [] := by
      refine List.eq_nil_iff_forall_not_mem.2 ?_
      intro name hname
      have hpart := mem_partsOf_iff.1 hname
      exact hpart.1 (h.merged dir hdir hknown hmany name hpart.2)
    rw [hnone]
    exact Nat.zero_le 1

/-- Where no known directory has two parts, nothing happens. -/
lemma compactRoot_of_few {s : Store ρ}
    (h : ∀ dir : Partition, dir.table ∈ schemaTables → (partsOf s dir).length ≤ 1) :
    ∀ visits : Visits, compactRoot visits s = (s, 0)
  | [] => rfl
  | (dir, now) :: visits => by
      have hrest := compactRoot_of_few h visits
      by_cases hknown : dir.table ∈ schemaTables
      · rw [compactRoot_cons_known hknown, compactPartition_of_few (h dir hknown), hrest,
          add_zero]
      · rw [compactRoot_cons_unknown hknown, hrest]

end Root

/-- The nightly job leaves every row in its directory and at most one part in each directory of a
known table, counts the files it has merged, and then has nothing to do at any later run. -/
theorem compact_all_settles (raw derived : Store ρ) (rawVisits derivedVisits : Visits)
    (hraw : Finds raw rawVisits) (hderived : Finds derived derivedVisits) :
    let out := compactAll raw derived rawVisits derivedVisits
    Settles rawVisits raw out.raw ∧ Settles derivedVisits derived out.derived ∧
      out.total = toMerge raw rawVisits + toMerge derived derivedVisits ∧
      (∀ dir : Partition, dir.table ∈ schemaTables →
        (partsOf out.raw dir).length ≤ 1 ∧ (partsOf out.derived dir).length ≤ 1) ∧
      ∀ rawVisits' derivedVisits' : Visits,
        compactAll out.raw out.derived rawVisits' derivedVisits' = ⟨out.raw, out.derived, 0⟩ := by
  have hr := compactRoot_spec rawVisits raw hraw.nodup hraw.fresh
  have hd := compactRoot_spec derivedVisits derived hderived.nodup hderived.fresh
  have hfewRaw : ∀ dir : Partition, dir.table ∈ schemaTables →
      (partsOf (compactRoot rawVisits raw).1 dir).length ≤ 1 :=
    fun dir hknown => hr.1.few hraw.all hknown
  have hfewDerived : ∀ dir : Partition, dir.table ∈ schemaTables →
      (partsOf (compactRoot derivedVisits derived).1 dir).length ≤ 1 :=
    fun dir hknown => hd.1.few hderived.all hknown
  refine ⟨hr.1, hd.1, ?_, fun dir hknown => ⟨hfewRaw dir hknown, hfewDerived dir hknown⟩, ?_⟩
  · rw [compactAll, hr.2, hd.2]
  · intro rawVisits' derivedVisits'
    simp only [compactAll, compactRoot_of_few hfewRaw, compactRoot_of_few hfewDerived]

/-- Two days of trades, of which one has two parts, and a directory without a schema. -/
def unsettled : Store ℕ :=
  ((((Dict.empty.set ⟨⟨"trades", "BTC-USD", "okx", "2026-05-12"⟩, .part 1⟩ [1]).set
    ⟨⟨"trades", "BTC-USD", "okx", "2026-05-12"⟩, .part 2⟩ [2]).set
    ⟨⟨"trades", "BTC-USD", "okx", "2026-05-13"⟩, .part 3⟩ [3]).set
    ⟨⟨"scratch", "BTC-USD", "okx", "2026-05-12"⟩, .part 1⟩ [4]).set
    ⟨⟨"scratch", "BTC-USD", "okx", "2026-05-12"⟩, .part 2⟩ [5]

def unsettledVisits : Visits :=
  [(⟨"scratch", "BTC-USD", "okx", "2026-05-12"⟩, 7),
    (⟨"trades", "BTC-USD", "okx", "2026-05-13"⟩, 8),
    (⟨"trades", "BTC-USD", "okx", "2026-05-12"⟩, 9)]

theorem compact_all_settles_two_days :
    (compactAll unsettled Dict.empty unsettledVisits []).total = 2 ∧
      (compactAll unsettled Dict.empty unsettledVisits []).raw.located = unsettled.located := by
  have h := compact_all_settles unsettled Dict.empty unsettledVisits []
    ⟨by decide +kernel, by decide +kernel, by decide +kernel⟩
    ⟨List.nodup_nil, fun _ hpath => absurd hpath List.not_mem_nil,
      fun _ hvisit => absurd hvisit List.not_mem_nil⟩
  exact ⟨h.2.2.1.trans (by decide +kernel), h.1.located⟩

end CryptoData
