import CryptoData.Foundation.Bucket
import Mathlib.Data.List.Perm.Subperm

/-!
# Upsert — writing a batch of rows into a keyed table

A table with a primary key is a dictionary, and `INSERT OR REPLACE` of a batch sets its rows one by
one.  A batch with distinct keys ends up in the table as it is, beside the old rows whose keys it
does not have (`mem_upsertAll_iff`).  So the table holds nothing but the batch exactly if the batch
has every old key (`upsertAll_perm_iff`), and counting the rows decides it
(`length_upsertAll_eq_iff`).  Writing the groups of a batch replaces each group that the batch has
a row of and leaves the others (`getD_upsertAll_bucket`).
-/

namespace Foundation
namespace Dict

variable {κ ν : Type*} [DecidableEq κ]

/-- `INSERT OR REPLACE INTO d VALUES ...`. -/
def upsertAll (d : Dict κ ν) (batch : List (κ × ν)) : Dict κ ν :=
  batch.foldl (fun d e => d.set e.1 e.2) d

theorem mem_upsertAll_iff {e : κ × ν} :
    ∀ {batch : List (κ × ν)} {d : Dict κ ν}, (batch.map Prod.fst).Nodup →
      (e ∈ (d.upsertAll batch).entries ↔
        e ∈ batch ∨ e.1 ∉ batch.map Prod.fst ∧ e ∈ d.entries)
  | [], d, _ => by simp [upsertAll]
  | f :: batch, d, h => by
      have hcons := List.nodup_cons.1 h
      have hrest := mem_upsertAll_iff (e := e) (d := d.set f.1 f.2) hcons.2
      have hstep : d.upsertAll (f :: batch) = (d.set f.1 f.2).upsertAll batch := rfl
      rw [hstep, hrest]
      have hset : e ∈ (d.set f.1 f.2).entries ↔ e = f ∨ e.1 ≠ f.1 ∧ e ∈ d.entries := by
        rw [← Prod.mk.eta (p := e), mem_set_iff, ← Prod.mk.eta (p := f), Prod.mk.injEq]
      rw [hset, List.map_cons, List.mem_cons, List.mem_cons, not_or]
      constructor
      · rintro (hbatch | ⟨hout, rfl | ⟨hne, hold⟩⟩)
        · exact Or.inl (Or.inr hbatch)
        · exact Or.inl (Or.inl rfl)
        · exact Or.inr ⟨⟨hne, hout⟩, hold⟩
      · rintro ((rfl | hbatch) | ⟨⟨hne, hout⟩, hold⟩)
        · exact Or.inr ⟨hcons.1, Or.inl rfl⟩
        · exact Or.inl hbatch
        · exact Or.inr ⟨hout, Or.inr ⟨hne, hold⟩⟩

section Batch

variable {batch : List (κ × ν)} {d : Dict κ ν} (hnodup : (batch.map Prod.fst).Nodup)
include hnodup

lemma subset_upsertAll : batch ⊆ (d.upsertAll batch).entries :=
  fun _ he => (mem_upsertAll_iff hnodup).2 (Or.inl he)

lemma mem_keys_upsertAll {k : κ} :
    k ∈ (d.upsertAll batch).keys ↔ k ∈ batch.map Prod.fst ∨ k ∈ d.keys := by
  constructor
  · intro hk
    rcases List.mem_map.1 hk with ⟨e, he, rfl⟩
    rcases (mem_upsertAll_iff hnodup).1 he with hbatch | ⟨_, hold⟩
    · exact Or.inl (List.mem_map.2 ⟨e, hbatch, rfl⟩)
    · exact Or.inr (List.mem_map.2 ⟨e, hold, rfl⟩)
  · intro hk
    by_cases hin : k ∈ batch.map Prod.fst
    · rcases List.mem_map.1 hin with ⟨e, he, rfl⟩
      exact List.mem_map.2 ⟨e, subset_upsertAll hnodup he, rfl⟩
    · rcases List.mem_map.1 (hk.resolve_left hin) with ⟨e, he, rfl⟩
      exact List.mem_map.2 ⟨e, (mem_upsertAll_iff hnodup).2 (Or.inr ⟨hin, he⟩), rfl⟩

/-- Only the batch is left exactly if it has every key of the table. -/
theorem upsertAll_perm_iff :
    (d.upsertAll batch).entries.Perm batch ↔ ∀ k ∈ d.keys, k ∈ batch.map Prod.fst := by
  constructor
  · intro hperm k hk
    have hmem := (mem_keys_upsertAll hnodup).2 (Or.inr hk)
    exact (hperm.map Prod.fst).mem_iff.1 hmem
  · intro hcover
    refine (List.perm_ext_iff_of_nodup (d.upsertAll batch).nodup.of_map hnodup.of_map).2 ?_
    intro e
    rw [mem_upsertAll_iff hnodup]
    constructor
    · rintro (hbatch | ⟨hout, hold⟩)
      · exact hbatch
      · exact absurd (hcover e.1 (mem_keys_of_mem hold)) hout
    · exact Or.inl

theorem length_upsertAll_eq_iff :
    (d.upsertAll batch).entries.length = batch.length ↔
      ∀ k ∈ d.keys, k ∈ batch.map Prod.fst := by
  rw [← upsertAll_perm_iff hnodup]
  constructor
  · intro hlen
    have hsub := hnodup.of_map.subperm (subset_upsertAll (d := d) hnodup)
    exact (hsub.perm_of_length_le hlen.le).symm
  · exact List.Perm.length_eq

end Batch

/-- The group of a key after the groups of a batch are written. -/
theorem getD_upsertAll_bucket {α : Type*} (f : α → κ) (xs : List α) (files : Dict κ (List α))
    (k : κ) :
    (files.upsertAll (bucket f xs).entries).getD k [] =
      if k ∈ xs.map f then xs.filter fun x => decide (f x = k) else files.getD k [] := by
  have hkeys : k ∈ xs.map f ↔ k ∈ (bucket f xs).keys := by
    rw [mem_keys_bucket, List.mem_map]
  by_cases hk : k ∈ xs.map f
  · rcases mem_keys_iff.1 (hkeys.1 hk) with ⟨group, hgroup⟩
    have hmem := subset_upsertAll (d := files) (bucket f xs).nodup (get?_eq_some_iff.1 hgroup)
    have hfilter := getD_bucket f xs k
    rw [getD, hgroup, Option.getD_some] at hfilter
    rw [if_pos hk, getD, get?_eq_some_iff.2 hmem, Option.getD_some]
    exact hfilter
  · have hget : (files.upsertAll (bucket f xs).entries).get? k = files.get? k := by
      refine Option.ext fun group => ?_
      rw [get?_eq_some_iff, get?_eq_some_iff, mem_upsertAll_iff (bucket f xs).nodup]
      have hout : k ∉ (bucket f xs).keys := fun h => hk (hkeys.2 h)
      constructor
      · rintro (hin | ⟨_, hold⟩)
        · exact absurd (mem_keys_of_mem hin) hout
        · exact hold
      · exact fun hold => Or.inr ⟨hout, hold⟩
    rw [if_neg hk, getD, hget, getD]

end Dict
end Foundation
