import Mathlib.Data.List.Sort

/-!
# StableSort — what sorting keeps

Insertion sort is stable, which is what the sort of a scripting language promises.

1. Sorting separates: if every element of one kind precedes every element of the other, the sorted
   list is the sorted elements of the first kind followed by those of the second
   (`insertionSort_eq_append`), and an element after all others goes to the end
   (`insertionSort_concat`).
2. Sorting by a key goes up in the key, and without ties there is no other such order
   (`insertionSort_key_eq`).
3. Sorting keeps the order of ties (`insertionSort_ties`).  So a list whose ties go down in a second
   key goes up in it after sorting exactly if it has no ties (`insertionSort_increasing_iff`).
-/

namespace Foundation

variable {α : Type*}

/-! ## Separation -/

section Separation

variable (r : α → α → Prop) [DecidableRel r]

lemma orderedInsert_append_left {a : α} {ys : List α} (h : ∀ y ∈ ys, r a y) :
    ∀ xs : List α, (xs ++ ys).orderedInsert r a = xs.orderedInsert r a ++ ys
  | [] => by
      cases ys with
      | nil => rfl
      | cons y ys =>
          rw [List.nil_append, List.orderedInsert_cons_of_le r ys (h y List.mem_cons_self)]
          rfl
  | x :: xs => by
      by_cases hx : r a x
      · rw [List.cons_append, List.orderedInsert_cons_of_le r _ hx,
          List.orderedInsert_cons_of_le r _ hx]
        rfl
      · rw [List.cons_append, List.orderedInsert_of_not_le r _ hx,
          List.orderedInsert_of_not_le r _ hx, orderedInsert_append_left h xs]
        rfl

lemma orderedInsert_append_right {a : α} (ys : List α) :
    ∀ {xs : List α}, (∀ x ∈ xs, ¬ r a x) →
      (xs ++ ys).orderedInsert r a = xs ++ ys.orderedInsert r a
  | [], _ => rfl
  | x :: xs, h => by
      rw [List.cons_append, List.orderedInsert_of_not_le r _ (h x List.mem_cons_self),
        orderedInsert_append_right ys fun x' hx' => h x' (List.mem_cons_of_mem x hx')]
      rfl

/-- Everything of the first kind precedes everything of the second. -/
theorem insertionSort_eq_append (p : α → Bool) :
    ∀ l : List α,
      (∀ x ∈ l, ∀ y ∈ l, p x = true → p y = false → r x y ∧ ¬ r y x) →
      l.insertionSort r =
        (l.filter p).insertionSort r ++ (l.filter fun x => !p x).insertionSort r
  | [], _ => rfl
  | a :: l, h => by
      have htail := insertionSort_eq_append p l fun x hx y hy =>
        h x (List.mem_cons_of_mem a hx) y (List.mem_cons_of_mem a hy)
      rw [List.insertionSort_cons, htail]
      cases hp : p a with
      | true =>
          have hbefore : ∀ y ∈ (l.filter fun x => !p x).insertionSort r, r a y := by
            intro y hy
            have hmem := List.mem_filter.1 ((List.mem_insertionSort r).1 hy)
            exact (h a List.mem_cons_self y (List.mem_cons_of_mem a hmem.1) hp
              (by simpa using hmem.2)).1
          rw [orderedInsert_append_left r hbefore]
          simp [hp]
      | false =>
          have hafter : ∀ x ∈ (l.filter p).insertionSort r, ¬ r a x := by
            intro x hx
            have hmem := List.mem_filter.1 ((List.mem_insertionSort r).1 hx)
            exact (h x (List.mem_cons_of_mem a hmem.1) a List.mem_cons_self hmem.2 hp).2
          rw [orderedInsert_append_right r _ hafter]
          simp [hp]

/-- What comes after everything else is sorted to the end. -/
theorem insertionSort_concat {b : α} :
    ∀ {l : List α}, (∀ x ∈ l, r x b) → (l ++ [b]).insertionSort r = l.insertionSort r ++ [b]
  | [], _ => rfl
  | a :: l, h => by
      have hlast : ∀ y ∈ [b], r a y := by
        intro y hy
        rw [List.mem_singleton.1 hy]
        exact h a List.mem_cons_self
      rw [List.cons_append, List.insertionSort_cons,
        insertionSort_concat fun x hx => h x (List.mem_cons_of_mem a hx),
        orderedInsert_append_left r hlast]
      rfl

end Separation

/-! ## Ties -/

section Ties

variable {κ : Type*} [LinearOrder κ] (key : α → κ) {R : α → α → Prop}

/-- Sorted by a key, a list goes up in it. -/
theorem insertionSort_key_sorted (xs : List α) :
    (xs.insertionSort fun x y => key x ≤ key y).Pairwise fun x y => key x ≤ key y := by
  have htrans : IsTrans α fun x y => key x ≤ key y := ⟨fun _ _ _ => le_trans⟩
  have htotal : Std.Total fun x y : α => key x ≤ key y := ⟨fun _ _ => le_total _ _⟩
  exact List.pairwise_insertionSort (fun x y => key x ≤ key y) xs

/-- Without ties there is one order. -/
theorem insertionSort_key_eq {xs ys : List α} (hdistinct : (xs.map key).Nodup)
    (hperm : ys.Perm xs) (hsorted : ys.Pairwise fun x y => key x ≤ key y) :
    (xs.insertionSort fun x y => key x ≤ key y) = ys := by
  have hsort : (xs.insertionSort fun x y => key x ≤ key y).Perm xs := List.perm_insertionSort _ xs
  refine (hsort.trans hperm.symm).eq_of_pairwise ?_ (insertionSort_key_sorted key xs) hsorted
  intro x y hx hy hxy hyx
  exact List.inj_on_of_nodup_map hdistinct (hsort.mem_iff.1 hx) (hperm.mem_iff.1 hy)
    (le_antisymm hxy hyx)

/-- An inserted element stands before the elements of its key. -/
lemma orderedInsert_ties {a : α} :
    ∀ {xs : List α}, (xs.Pairwise fun x y => key x ≤ key y) →
      (xs.Pairwise fun x y => key x = key y → R x y) → (∀ x ∈ xs, key a = key x → R a x) →
        (xs.orderedInsert (fun x y => key x ≤ key y) a).Pairwise
          fun x y => key x = key y → R x y
  | [], _, _, _ => List.pairwise_singleton _ a
  | x :: xs, hsorted, hties, hnew => by
      have hsortedCons := List.pairwise_cons.1 hsorted
      have htiesCons := List.pairwise_cons.1 hties
      by_cases hle : key a ≤ key x
      · rw [List.orderedInsert_cons_of_le (fun x y => key x ≤ key y) xs hle]
        exact List.pairwise_cons.2 ⟨hnew, hties⟩
      · rw [List.orderedInsert_of_not_le (fun x y => key x ≤ key y) xs hle]
        refine List.pairwise_cons.2 ⟨?_, orderedInsert_ties hsortedCons.2 htiesCons.2
          fun y hy => hnew y (List.mem_cons_of_mem x hy)⟩
        intro y hy heq
        rcases List.mem_cons.1 ((List.perm_orderedInsert _ a xs).mem_iff.1 hy) with rfl | hy
        · exact absurd heq.ge hle
        · exact htiesCons.1 y hy heq

/-- Sorting keeps the order of ties. -/
theorem insertionSort_ties :
    ∀ {xs : List α}, (xs.Pairwise fun x y => key x = key y → R x y) →
      (xs.insertionSort fun x y => key x ≤ key y).Pairwise fun x y => key x = key y → R x y
  | [], _ => List.Pairwise.nil
  | x :: xs, h => by
      have hcons := List.pairwise_cons.1 h
      rw [List.insertionSort_cons]
      refine orderedInsert_ties key (insertionSort_key_sorted key xs)
        (insertionSort_ties hcons.2) ?_
      intro y hy
      exact hcons.1 y ((List.mem_insertionSort _).1 hy)

/-- Where ties go down in a second key, the sorted list goes up in it exactly if there are none. -/
theorem insertionSort_increasing_iff {ι : Type*} [LinearOrder ι] {id : α → ι} {xs : List α}
    (hmono : ∀ x ∈ xs, ∀ y ∈ xs, key x < key y → id x < id y)
    (hties : xs.Pairwise fun x y => key x = key y → id y < id x) :
    ((xs.insertionSort fun x y => key x ≤ key y).Pairwise fun x y => id x < id y) ↔
      xs.Pairwise fun x y => key x ≠ key y := by
  have hsym : ∀ {x y : α}, key x ≠ key y → key y ≠ key x := fun h => h.symm
  have hperm : (xs.insertionSort fun x y => key x ≤ key y).Perm xs := List.perm_insertionSort _ xs
  rw [← hperm.pairwise_iff hsym]
  have hdown := insertionSort_ties key hties
  have hsorted := insertionSort_key_sorted key xs
  constructor
  · intro hup
    refine hup.imp₂ ?_ hdown
    intro x y hlt htie heq
    exact lt_asymm hlt (htie heq)
  · intro hne
    refine (hne.and hsorted).imp_of_mem ?_
    intro x y hx hy h
    exact hmono x (hperm.mem_iff.1 hx) y (hperm.mem_iff.1 hy) (lt_of_le_of_ne h.2 h.1)

end Ties

end Foundation
