import CryptoData.Foundation.Dict

/-!
# Bucket — grouping a list under a key

`bucket f xs` is the loop `for x in xs: d.setdefault(f(x), []).append(x)`.  The bucket of `k` is
the subsequence of `xs` whose key is `k`, the keys are those that occur, and the buckets read in
the order of the sorted keys are a rearrangement of `xs`.
-/

namespace Foundation

variable {α κ ν : Type*}

/-! ## Keys in order -/

namespace Dict

variable [LinearOrder κ]

/-- `sorted(d)`. -/
def sortedKeys (d : Dict κ ν) : List κ :=
  d.keys.insertionSort (· ≤ ·)

theorem mem_sortedKeys {d : Dict κ ν} {k : κ} : k ∈ d.sortedKeys ↔ k ∈ d.keys :=
  List.mem_insertionSort _

theorem sortedKeys_nodup (d : Dict κ ν) : d.sortedKeys.Nodup :=
  (List.perm_insertionSort _ _).nodup_iff.2 d.keys_nodup

theorem sortedKeys_sortedLT (d : Dict κ ν) : d.sortedKeys.SortedLT :=
  List.sortedLE_insertionSort.sortedLT_of_nodup d.sortedKeys_nodup

end Dict

/-! ## The loop invariant -/

variable [DecidableEq κ]

def bucket (f : α → κ) (xs : List α) : Dict κ (List α) :=
  xs.foldl (fun d x => d.push (f x) x) Dict.empty

namespace Dict

theorem getD_push (d : Dict κ (List α)) (k j : κ) (x : α) :
    (d.push k x).getD j [] = if k = j then d.getD j [] ++ [x] else d.getD j [] := by
  by_cases h : k = j
  · subst h
    simp [push, getD]
  · have hne : j ≠ k := fun hj => h hj.symm
    simp [push, getD, get?_set_ne d _ hne, h]

theorem mem_keys_push {d : Dict κ (List α)} {k j : κ} {x : α} :
    j ∈ (d.push k x).keys ↔ j = k ∨ j ∈ d.keys :=
  mem_keys_set

end Dict

theorem getD_foldl_push (f : α → κ) (j : κ) :
    ∀ (xs : List α) (d : Dict κ (List α)),
      (xs.foldl (fun d x => d.push (f x) x) d).getD j [] =
        d.getD j [] ++ xs.filter (fun x => decide (f x = j))
  | [], d => by simp
  | x :: xs, d => by
      have htail := getD_foldl_push f j xs (d.push (f x) x)
      rw [List.foldl_cons, htail, Dict.getD_push]
      by_cases h : f x = j <;> simp [h]

theorem mem_keys_foldl_push (f : α → κ) (j : κ) :
    ∀ (xs : List α) (d : Dict κ (List α)),
      j ∈ (xs.foldl (fun d x => d.push (f x) x) d).keys ↔ j ∈ d.keys ∨ ∃ x ∈ xs, f x = j
  | [], d => by simp
  | x :: xs, d => by
      have htail := mem_keys_foldl_push f j xs (d.push (f x) x)
      rw [List.foldl_cons, htail, Dict.mem_keys_push]
      constructor
      · rintro ((rfl | h) | ⟨y, hy, rfl⟩)
        · exact Or.inr ⟨x, by simp, rfl⟩
        · exact Or.inl h
        · exact Or.inr ⟨y, by simp [hy], rfl⟩
      · rintro (h | ⟨y, hy, rfl⟩)
        · exact Or.inl (Or.inr h)
        · rcases List.mem_cons.1 hy with rfl | hy
          · exact Or.inl (Or.inl rfl)
          · exact Or.inr ⟨y, hy, rfl⟩

/-- The bucket of `k` is the subsequence of `xs` with key `k`. -/
theorem getD_bucket (f : α → κ) (xs : List α) (k : κ) :
    (bucket f xs).getD k [] = xs.filter (fun x => decide (f x = k)) := by
  simpa [bucket, Dict.getD] using getD_foldl_push f k xs Dict.empty

theorem mem_keys_bucket {f : α → κ} {xs : List α} {k : κ} :
    k ∈ (bucket f xs).keys ↔ ∃ x ∈ xs, f x = k := by
  simpa [bucket, Dict.keys, Dict.empty] using mem_keys_foldl_push f k xs Dict.empty

/-- Elements of one key make one bucket. -/
theorem entries_bucket_single {f : α → κ} {xs : List α} {k : κ} (hne : xs ≠ [])
    (hkey : ∀ x ∈ xs, f x = k) : (bucket f xs).entries = [(k, xs)] := by
  have hkeys : (bucket f xs).keys = [k] := by
    refine List.perm_singleton.1 ((List.perm_ext_iff_of_nodup (bucket f xs).keys_nodup
      (List.nodup_singleton k)).2 ?_)
    intro j
    rw [mem_keys_bucket, List.mem_singleton]
    constructor
    · rintro ⟨x, hx, rfl⟩
      exact hkey x hx
    · rintro rfl
      rcases List.exists_mem_of_ne_nil xs hne with ⟨x, hx⟩
      exact ⟨x, hx, hkey x hx⟩
  rcases List.map_eq_singleton_iff.1 hkeys with ⟨e, hentries, hfst⟩
  have hget : (bucket f xs).get? k = some e.2 := by
    refine Dict.get?_eq_some_iff.2 ?_
    rw [hentries, ← hfst]
    exact List.mem_singleton_self e
  have hall : (xs.filter fun x => decide (f x = k)) = xs :=
    List.filter_eq_self.2 fun x hx => decide_eq_true (hkey x hx)
  have hrows : e.2 = xs := by
    have hgetD := getD_bucket f xs k
    rw [hall, Dict.getD, hget] at hgetD
    exact hgetD
  rw [hentries, ← hfst, ← hrows]

/-! ## Buckets in key order -/

/-- Grouping by distinct keys rearranges the elements whose key is listed. -/
theorem flatMap_filter_perm (f : α → κ) (xs : List α) :
    ∀ {ks : List κ}, ks.Nodup →
      (ks.flatMap fun k => xs.filter fun x => decide (f x = k)).Perm
        (xs.filter fun x => decide (f x ∈ ks))
  | [], _ => by simp
  | k :: ks, h => by
      obtain ⟨hk, hks⟩ := List.nodup_cons.1 h
      have htail := flatMap_filter_perm f xs hks
      -- The elements with a listed key split into those with key `k` and the rest.
      have hhead : (xs.filter fun x => decide (f x ∈ k :: ks)).filter (fun x => decide (f x = k)) =
          xs.filter fun x => decide (f x = k) := by
        rw [List.filter_filter]
        refine List.filter_congr fun x _ => ?_
        by_cases hx : f x = k <;> simp [hx]
      have hrest : (xs.filter fun x => decide (f x ∈ k :: ks)).filter
          (fun x => !decide (f x = k)) = xs.filter fun x => decide (f x ∈ ks) := by
        rw [List.filter_filter]
        refine List.filter_congr fun x _ => ?_
        by_cases hx : f x = k
        · simp [hx, hk]
        · simp [hx]
      have hsplit := List.filter_append_perm (fun x => decide (f x = k))
        (xs.filter fun x => decide (f x ∈ k :: ks))
      rw [hhead, hrest] at hsplit
      simpa using (htail.append_left _).trans hsplit

/-- Adding up group by group gives the whole sum. -/
theorem sum_groups {M : Type*} [AddCommMonoid M] (f : α → κ) (g : α → M) (xs : List α)
    {ks : List κ} (hnodup : ks.Nodup) (hall : ∀ x ∈ xs, f x ∈ ks) :
    (ks.map fun k => ((xs.filter fun x => decide (f x = k)).map g).sum).sum = (xs.map g).sum := by
  have hperm := flatMap_filter_perm f xs hnodup
  have hself : (xs.filter fun x => decide (f x ∈ ks)) = xs := by
    refine List.filter_eq_self.2 fun x hx => ?_
    simpa using hall x hx
  rw [hself] at hperm
  have hsum : ∀ ks : List κ,
      (ks.map fun k => ((xs.filter fun x => decide (f x = k)).map g).sum).sum =
        ((ks.flatMap fun k => xs.filter fun x => decide (f x = k)).map g).sum := by
    intro ks
    induction ks with
    | nil => rfl
    | cons k ks ih => rw [List.map_cons, List.sum_cons, ih, List.flatMap_cons, List.map_append,
        List.sum_append]
  rw [hsum, (hperm.map g).sum_eq]

/-- Of lists that are put together key by key, the elements with one key are its list. -/
theorem filter_flatMap_key {f : α → κ} {g : κ → List α} (hkey : ∀ k, ∀ x ∈ g k, f x = k) {k : κ} :
    ∀ {ks : List κ}, ks.Nodup → k ∈ ks →
      ((ks.flatMap g).filter fun x => decide (f x = k)) = g k
  | j :: ks, hnodup, hk => by
      have hcons := List.nodup_cons.1 hnodup
      rw [List.flatMap_cons, List.filter_append]
      have hother : ∀ {js : List κ}, k ∉ js →
          ((js.flatMap g).filter fun x => decide (f x = k)) = [] := by
        intro js hout
        refine List.filter_eq_nil_iff.2 fun x hx hxk => ?_
        rcases List.mem_flatMap.1 hx with ⟨i, hi, hin⟩
        have hik : i = k := (hkey i x hin).symm.trans (of_decide_eq_true hxk)
        exact hout (hik ▸ hi)
      rcases List.mem_cons.1 hk with rfl | hin
      · rw [hother hcons.1, List.append_nil]
        refine List.filter_eq_self.2 fun x hx => ?_
        exact decide_eq_true (hkey k x hx)
      · have hne : j ≠ k := fun heq => hcons.1 (heq ▸ hin)
        have hnone : ((g j).filter fun x => decide (f x = k)) = [] := by
          refine List.filter_eq_nil_iff.2 fun x hx hxk => ?_
          exact hne ((hkey j x hx).symm.trans (of_decide_eq_true hxk))
        rw [hnone, List.nil_append, filter_flatMap_key hkey hcons.2 hin]

/-- The buckets of `xs`, read in the order of first appearance, are a rearrangement of `xs`. -/
theorem flatMap_entries_perm (f : α → κ) (xs : List α) :
    ((bucket f xs).entries.flatMap Prod.snd).Perm xs := by
  have hrows : (bucket f xs).entries.flatMap Prod.snd =
      (bucket f xs).keys.flatMap fun k => xs.filter fun x => decide (f x = k) := by
    unfold Dict.keys
    rw [List.flatMap_map]
    refine List.flatMap_congr fun e he => ?_
    have hget : (bucket f xs).get? e.1 = some e.2 := Dict.get?_eq_some_iff.2 he
    have hbucket := getD_bucket f xs e.1
    simpa [Dict.getD, hget] using hbucket
  have hall : (xs.filter fun x => decide (f x ∈ (bucket f xs).keys)) = xs := by
    refine List.filter_eq_self.2 fun x hx => ?_
    simpa using mem_keys_bucket.2 ⟨x, hx, rfl⟩
  rw [hrows]
  simpa [hall] using flatMap_filter_perm f xs (bucket f xs).keys_nodup

/-- The elements of the buckets are those of `xs`. -/
theorem exists_mem_bucket_iff (f : α → κ) (xs : List α) {p : α → Prop} :
    (∃ g ∈ (bucket f xs).entries, ∃ x ∈ g.2, p x) ↔ ∃ x ∈ xs, p x := by
  have hperm := flatMap_entries_perm f xs
  constructor
  · rintro ⟨g, hg, x, hx, hp⟩
    exact ⟨x, hperm.mem_iff.1 (List.mem_flatMap.2 ⟨g, hg, hx⟩), hp⟩
  · rintro ⟨x, hx, hp⟩
    rcases List.mem_flatMap.1 (hperm.mem_iff.2 hx) with ⟨g, hg, hxg⟩
    exact ⟨g, hg, x, hxg, hp⟩

section Sorted

variable [LinearOrder κ]

/-- The buckets of `xs`, read in the order of their keys, are a rearrangement of `xs`. -/
theorem flatMap_sortedKeys_perm (f : α → κ) (xs : List α) :
    ((bucket f xs).sortedKeys.flatMap fun k => xs.filter fun x => decide (f x = k)).Perm xs := by
  have hall : (xs.filter fun x => decide (f x ∈ (bucket f xs).sortedKeys)) = xs := by
    refine List.filter_eq_self.2 fun x hx => ?_
    have hkey : f x ∈ (bucket f xs).keys := mem_keys_bucket.2 ⟨x, hx, rfl⟩
    simpa [Dict.mem_sortedKeys] using hkey
  simpa [hall] using flatMap_filter_perm f xs (bucket f xs).sortedKeys_nodup

omit [DecidableEq κ] in
/-- On a sorted list, two filters with separated keys concatenate to one. -/
lemma filter_append_filter {f : α → κ} {p q : α → Bool}
    (hlt : ∀ x y, p x = true → q y = true → f x < f y) :
    ∀ {xs : List α}, (xs.Pairwise fun x y => f x ≤ f y) →
      xs.filter p ++ xs.filter q = xs.filter fun x => p x || q x
  | [], _ => rfl
  | x :: xs, h => by
      have hcons := List.pairwise_cons.1 h
      have htail := filter_append_filter hlt hcons.2
      cases hp : p x with
      | true =>
          have hq : q x = false := by
            by_contra hq
            exact lt_irrefl _ (hlt x x hp (by simpa using hq))
          simpa [hp, hq] using htail
      | false =>
          cases hq : q x with
          | false => simpa [hp, hq] using htail
          | true =>
              -- Behind an element of the second kind there is none of the first kind.
              have hnone : xs.filter p = [] := by
                refine List.filter_eq_nil_iff.2 ?_
                intro y hy hpy
                exact absurd (hlt y x hpy hq) (not_lt.2 (hcons.1 y hy))
              rw [hnone, List.nil_append] at htail
              simp [hp, hq, hnone, htail]

/-- On a sorted list, the buckets of increasing keys concatenate to the elements with a listed
key, in their order. -/
theorem flatMap_filter_eq {f : α → κ} {xs : List α} (hsorted : xs.Pairwise fun x y => f x ≤ f y) :
    ∀ {ks : List κ}, ks.Pairwise (· < ·) →
      (ks.flatMap fun k => xs.filter fun x => decide (f x = k)) =
        xs.filter fun x => decide (f x ∈ ks)
  | [], _ => by simp
  | k :: ks, h => by
      have hcons := List.pairwise_cons.1 h
      rw [List.flatMap_cons, flatMap_filter_eq hsorted hcons.2]
      have hlt : ∀ x y, decide (f x = k) = true → decide (f y ∈ ks) = true → f x < f y := by
        intro x y hx hy
        rw [of_decide_eq_true hx]
        exact hcons.1 (f y) (of_decide_eq_true hy)
      rw [filter_append_filter hlt hsorted]
      refine List.filter_congr fun x _ => ?_
      simp [List.mem_cons]

end Sorted
end Foundation
