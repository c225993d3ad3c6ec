import Mathlib.Algebra.BigOperators.Group.List.Basic
import Mathlib.Data.List.Nodup
import Mathlib.Data.List.Sort

/-!
# Dict — insertion-ordered dictionaries

An association list whose keys are pairwise distinct, with the operations of the built-in
dictionary of a scripting language:

* `Dict.set` keeps the position of a key that is already present and appends a new one;
* `Dict.erase` removes a key, `Dict.push` is "set the default empty list, then append";
* `Dict.measure` adds up a quantity over all entries.  The two accounting lemmas
  `measure_set` and `measure_erase` are what conservation arguments use.
-/

namespace Foundation

/-- Association list in insertion order; distinctness of the keys is part of the value. -/
structure Dict (κ ν : Type*) where
  entries : List (κ × ν)
  nodup : (entries.map Prod.fst).Nodup

namespace Dict

variable {κ ν M : Type*}

def empty : Dict κ ν :=
  ⟨[], List.nodup_nil⟩

def keys (d : Dict κ ν) : List κ :=
  d.entries.map Prod.fst

def values (d : Dict κ ν) : List ν :=
  d.entries.map Prod.snd

lemma keys_nodup (d : Dict κ ν) : d.keys.Nodup :=
  d.nodup

lemma mem_keys_of_mem {d : Dict κ ν} {k : κ} {v : ν} (h : (k, v) ∈ d.entries) : k ∈ d.keys :=
  List.mem_map.2 ⟨(k, v), h, rfl⟩

/-- Two entries under one key are one entry. -/
lemma eq_of_mem_of_mem {d : Dict κ ν} {k : κ} {v w : ν}
    (hv : (k, v) ∈ d.entries) (hw : (k, w) ∈ d.entries) : v = w := by
  have h : (k, v) = (k, w) := List.inj_on_of_nodup_map d.nodup hv hw rfl
  exact congrArg Prod.snd h

section Keyed

variable {α : Type*} [DecidableEq κ] {key : α → κ}

/-- In lists that carry their own key, a key that is not there selects nothing. -/
lemma filter_flatten_eq_nil {k : κ} {es : List (κ × List α)} (hk : k ∉ es.map Prod.fst)
    (hkey : ∀ e ∈ es, ∀ x ∈ e.2, key x = e.1) :
    ((es.map Prod.snd).flatten.filter fun x => decide (key x = k)) = [] := by
  refine List.filter_eq_nil_iff.2 ?_
  intro x hx
  rcases List.mem_flatten.1 hx with ⟨rows, hrows, hxrows⟩
  rcases List.mem_map.1 hrows with ⟨e, he, rfl⟩
  rw [hkey e he x hxrows]
  intro heq
  exact hk (List.mem_map.2 ⟨e, he, of_decide_eq_true heq⟩)

lemma filter_flatten_eq_snd {e : κ × List α} :
    ∀ es : List (κ × List α), (es.map Prod.fst).Nodup →
      (∀ f ∈ es, ∀ x ∈ f.2, key x = f.1) → e ∈ es →
        ((es.map Prod.snd).flatten.filter fun x => decide (key x = e.1)) = e.2
  | [], _, _, he => by cases he
  | f :: es, hnodup, hkey, he => by
      have hcons := List.nodup_cons.1 hnodup
      have hrest : ∀ g ∈ es, ∀ x ∈ g.2, key x = g.1 :=
        fun g hg => hkey g (List.mem_cons_of_mem f hg)
      rw [List.map_cons, List.flatten_cons, List.filter_append]
      rcases List.mem_cons.1 he with rfl | he
      · have hown : (e.2.filter fun x => decide (key x = e.1)) = e.2 :=
          List.filter_eq_self.2 fun x hx => decide_eq_true (hkey e List.mem_cons_self x hx)
        rw [hown, filter_flatten_eq_nil hcons.1 hrest, List.append_nil]
      · have hother : (f.2.filter fun x => decide (key x = e.1)) = [] := by
          refine List.filter_eq_nil_iff.2 ?_
          intro x hx heq
          rw [hkey f List.mem_cons_self x hx] at heq
          exact hcons.1 (List.mem_map.2 ⟨e, he, (of_decide_eq_true heq).symm⟩)
        rw [hother, List.nil_append]
        exact filter_flatten_eq_snd es hcons.2 hrest he

/-- If every list carries its own key, what carries a key in all of them is the list of that
key. -/
theorem filter_flatten_values {d : Dict κ (List α)} {e : κ × List α} (he : e ∈ d.entries)
    (hkey : ∀ f ∈ d.entries, ∀ x ∈ f.2, key x = f.1) :
    (d.values.flatten.filter fun x => decide (key x = e.1)) = e.2 :=
  filter_flatten_eq_snd d.entries d.nodup hkey he

end Keyed

/-- Keep the entries that satisfy `p`, in their order. -/
def filter (d : Dict κ ν) (p : κ × ν → Bool) : Dict κ ν :=
  ⟨d.entries.filter p, d.nodup.sublist (List.filter_sublist.map Prod.fst)⟩

/-- Apply `f` to every entry's value, keeping the keys and their order. -/
def mapValues {μ : Type*} (d : Dict κ ν) (f : κ → ν → μ) : Dict κ μ where
  entries := d.entries.map fun e => (e.1, f e.1 e.2)
  nodup := by simpa [List.map_map, Function.comp_def] using d.nodup

/-- The sum of `f` over the entries. -/
def measure [AddCommMonoid M] (d : Dict κ ν) (f : κ → ν → M) : M :=
  (d.entries.map fun e => f e.1 e.2).sum

section Lookup

variable [DecidableEq κ]

def get? (d : Dict κ ν) (k : κ) : Option ν :=
  (d.entries.find? fun e => decide (e.1 = k)).map Prod.snd

def getD (d : Dict κ ν) (k : κ) (v : ν) : ν :=
  (d.get? k).getD v

theorem get?_eq_some_iff {d : Dict κ ν} {k : κ} {v : ν} :
    d.get? k = some v ↔ (k, v) ∈ d.entries := by
  constructor
  · intro h
    rcases Option.map_eq_some_iff.1 h with ⟨⟨k', v'⟩, hfind, rfl⟩
    have hk : k' = k := by simpa using List.find?_some hfind
    subst hk
    exact List.mem_of_find?_eq_some hfind
  · intro h
    cases hfind : d.entries.find? fun e => decide (e.1 = k) with
    | none =>
        have hne := List.find?_eq_none.1 hfind (k, v) h
        simp at hne
    | some e =>
        rcases e with ⟨k', v'⟩
        have hk : k' = k := by simpa using List.find?_some hfind
        subst hk
        have hv : v' = v := eq_of_mem_of_mem (List.mem_of_find?_eq_some hfind) h
        simp [get?, hfind, hv]

theorem get?_eq_none_iff {d : Dict κ ν} {k : κ} : d.get? k = none ↔ k ∉ d.keys := by
  constructor
  · intro h hk
    rcases List.mem_map.1 hk with ⟨⟨k', v⟩, hmem, rfl⟩
    have hsome : d.get? k' = some v := get?_eq_some_iff.2 hmem
    rw [h] at hsome
    cases hsome
  · intro h
    cases hget : d.get? k with
    | none => rfl
    | some v => exact absurd (mem_keys_of_mem (get?_eq_some_iff.1 hget)) h

/-- Two dictionaries with the same lookups hold the same entries, up to their order. -/
theorem entries_perm_of_get?_eq {d e : Dict κ ν} (h : ∀ k, d.get? k = e.get? k) :
    d.entries.Perm e.entries := by
  refine (List.perm_ext_iff_of_nodup d.nodup.of_map e.nodup.of_map).2 ?_
  rintro ⟨k, v⟩
  rw [← get?_eq_some_iff, ← get?_eq_some_iff, h k]

theorem get?_mapValues {μ : Type*} (d : Dict κ ν) (f : κ → ν → μ) (k : κ) :
    (d.mapValues f).get? k = (d.get? k).map (f k) := by
  refine Option.ext fun w => ?_
  rw [get?_eq_some_iff, Option.map_eq_some_iff]
  constructor
  · intro h
    obtain ⟨⟨j, v⟩, hmem, heq⟩ := List.mem_map.1 h
    cases heq
    exact ⟨v, get?_eq_some_iff.2 hmem, rfl⟩
  · intro h
    obtain ⟨v, hv, rfl⟩ := h
    exact List.mem_map.2 ⟨(k, v), get?_eq_some_iff.1 hv, rfl⟩

/-- Filtering on the key leaves the lookups of the keys that pass. -/
theorem get?_filter_key (d : Dict κ ν) (p : κ → Bool) (k : κ) :
    (d.filter fun e => p e.1).get? k = if p k = true then d.get? k else none := by
  refine Option.ext fun v => ?_
  rw [get?_eq_some_iff]
  cases hp : p k with
  | true => simp [filter, hp, get?_eq_some_iff]
  | false => simp [filter, hp]

/-! ## Updates -/

def set (d : Dict κ ν) (k : κ) (v : ν) : Dict κ ν where
  entries :=
    if k ∈ d.keys then d.entries.map fun e => if e.1 = k then (k, v) else e
    else d.entries ++ [(k, v)]
  nodup := by
    by_cases hk : k ∈ d.keys
    · have hmap : (d.entries.map fun e => if e.1 = k then (k, v) else e).map Prod.fst =
          d.entries.map Prod.fst := by
        rw [List.map_map]
        refine List.map_congr_left fun e _ => ?_
        by_cases he : e.1 = k <;> simp [he]
      simpa [hk, hmap] using d.nodup
    · have hdisj : ∀ a ∈ d.entries.map Prod.fst, a ≠ k := by
        rintro a ha rfl
        exact hk ha
      simpa [hk, List.nodup_append] using ⟨d.nodup, by simpa using hdisj⟩

def erase (d : Dict κ ν) (k : κ) : Dict κ ν :=
  d.filter fun e => decide (e.1 ≠ k)

/-- `d.setdefault(k, []).append(x)`. -/
def push {α : Type*} (d : Dict κ (List α)) (k : κ) (x : α) : Dict κ (List α) :=
  d.set k (d.getD k [] ++ [x])

theorem mem_set_iff {d : Dict κ ν} {k j : κ} {v w : ν} :
    (j, w) ∈ (d.set k v).entries ↔ (j = k ∧ w = v) ∨ (j ≠ k ∧ (j, w) ∈ d.entries) := by
  by_cases hk : k ∈ d.keys
  · rcases List.mem_map.1 hk with ⟨⟨k', u⟩, hu, rfl⟩
    simp only [set, hk, if_true, List.mem_map]
    constructor
    · rintro ⟨⟨i, x⟩, hmem, heq⟩
      by_cases hi : i = k'
      · simp [hi] at heq
        exact Or.inl ⟨heq.1.symm, heq.2.symm⟩
      · simp [hi] at heq
        rcases heq with ⟨rfl, rfl⟩
        exact Or.inr ⟨hi, hmem⟩
    · rintro (⟨rfl, rfl⟩ | ⟨hne, hmem⟩)
      · exact ⟨(j, u), hu, by simp⟩
      · exact ⟨(j, w), hmem, by simp [hne]⟩
  · have hout : ∀ x, (k, x) ∉ d.entries := fun x hx => hk (mem_keys_of_mem hx)
    simp only [set, hk, if_false, List.mem_append, List.mem_singleton, Prod.mk.injEq]
    constructor
    · rintro (hmem | ⟨rfl, rfl⟩)
      · refine Or.inr ⟨?_, hmem⟩
        rintro rfl
        exact hout w hmem
      · exact Or.inl ⟨rfl, rfl⟩
    · rintro (⟨rfl, rfl⟩ | ⟨_, hmem⟩)
      · exact Or.inr ⟨rfl, rfl⟩
      · exact Or.inl hmem

@[simp] theorem get?_set_self (d : Dict κ ν) (k : κ) (v : ν) : (d.set k v).get? k = some v :=
  get?_eq_some_iff.2 (mem_set_iff.2 (Or.inl ⟨rfl, rfl⟩))

theorem get?_set_ne (d : Dict κ ν) {k j : κ} (v : ν) (h : j ≠ k) :
    (d.set k v).get? j = d.get? j := by
  refine Option.ext fun w => ?_
  rw [get?_eq_some_iff, get?_eq_some_iff, mem_set_iff]
  simp [h]

@[simp] theorem get?_empty (k : κ) : (empty : Dict κ ν).get? k = none := rfl

theorem mem_keys_iff {d : Dict κ ν} {k : κ} : k ∈ d.keys ↔ ∃ v, d.get? k = some v := by
  have h := (get?_eq_none_iff (d := d) (k := k)).not
  rw [not_not] at h
  rw [← h]
  exact Option.ne_none_iff_exists'

theorem mem_keys_set {d : Dict κ ν} {k j : κ} {v : ν} :
    j ∈ (d.set k v).keys ↔ j = k ∨ j ∈ d.keys := by
  by_cases h : j = k
  · subst h
    simp [mem_keys_iff]
  · simp [mem_keys_iff, get?_set_ne d v h, h]

/-- Writing a list of entries with distinct keys: the written keys read back their new values. -/
theorem get?_foldl_set {α : Type*} (key : α → κ) (f : α → ν) (k : κ) :
    ∀ (xs : List α) (d : Dict κ ν), (xs.map key).Nodup →
      (xs.foldl (fun d x => d.set (key x) (f x)) d).get? k =
        ((xs.find? fun x => decide (key x = k)).map f).or (d.get? k)
  | [], d, _ => by simp
  | x :: xs, d, h => by
      have hcons := List.nodup_cons.1 h
      rw [List.foldl_cons, get?_foldl_set key f k xs _ hcons.2]
      by_cases hx : key x = k
      · subst hx
        have hnone : (xs.find? fun y => decide (key y = key x)) = none := by
          refine List.find?_eq_none.2 ?_
          intro y hy hyx
          exact hcons.1 (List.mem_map.2 ⟨y, hy, by simpa using hyx⟩)
        simp [hnone]
      · have hne : k ≠ key x := fun hk => hx hk.symm
        simp [hx, get?_set_ne d _ hne]

/-- The union of two dictionaries, with `f` where both have a value. -/
def mergeWith (f : ν → ν → ν) (d e : Dict κ ν) : Dict κ ν :=
  e.entries.foldl
    (fun acc p => acc.set p.1 (((d.get? p.1).map fun v => f v p.2).getD p.2)) d

theorem get?_mergeWith (f : ν → ν → ν) (d e : Dict κ ν) (k : κ) :
    (d.mergeWith f e).get? k = Option.merge f (d.get? k) (e.get? k) := by
  have hfold := get?_foldl_set Prod.fst
    (fun p : κ × ν => ((d.get? p.1).map fun v => f v p.2).getD p.2) k e.entries d e.nodup
  refine hfold.trans ?_
  cases hfind : e.entries.find? fun p => decide (p.1 = k) with
  | none =>
      have hnone : e.get? k = none := by simp [get?, hfind]
      simp [hnone]
  | some p =>
      rcases p with ⟨j, w⟩
      have hj : j = k := by simpa using List.find?_some hfind
      subst hj
      have hsome : e.get? j = some w := by simp [get?, hfind]
      cases hd : d.get? j with
      | none => simp [hsome, hd]
      | some v => simp [hsome, hd]

/-- Write an entry unless its key is in use. -/
def insertNew (d : Dict κ ν) (e : κ × ν) : Dict κ ν :=
  if e.1 ∈ d.keys then d else d.set e.1 e.2

theorem mem_insertNew_iff {d : Dict κ ν} {e e' : κ × ν} :
    e' ∈ (d.insertNew e).entries ↔ e' ∈ d.entries ∨ e' = e ∧ e.1 ∉ d.keys := by
  by_cases hkey : e.1 ∈ d.keys
  · simp [insertNew, hkey]
  · simp [insertNew, hkey, set]

/-- Entries with distinct keys get in exactly if their key was not in use before. -/
theorem mem_foldl_insertNew_iff {e : κ × ν} :
    ∀ {es : List (κ × ν)} {d : Dict κ ν}, (es.map Prod.fst).Nodup →
      (e ∈ (es.foldl insertNew d).entries ↔ e ∈ d.entries ∨ e ∈ es ∧ e.1 ∉ d.keys)
  | [], d, _ => by simp
  | e₀ :: es, d, h => by
      have hcons := List.nodup_cons.1 h
      rw [List.foldl_cons, mem_foldl_insertNew_iff hcons.2, mem_insertNew_iff]
      have hkeys : e ∈ es → (e.1 ∉ (d.insertNew e₀).keys ↔ e.1 ∉ d.keys) := by
        intro he
        have hne : e.1 ≠ e₀.1 := by
          intro heq
          exact hcons.1 (heq ▸ List.mem_map.2 ⟨e, he, rfl⟩)
        by_cases hkey : e₀.1 ∈ d.keys
        · simp only [insertNew, hkey, if_true]
        · simp only [insertNew, hkey, if_false, mem_keys_set, hne, false_or]
      constructor
      · rintro ((hold | ⟨rfl, hnew⟩) | ⟨he, hnew⟩)
        · exact Or.inl hold
        · exact Or.inr ⟨List.mem_cons_self, hnew⟩
        · exact Or.inr ⟨List.mem_cons_of_mem e₀ he, (hkeys he).1 hnew⟩
      · rintro (hold | ⟨he, hnew⟩)
        · exact Or.inl (Or.inl hold)
        · rcases List.mem_cons.1 he with rfl | he
          · exact Or.inl (Or.inr ⟨rfl, hnew⟩)
          · exact Or.inr ⟨he, (hkeys he).2 hnew⟩

theorem mem_erase_iff {d : Dict κ ν} {k j : κ} {w : ν} :
    (j, w) ∈ (d.erase k).entries ↔ j ≠ k ∧ (j, w) ∈ d.entries := by
  simp [erase, filter, and_comm]

theorem mem_keys_erase {d : Dict κ ν} {k j : κ} : j ∈ (d.erase k).keys ↔ j ≠ k ∧ j ∈ d.keys := by
  constructor
  · intro h
    rcases List.mem_map.1 h with ⟨⟨i, w⟩, hmem, rfl⟩
    have hd := mem_erase_iff.1 hmem
    exact ⟨hd.1, mem_keys_of_mem hd.2⟩
  · rintro ⟨hne, h⟩
    rcases List.mem_map.1 h with ⟨⟨i, w⟩, hmem, rfl⟩
    exact mem_keys_of_mem (mem_erase_iff.2 ⟨hne, hmem⟩)

theorem get?_erase_ne (d : Dict κ ν) {k j : κ} (h : j ≠ k) : (d.erase k).get? j = d.get? j := by
  refine Option.ext fun w => ?_
  rw [get?_eq_some_iff, get?_eq_some_iff, mem_erase_iff]
  simp [h]

theorem keys_set_of_notMem {d : Dict κ ν} {k : κ} (v : ν) (h : k ∉ d.keys) :
    (d.set k v).keys = d.keys ++ [k] := by
  have hentries : (d.set k v).entries = d.entries ++ [(k, v)] := by simp [set, h]
  rw [keys, hentries, List.map_append]
  rfl

/-- Removing several keys keeps the others in their order. -/
theorem keys_foldl_erase :
    ∀ (ks : List κ) (d : Dict κ ν),
      (ks.foldl erase d).keys = d.keys.filter fun j => decide (j ∉ ks)
  | [], d => by simp
  | k :: ks, d => by
      have hone : (d.erase k).keys = d.keys.filter fun j => decide (j ≠ k) := by
        simp only [keys, erase, filter, List.filter_map]
        rfl
      rw [List.foldl_cons, keys_foldl_erase ks (d.erase k), hone, List.filter_filter]
      refine List.filter_congr ?_
      intro j _
      rw [← Bool.decide_and]
      refine decide_eq_decide.2 ?_
      rw [List.mem_cons, not_or]
      exact and_comm

theorem get?_foldl_erase {j : κ} :
    ∀ (ks : List κ) (d : Dict κ ν), j ∉ ks → (ks.foldl erase d).get? j = d.get? j
  | [], _, _ => rfl
  | k :: ks, d, h => by
      rw [List.foldl_cons, get?_foldl_erase ks _ fun hmem => h (List.mem_cons_of_mem k hmem)]
      refine get?_erase_ne d ?_
      rintro rfl
      exact h List.mem_cons_self

theorem erase_of_get?_none {d : Dict κ ν} {k : κ} (h : d.get? k = none) : d.erase k = d := by
  have hk := get?_eq_none_iff.1 h
  have hfilter : d.entries.filter (fun e => decide (e.1 ≠ k)) = d.entries := by
    refine List.filter_eq_self.2 ?_
    rintro ⟨j, w⟩ hmem
    have hne : j ≠ k := by
      rintro rfl
      exact hk (mem_keys_of_mem hmem)
    simpa using hne
  rcases d with ⟨entries, nodup⟩
  simpa [erase, filter] using hfilter

/-! ## Adding up a quantity over the entries -/

variable [AddCommMonoid M]

/-- Removing a key takes exactly its own share out of the measure. -/
theorem measure_erase (d : Dict κ ν) (k : κ) (f : κ → ν → M) :
    d.measure f = ((d.get? k).elim 0 (f k)) + (d.erase k).measure f := by
  cases hget : d.get? k with
  | none => simp [erase_of_get?_none hget]
  | some v =>
      have hmem : (k, v) ∈ d.entries := get?_eq_some_iff.1 hget
      -- The entry of `k` and the entries of the other keys make up the dictionary.
      have hsplit : d.entries.Perm ((k, v) :: (d.erase k).entries) := by
        have hnd : ((k, v) :: (d.erase k).entries).Nodup := by
          refine List.nodup_cons.2 ⟨?_, (d.erase k).nodup.of_map⟩
          intro h
          exact (mem_erase_iff.1 h).1 rfl
        refine (List.perm_ext_iff_of_nodup d.nodup.of_map hnd).2 ?_
        rintro ⟨j, w⟩
        rw [List.mem_cons, mem_erase_iff, Prod.mk.injEq]
        constructor
        · intro h
          by_cases hj : j = k
          · subst hj
            exact Or.inl ⟨rfl, eq_of_mem_of_mem h hmem⟩
          · exact Or.inr ⟨hj, h⟩
        · rintro (⟨rfl, rfl⟩ | ⟨_, h⟩)
          · exact hmem
          · exact h
      have hsum := (hsplit.map fun e => f e.1 e.2).sum_eq
      simpa [measure] using hsum

/-- Removing several keys takes the share of each of them out of the measure. -/
theorem measure_foldl_erase (f : κ → ν → M) :
    ∀ (ks : List κ) (d : Dict κ ν), ks.Nodup →
      d.measure f =
        (ks.map fun k => (d.get? k).elim 0 (f k)).sum + (ks.foldl erase d).measure f
  | [], d, _ => by simp
  | k :: ks, d, h => by
      have hcons := List.nodup_cons.1 h
      have hrest := measure_foldl_erase f ks (d.erase k) hcons.2
      -- Erasing `k` leaves the other keys as they were.
      have hget : (ks.map fun j => ((d.erase k).get? j).elim 0 (f j)) =
          ks.map fun j => (d.get? j).elim 0 (f j) := by
        refine List.map_congr_left fun j hj => ?_
        have hne : j ≠ k := by
          rintro rfl
          exact hcons.1 hj
        rw [get?_erase_ne d hne]
      rw [measure_erase d k f, hrest, hget, List.map_cons, List.sum_cons, List.foldl_cons,
        add_assoc]

theorem erase_set (d : Dict κ ν) (k : κ) (v : ν) :
    ((d.set k v).erase k).entries.Perm (d.erase k).entries := by
  refine (List.perm_ext_iff_of_nodup ((d.set k v).erase k).nodup.of_map
    (d.erase k).nodup.of_map).2 ?_
  rintro ⟨j, w⟩
  rw [mem_erase_iff, mem_erase_iff, mem_set_iff]
  constructor
  · rintro ⟨hne, ⟨rfl, _⟩ | ⟨_, h⟩⟩
    · exact absurd rfl hne
    · exact ⟨hne, h⟩
  · rintro ⟨hne, h⟩
    exact ⟨hne, Or.inr ⟨hne, h⟩⟩

lemma measure_set_eq (d : Dict κ ν) (k : κ) (v : ν) (f : κ → ν → M) :
    (d.set k v).measure f = f k v + (d.erase k).measure f := by
  have hrest : ((d.set k v).erase k).measure f = (d.erase k).measure f :=
    ((erase_set d k v).map fun e : κ × ν => f e.1 e.2).sum_eq
  rw [measure_erase (d.set k v) k f, get?_set_self, hrest]
  rfl

/-- Overwriting a key exchanges its old share of the measure for the new one. -/
theorem measure_set (d : Dict κ ν) (k : κ) (v : ν) (f : κ → ν → M) :
    (d.set k v).measure f + (d.get? k).elim 0 (f k) = f k v + d.measure f := by
  calc
    (d.set k v).measure f + (d.get? k).elim 0 (f k)
        = (f k v + (d.erase k).measure f) + (d.get? k).elim 0 (f k) := by rw [measure_set_eq]
    _ = f k v + ((d.get? k).elim 0 (f k) + (d.erase k).measure f) := by
            rw [add_assoc, add_comm ((d.erase k).measure f)]
    _ = f k v + d.measure f := by rw [← measure_erase d k f]

/-- A key whose share grows by `x` makes the measure grow by `x`. -/
theorem measure_set_add {d : Dict κ ν} {k : κ} {v : ν} {f : κ → ν → M} {x : M}
    (h : f k v = (d.get? k).elim 0 (f k) + x) :
    (d.set k v).measure f = d.measure f + x := by
  calc
    (d.set k v).measure f = f k v + (d.erase k).measure f := measure_set_eq d k v f
    _ = ((d.get? k).elim 0 (f k) + (d.erase k).measure f) + x := by rw [h, add_right_comm]
    _ = d.measure f + x := by rw [← measure_erase d k f]

end Lookup

end Dict
end Foundation
