import CryptoData.Foundation.Dict
import Mathlib.Data.List.Dedup

/-!
# Labelled — columns with labels that may repeat

A column is a list of cells with a label each.  Columns that stand side by side need no look at the
labels if all of them have the same ones; otherwise their cells are brought together by label, which
makes sense only where no label repeats.  `joinColumns` does the one or the other, and fails if it
can do neither (`joinColumns_isSome_iff`).

What joins one column after the other needs the labels of all of them to be joinable
(`joinable_of_join`), and then every label of a column is in the result as often as in that column
(`carries_of_join`).
-/

namespace Foundation

variable {κ ν : Type*}

/-- A column: a label and a value for each row. -/
abbrev Column (κ ν : Type*) := List (κ × ν)

def labels (c : Column κ ν) : List κ :=
  c.map Prod.fst

/-! ## Labels -/

/-- All columns have the same labels, or none has one twice. -/
def Joinable (ls : List (List κ)) : Prop :=
  (∀ a ∈ ls, ∀ b ∈ ls, a = b) ∨ ∀ a ∈ ls, a.Nodup

variable [DecidableEq κ]

instance (ls : List (List κ)) : Decidable (Joinable ls) :=
  inferInstanceAs (Decidable ((∀ _ ∈ _, ∀ _ ∈ _, _) ∨ ∀ _ ∈ _, _))

/-- The labels `r` are those of the lists, each as often as in any list that has it. -/
structure Carries (r : List κ) (ls : List (List κ)) : Prop where
  mem_iff : ∀ k, k ∈ r ↔ ∃ a ∈ ls, k ∈ a
  count_eq : ∀ a ∈ ls, ∀ k ∈ a, r.count k = a.count k

lemma Carries.single (a : List κ) : Carries a [a] where
  mem_iff := fun k => by simp
  count_eq := by
    intro b hb k _
    rw [List.mem_singleton.1 hb]

/-- Labels that are all the same. -/
lemma carries_of_all_eq {r : List κ} {ls : List (List κ)} (hne : ls ≠ [])
    (h : ∀ a ∈ ls, a = r) : Carries r ls where
  mem_iff := by
    intro k
    rcases List.exists_mem_of_ne_nil ls hne with ⟨b, hb⟩
    constructor
    · intro hk
      exact ⟨b, hb, (h b hb).symm ▸ hk⟩
    · intro hex
      rcases hex with ⟨a, ha, hk⟩
      exact h a ha ▸ hk
  count_eq := fun a ha k _ => by rw [h a ha]

/-- Labels that occur once everywhere. -/
lemma carries_of_nodup {r : List κ} {ls : List (List κ)} (hr : r.Nodup) (hls : ∀ a ∈ ls, a.Nodup)
    (hmem : ∀ k, k ∈ r ↔ ∃ a ∈ ls, k ∈ a) : Carries r ls where
  mem_iff := hmem
  count_eq := by
    intro a ha k hk
    rw [List.count_eq_one_of_mem (hls a ha) hk,
      List.count_eq_one_of_mem hr ((hmem k).2 ⟨a, ha, hk⟩)]

/-! ## Joining -/

/-- The value at a label, in a column without repeated labels. -/
def cellAt (c : Column κ ν) (k : κ) : Option ν :=
  (c.find? fun e => decide (e.1 = k)).map Prod.snd

/-- The rows at the given labels, in their order; a label takes all of its rows. -/
def locate (c : Column κ ν) (ks : List κ) : Column κ ν :=
  ks.flatMap fun k => c.filter fun e => decide (e.1 = k)

/-- The columns side by side: row by row if they have the same labels, else by label, which fails if
a label repeats. -/
def joinColumns (columns : List (Column κ ν)) : Option (List (κ × List (Option ν))) :=
  let index := (columns.head?.map labels).getD []
  if ∀ c ∈ columns, labels c = index then
    -- By position: a repeated label does no harm.
    some (index.zipIdx.map fun e => (e.1, columns.map fun col => col[e.2]?.map Prod.snd))
  else if ∀ c ∈ columns, (labels c).Nodup then
    some ((columns.flatMap labels).dedup.map fun k => (k, columns.map fun c => cellAt c k))
  else none

variable {columns : List (Column κ ν)} {rows : List (κ × List (Option ν))}

omit [DecidableEq κ] in
lemma exists_labels_iff {k : κ} :
    (∃ a ∈ columns.map labels, k ∈ a) ↔ ∃ c ∈ columns, k ∈ labels c := by
  simp only [List.mem_map, exists_exists_and_eq_and]

omit [DecidableEq κ] in
lemma all_labels_eq_iff :
    (∀ c ∈ columns, labels c = (columns.head?.map labels).getD []) ↔
      ∀ a ∈ columns.map labels, ∀ b ∈ columns.map labels, a = b := by
  cases columns with
  | nil => simp
  | cons first rest =>
      constructor
      · intro h a ha b hb
        rcases List.mem_map.1 ha with ⟨c, hc, rfl⟩
        rcases List.mem_map.1 hb with ⟨d, hd, rfl⟩
        exact (h c hc).trans (h d hd).symm
      · intro h c hc
        exact h _ (List.mem_map.2 ⟨c, hc, rfl⟩) _ (List.mem_map.2 ⟨first, List.mem_cons_self, rfl⟩)

/-- Columns can be joined exactly if their labels are the same, or do not repeat. -/
theorem joinColumns_isSome_iff : (joinColumns columns).isSome ↔ Joinable (columns.map labels) := by
  unfold joinColumns Joinable
  dsimp only
  by_cases hsame : ∀ c ∈ columns, labels c = (columns.head?.map labels).getD []
  · rw [if_pos hsame]
    exact iff_of_true rfl (Or.inl (all_labels_eq_iff.1 hsame))
  · have hdiffer := fun h => hsame (all_labels_eq_iff.2 h)
    rw [if_neg hsame]
    by_cases hnodup : ∀ c ∈ columns, (labels c).Nodup
    · rw [if_pos hnodup]
      refine iff_of_true rfl (Or.inr ?_)
      intro a ha
      rcases List.mem_map.1 ha with ⟨c, hc, rfl⟩
      exact hnodup c hc
    · rw [if_neg hnodup]
      refine iff_of_false Bool.false_ne_true ?_
      intro hjoin
      rcases hjoin with hsame' | hnodup'
      · exact hdiffer hsame'
      · exact hnodup fun c hc => hnodup' _ (List.mem_map.2 ⟨c, hc, rfl⟩)

/-- The labels of the joined rows, in either case. -/
lemma joinColumns_cases (h : joinColumns columns = some rows) :
    ((∀ a ∈ columns.map labels, ∀ b ∈ columns.map labels, a = b) ∧
        ∀ c ∈ columns, labels c = rows.map Prod.fst) ∨
      (¬ (∀ a ∈ columns.map labels, ∀ b ∈ columns.map labels, a = b) ∧
        (∀ c ∈ columns, (labels c).Nodup) ∧
        rows.map Prod.fst = (columns.flatMap labels).dedup) := by
  unfold joinColumns at h
  dsimp only at h
  by_cases hsame : ∀ c ∈ columns, labels c = (columns.head?.map labels).getD []
  · rw [if_pos hsame] at h
    have hrows : rows.map Prod.fst = (columns.head?.map labels).getD [] := by
      rw [← Option.some.inj h, List.map_map]
      exact List.zipIdx_map_fst _ _
    rw [hrows]
    exact Or.inl ⟨all_labels_eq_iff.1 hsame, hsame⟩
  · rw [if_neg hsame] at h
    by_cases hnodup : ∀ c ∈ columns, (labels c).Nodup
    · rw [if_pos hnodup] at h
      refine Or.inr ⟨fun heq => hsame (all_labels_eq_iff.2 heq), hnodup, ?_⟩
      rw [← Option.some.inj h, List.map_map]
      exact List.map_id _
    · rw [if_neg hnodup] at h
      cases h

/-- The joined rows carry the labels of the columns. -/
theorem carries_joinColumns (hne : columns ≠ []) (h : joinColumns columns = some rows) :
    Carries (rows.map Prod.fst) (columns.map labels) := by
  rcases joinColumns_cases h with ⟨_, hrows⟩ | ⟨_, hnodup, hrows⟩
  · refine carries_of_all_eq (mt List.map_eq_nil_iff.1 hne) ?_
    intro a ha
    rcases List.mem_map.1 ha with ⟨c, hc, rfl⟩
    exact hrows c hc
  · rw [hrows]
    refine carries_of_nodup (List.nodup_dedup _) ?_ ?_
    · intro a ha
      rcases List.mem_map.1 ha with ⟨c, hc, rfl⟩
      exact hnodup c hc
    · intro k
      rw [List.mem_dedup, List.mem_flatMap, exists_labels_iff]

/-- Whether columns can be joined, and to which labels, does not depend on their values. -/
theorem map_fst_joinColumns {columns' : List (Column κ ν)}
    (hlabels : columns.map labels = columns'.map labels) (h : joinColumns columns = some rows) :
    ∃ rows', joinColumns columns' = some rows' ∧ rows'.map Prod.fst = rows.map Prod.fst := by
  have hsome : (joinColumns columns').isSome := by
    rw [joinColumns_isSome_iff, ← hlabels, ← joinColumns_isSome_iff, h]
    rfl
  rcases Option.isSome_iff_exists.1 hsome with ⟨rows', hrows'⟩
  refine ⟨rows', hrows', ?_⟩
  have hflat : columns.flatMap labels = columns'.flatMap labels := by
    rw [List.flatMap_def, List.flatMap_def, hlabels]
  -- The same labels lead to the same of the two ways.
  rcases joinColumns_cases h with ⟨hsame, heq⟩ | ⟨hdiffer, _, heq⟩
  · rcases joinColumns_cases hrows' with ⟨_, heq'⟩ | ⟨hdiffer', _, _⟩
    · cases columns with
      | nil =>
          have hnil : columns' = [] := List.map_eq_nil_iff.1 hlabels.symm
          subst hnil
          rw [Option.some.inj (h.symm.trans hrows')]
      | cons c cs =>
          have hmem : labels c ∈ columns'.map labels := hlabels ▸ List.mem_cons_self
          rcases List.mem_map.1 hmem with ⟨c', hc', hcc⟩
          rw [← heq c List.mem_cons_self, ← heq' c' hc', hcc]
    · exact absurd (hlabels ▸ hsame) hdiffer'
  · rcases joinColumns_cases hrows' with ⟨hsame', _⟩ | ⟨_, _, heq'⟩
    · exact absurd (hlabels ▸ hsame') hdiffer
    · rw [heq, heq', hflat]

/-! ## Columns without repeated labels -/

/-- A column without repeated labels is a dictionary. -/
def asDict (c : Column κ ν) (h : (labels c).Nodup) : Dict κ ν :=
  ⟨c, h⟩

lemma cellAt_eq_some_iff {c : Column κ ν} (h : (labels c).Nodup) {k : κ} {v : ν} :
    cellAt c k = some v ↔ (k, v) ∈ c :=
  Dict.get?_eq_some_iff (d := asDict c h)

lemma mem_labels_iff {c : Column κ ν} (h : (labels c).Nodup) {k : κ} :
    k ∈ labels c ↔ ∃ v, cellAt c k = some v :=
  Dict.mem_keys_iff (d := asDict c h)

lemma cellAt_eq_none_iff {c : Column κ ν} (h : (labels c).Nodup) {k : κ} :
    cellAt c k = none ↔ k ∉ labels c :=
  Dict.get?_eq_none_iff (d := asDict c h)

/-- Row by row or by label: in columns without repeated labels the cells of a row are those at its
label. -/
theorem cells_of_joinColumns (hnodup : ∀ c ∈ columns, (labels c).Nodup)
    (h : joinColumns columns = some rows) {r : κ × List (Option ν)} (hr : r ∈ rows) :
    r.2 = columns.map fun c => cellAt c r.1 := by
  unfold joinColumns at h
  dsimp only at h
  by_cases hsame : ∀ c ∈ columns, labels c = (columns.head?.map labels).getD []
  · rw [if_pos hsame] at h
    rw [← Option.some.inj h] at hr
    rcases List.mem_map.1 hr with ⟨⟨k, i⟩, hi, rfl⟩
    have hindex := List.mem_zipIdx_iff_getElem?.1 hi
    refine List.map_congr_left ?_
    intro c hc
    -- The row of the column at this position has this label.
    have hlabel : (labels c)[i]? = some k := by
      rw [hsame c hc]
      exact hindex
    rw [labels, List.getElem?_map] at hlabel
    rcases Option.map_eq_some_iff.1 hlabel with ⟨e, he, hek⟩
    have hcell : cellAt c k = some e.2 := by
      rw [cellAt_eq_some_iff (hnodup c hc), ← hek]
      exact List.mem_of_getElem? he
    rw [hcell]
    exact congrArg (Option.map Prod.snd) he
  · rw [if_neg hsame, if_pos hnodup] at h
    rw [← Option.some.inj h] at hr
    rcases List.mem_map.1 hr with ⟨k, _, rfl⟩
    rfl

/-- Joined rows of columns without repeated labels, each reduced to one cell. -/
theorem cellAt_reduced (hnodup : ∀ c ∈ columns, (labels c).Nodup)
    (h : joinColumns columns = some rows) {μ : Type*} (f : List (Option ν) → μ) (k : κ) :
    (labels (rows.map fun r => (r.1, f r.2))).Nodup ∧
      cellAt (rows.map fun r => (r.1, f r.2)) k =
        if ∃ c ∈ columns, k ∈ labels c then some (f (columns.map fun c => cellAt c k))
        else none := by
  have hlabels : labels (rows.map fun r => (r.1, f r.2)) = rows.map Prod.fst := List.map_map
  by_cases hne : columns = []
  · subst hne
    have hnil : rows = [] := (Option.some.inj h).symm
    subst hnil
    refine ⟨List.nodup_nil, ?_⟩
    rw [if_neg fun hex => ?_]
    · rfl
    · rcases hex with ⟨c, hc, _⟩
      cases hc
  have hcarries := carries_joinColumns hne h
  have hrows : (labels (rows.map fun r => (r.1, f r.2))).Nodup := by
    rw [hlabels]
    rcases joinColumns_cases h with ⟨_, heq⟩ | ⟨_, _, heq⟩
    · rcases List.exists_mem_of_ne_nil columns hne with ⟨c, hc⟩
      rw [← heq c hc]
      exact hnodup c hc
    · rw [heq]
      exact List.nodup_dedup _
  have hmem : k ∈ labels (rows.map fun r => (r.1, f r.2)) ↔ ∃ c ∈ columns, k ∈ labels c := by
    rw [hlabels, hcarries.mem_iff, exists_labels_iff]
  refine ⟨hrows, ?_⟩
  by_cases hk : ∃ c ∈ columns, k ∈ labels c
  · rw [if_pos hk, cellAt_eq_some_iff hrows]
    rcases List.mem_map.1 (hmem.2 hk) with ⟨e, he, hek⟩
    rcases List.mem_map.1 he with ⟨r, hr, hre⟩
    have hkey : r.1 = k := by
      rw [← hek, ← hre]
    refine List.mem_map.2 ⟨r, hr, ?_⟩
    rw [cells_of_joinColumns hnodup h hr, hkey]
  · rw [if_neg hk, cellAt_eq_none_iff hrows, hmem]
    exact hk

/-! ## Rows at labels -/

/-- Without repeated labels there is one row at a label. -/
lemma filter_label_eq {c : Column κ ν} (h : (labels c).Nodup) {k : κ} {v : ν} (hv : (k, v) ∈ c) :
    (c.filter fun e => decide (e.1 = k)) = [(k, v)] := by
  -- Exactly one row has the label, and `(k, v)` has it.
  have hkeys : (c.filter fun e => decide (e.1 = k)).map Prod.fst = [k] := by
    have hreplicate : (c.filter fun e => decide (e.1 = k)).map Prod.fst =
        List.replicate ((labels c).count k) k := by
      rw [← List.filter_eq, labels, List.filter_map]
      rfl
    rw [hreplicate, List.count_eq_one_of_mem h (List.mem_map.2 ⟨(k, v), hv, rfl⟩)]
    rfl
  have hin : (k, v) ∈ c.filter fun e => decide (e.1 = k) :=
    List.mem_filter.2 ⟨hv, decide_eq_true rfl⟩
  rcases List.map_eq_singleton_iff.1 hkeys with ⟨e, he, _⟩
  rw [he] at hin ⊢
  rw [List.mem_singleton.1 hin]

theorem locate_of_nodup {c : Column κ ν} (h : (labels c).Nodup) (v : ν) :
    ∀ {ks : List κ}, (∀ k ∈ ks, k ∈ labels c) →
      locate c ks = ks.map fun k => (k, (cellAt c k).getD v)
  | [], _ => rfl
  | k :: ks, hks => by
      have hcons := List.forall_mem_cons.1 hks
      rcases (mem_labels_iff h).1 hcons.1 with ⟨w, hw⟩
      have hrest := locate_of_nodup h v hcons.2
      rw [locate] at hrest ⊢
      rw [List.flatMap_cons, hrest, filter_label_eq h ((cellAt_eq_some_iff h).1 hw), List.map_cons,
        hw]
      rfl


lemma labels_locate (c : Column κ ν) (ks : List κ) :
    labels (locate c ks) = ks.flatMap fun k => List.replicate ((labels c).count k) k := by
  rw [labels, locate, List.map_flatMap]
  refine List.flatMap_congr ?_
  intro k _
  rw [← List.filter_eq, labels, List.filter_map]
  rfl

lemma count_flatMap_replicate (f : κ → ℕ) (j : κ) :
    ∀ {ks : List κ}, ks.Nodup → j ∈ ks → (ks.flatMap fun k => List.replicate (f k) k).count j = f j
  | [], _, hj => absurd hj List.not_mem_nil
  | k :: ks, hnodup, hj => by
      have hcons := List.nodup_cons.1 hnodup
      rw [List.flatMap_cons, List.count_append, List.count_replicate]
      by_cases hk : j = k
      · subst hk
        have hnone : (ks.flatMap fun k => List.replicate (f k) k).count j = 0 := by
          refine List.count_eq_zero.2 ?_
          intro hmem
          rcases List.mem_flatMap.1 hmem with ⟨k, hk, hjk⟩
          exact hcons.1 (List.eq_of_mem_replicate hjk ▸ hk)
        rw [hnone, if_pos (beq_self_eq_true j), Nat.add_zero]
      · have hrest := count_flatMap_replicate f j hcons.2 ((List.mem_cons.1 hj).resolve_left hk)
        have hne : ¬ (k == j) = true := fun h => hk (eq_of_beq h).symm
        rw [hrest, if_neg hne, Nat.zero_add]

/-- The rows of two columns at distinct labels have the same labels exactly if both columns have
each label equally often. -/
theorem labels_locate_eq_iff {c d : Column κ ν} {ks : List κ} (hnodup : ks.Nodup) :
    labels (locate c ks) = labels (locate d ks) ↔
      ∀ k ∈ ks, (labels c).count k = (labels d).count k := by
  rw [labels_locate, labels_locate]
  constructor
  · intro h k hk
    have hcount := congrArg (List.count k) h
    rwa [count_flatMap_replicate _ k hnodup hk, count_flatMap_replicate _ k hnodup hk] at hcount
  · intro h
    refine List.flatMap_congr ?_
    intro k hk
    rw [h k hk]

/-! ## One column after the other -/

section Pair

variable {a b : Column κ ν}

/-- Behind a join of two columns, further ones can be joined exactly if they can be joined with
these two. -/
theorem joinable_of_join (h : joinColumns [a, b] = some rows) (ls : List (List κ)) :
    Joinable (rows.map Prod.fst :: ls) ↔ Joinable (labels a :: labels b :: ls) := by
  rcases joinColumns_cases h with ⟨_, hrows⟩ | ⟨hdiffer, hnodup, hrows⟩
  · -- One more list of the same labels says nothing new.
    have ha := hrows a List.mem_cons_self
    have hb := hrows b (List.mem_cons_of_mem a List.mem_cons_self)
    rw [ha, hb]
    simp only [Joinable, List.forall_mem_cons, and_self_left, true_and]
  · have ha := hnodup a List.mem_cons_self
    have hb := hnodup b (List.mem_cons_of_mem a List.mem_cons_self)
    have hr : (rows.map Prod.fst).Nodup := hrows ▸ List.nodup_dedup _
    constructor
    · intro hjoin
      refine Or.inr (List.forall_mem_cons.2 ⟨ha, List.forall_mem_cons.2 ⟨hb, ?_⟩⟩)
      rcases hjoin with hsame | hall
      · intro l hl
        rw [← hsame _ List.mem_cons_self l (List.mem_cons_of_mem _ hl)]
        exact hr
      · exact fun l hl => hall l (List.mem_cons_of_mem _ hl)
    · intro hjoin
      rcases hjoin with hsame | hall
      · refine absurd ?_ hdiffer
        intro x hx y hy
        have hmem : ∀ z ∈ [a, b].map labels, z ∈ labels a :: labels b :: ls := fun z hz =>
          List.mem_append_left ls hz
        exact hsame x (hmem x hx) y (hmem y hy)
      · refine Or.inr (List.forall_mem_cons.2 ⟨hr, ?_⟩)
        exact (List.forall_mem_cons.1 (List.forall_mem_cons.1 hall).2).2

theorem not_joinable_of_join (h : joinColumns [a, b] = none) (ls : List (List κ)) :
    ¬ Joinable (labels a :: labels b :: ls) := by
  intro hjoin
  have hpair : Joinable ([a, b].map labels) := by
    have hmem : ∀ z ∈ [a, b].map labels, z ∈ labels a :: labels b :: ls := fun z hz =>
      List.mem_append_left ls hz
    rcases hjoin with hsame | hall
    · exact Or.inl fun x hx y hy => hsame x (hmem x hx) y (hmem y hy)
    · exact Or.inr fun x hx => hall x (hmem x hx)
  have hsome := joinColumns_isSome_iff.2 hpair
  rw [h] at hsome
  cases hsome

theorem carries_of_join {r : List κ} {ls : List (List κ)} (h : joinColumns [a, b] = some rows)
    (hr : Carries r (rows.map Prod.fst :: ls)) : Carries r (labels a :: labels b :: ls) := by
  have hpair := carries_joinColumns (List.cons_ne_nil a [b]) h
  have hmem : ∀ k, k ∈ rows.map Prod.fst ↔ k ∈ labels a ∨ k ∈ labels b := by
    intro k
    rw [hpair.mem_iff]
    simp
  refine ⟨?_, ?_⟩
  · intro k
    rw [hr.mem_iff, List.exists_mem_cons_iff, List.exists_mem_cons_iff, List.exists_mem_cons_iff,
      hmem, or_assoc]
  · intro c hc k hk
    -- A label of the two columns is in their join as often, and from there in `r`.
    have hof : c ∈ [a, b].map labels → r.count k = c.count k := by
      intro hc'
      have hrow := (hpair.mem_iff k).2 ⟨c, hc', hk⟩
      rw [hr.count_eq _ List.mem_cons_self k hrow, hpair.count_eq c hc' k hk]
    rcases List.mem_cons.1 hc with rfl | hc
    · exact hof List.mem_cons_self
    · rcases List.mem_cons.1 hc with rfl | hc
      · exact hof (List.mem_cons_of_mem _ List.mem_cons_self)
      · exact hr.count_eq c (List.mem_cons_of_mem _ hc) k hk

end Pair

end Foundation
