import CryptoData.Foundation.Dict
import Mathlib.Data.List.Induction
import Mathlib.Data.List.Sort

/-!
# LevelBook — the levels of one side of an order book

A side of a book is a dictionary from prices to quantities.  An update sets the quantity at a
price, and quantity zero removes the level.  Which of two prices comes first is a relation `r`, so
bids (`≥`) and asks (`≤`) are two instances of one thing.

1. Updates on top of an old book leave the levels that the updates alone build, and the old levels
   at prices that no update mentions (`mem_foldl_setLevel_iff`).
2. The first levels of a book that holds more than it should are the right ones exactly if every
   level too many has enough right ones ahead of it (`isTop_top_iff`).
3. The best level of all that have ever been set is the best one of the book exactly if no level
   better than all of the book has been set (`isBest_live_iff`).
-/

namespace Foundation

variable {π χ : Type*} [DecidableEq π]

/-! ## Updates -/

section Updates

variable [Zero χ] [DecidableEq χ]

def setLevel (book : Dict π χ) (u : π × χ) : Dict π χ :=
  if u.2 = 0 then book.erase u.1 else book.set u.1 u.2

/-- The book that a list of updates builds. -/
def levels (us : List (π × χ)) : Dict π χ :=
  us.foldl setLevel Dict.empty

/-- The updates that do not remove a level. -/
def marks (us : List (π × χ)) : List (π × χ) :=
  us.filter fun u => decide (u.2 ≠ 0)

lemma mem_setLevel_iff {book : Dict π χ} {u e : π × χ} :
    e ∈ (setLevel book u).entries ↔ (e = u ∧ u.2 ≠ 0) ∨ (e.1 ≠ u.1 ∧ e ∈ book.entries) := by
  rcases u with ⟨p, q⟩
  rcases e with ⟨p', q'⟩
  by_cases hq : q = 0
  · simp only [setLevel, hq, if_true, Dict.mem_erase_iff]
    constructor
    · exact Or.inr
    · rintro (⟨_, hne⟩ | h)
      · exact absurd rfl hne
      · exact h
  · simp only [setLevel, hq, if_false, Dict.mem_set_iff, Prod.mk.injEq, ne_eq, not_false_iff,
      and_true]

lemma levels_concat (us : List (π × χ)) (u : π × χ) :
    levels (us ++ [u]) = setLevel (levels us) u := by
  rw [levels, List.foldl_append]
  rfl

/-- A level has been set by an update. -/
lemma mem_of_mem_levels {us : List (π × χ)} {e : π × χ} (h : e ∈ (levels us).entries) : e ∈ us := by
  induction us using List.reverseRecOn with
  | nil => cases h
  | append_singleton us u ih =>
      rw [levels_concat, mem_setLevel_iff] at h
      rcases h with ⟨rfl, _⟩ | ⟨_, hold⟩
      · exact List.mem_append_right _ List.mem_cons_self
      · exact List.mem_append_left _ (ih hold)

/-- Updates on top of a book: what they build by themselves, and what they do not mention. -/
theorem mem_foldl_setLevel_iff {book : Dict π χ} {us : List (π × χ)} {e : π × χ} :
    e ∈ (us.foldl setLevel book).entries ↔
      e ∈ (levels us).entries ∨ (e ∈ book.entries ∧ e.1 ∉ us.map Prod.fst) := by
  induction us using List.reverseRecOn with
  | nil =>
      have hempty : e ∉ (levels ([] : List (π × χ))).entries := List.not_mem_nil
      simp [hempty]
  | append_singleton us u ih =>
      rw [List.foldl_append, levels_concat, List.foldl_cons, List.foldl_nil, mem_setLevel_iff,
        mem_setLevel_iff, ih, List.map_append, List.mem_append, not_or]
      constructor
      · rintro (hnew | ⟨hne, hlive | ⟨hold, hout⟩⟩)
        · exact Or.inl (Or.inl hnew)
        · exact Or.inl (Or.inr ⟨hne, hlive⟩)
        · exact Or.inr ⟨hold, hout, fun h => hne (List.mem_singleton.1 h)⟩
      · rintro ((hnew | ⟨hne, hlive⟩) | ⟨hold, hout, hne⟩)
        · exact Or.inl hnew
        · exact Or.inr ⟨hne, Or.inl hlive⟩
        · exact Or.inr ⟨fun h => hne (List.mem_singleton.2 h), Or.inr ⟨hold, hout⟩⟩

lemma levels_append (us vs : List (π × χ)) : levels (us ++ vs) = vs.foldl setLevel (levels us) :=
  List.foldl_append

/-- Every live level is a level of the book without removals. -/
lemma mem_levels_marks {us : List (π × χ)} {e : π × χ} (h : e ∈ (levels us).entries) :
    e ∈ (levels (marks us)).entries := by
  induction us using List.reverseRecOn with
  | nil => cases h
  | append_singleton us u ih =>
      rw [levels_concat, mem_setLevel_iff] at h
      by_cases hu : u.2 = 0
      · have hmarks : marks (us ++ [u]) = marks us := by simp [marks, hu]
        rw [hmarks]
        rcases h with ⟨_, hne⟩ | ⟨_, hold⟩
        · exact absurd hu hne
        · exact ih hold
      · have hmarks : marks (us ++ [u]) = marks us ++ [u] := by simp [marks, hu]
        rw [hmarks, levels_concat, mem_setLevel_iff]
        rcases h with ⟨heq, _⟩ | ⟨hne, hold⟩
        · exact Or.inl ⟨heq, hu⟩
        · exact Or.inr ⟨hne, ih hold⟩

lemma ne_zero_of_mem_levels {us : List (π × χ)} {e : π × χ} (h : e ∈ (levels us).entries) :
    e.2 ≠ 0 :=
  of_decide_eq_true (List.mem_filter.1 (mem_of_mem_levels (mem_levels_marks h))).2

/-- The prices of the book without removals are those that an update has set. -/
lemma mem_keys_levels_marks {us : List (π × χ)} {p : π} :
    p ∈ (levels (marks us)).keys ↔ ∃ u ∈ us, u.1 = p ∧ u.2 ≠ 0 := by
  induction us using List.reverseRecOn with
  | nil => simp [marks, levels, Dict.keys, Dict.empty]
  | append_singleton us u ih =>
      by_cases hu : u.2 = 0
      · have hmarks : marks (us ++ [u]) = marks us := by simp [marks, hu]
        rw [hmarks, ih]
        constructor
        · rintro ⟨v, hv, hp⟩
          exact ⟨v, List.mem_append_left _ hv, hp⟩
        · rintro ⟨v, hv, hp, hne⟩
          rcases List.mem_append.1 hv with hv | hv
          · exact ⟨v, hv, hp, hne⟩
          · rw [List.mem_singleton.1 hv] at hne
            exact absurd hu hne
      · have hmarks : marks (us ++ [u]) = marks us ++ [u] := by simp [marks, hu]
        rw [hmarks, levels_concat, setLevel, if_neg hu, Dict.mem_keys_set, ih]
        constructor
        · rintro (rfl | ⟨v, hv, hp⟩)
          · exact ⟨u, List.mem_append_right _ List.mem_cons_self, rfl, hu⟩
          · exact ⟨v, List.mem_append_left _ hv, hp⟩
        · rintro ⟨v, hv, hp, hne⟩
          rcases List.mem_append.1 hv with hv | hv
          · exact Or.inr ⟨v, hv, hp, hne⟩
          · rw [List.mem_singleton.1 hv] at hp
            exact Or.inl hp.symm

end Updates

/-! ## The first levels -/

/-- Among elements each of which precedes all later ones, the first `k` are those that fewer than
`k` precede. -/
lemma mem_take_iff_countP {α : Type*} {s : α → α → Prop} [DecidableRel s] (hirrefl : ∀ a, ¬ s a a)
    (hasymm : ∀ a b, s a b → ¬ s b a) {e : α} :
    ∀ {l : List α} {k : ℕ}, l.Pairwise s →
      (e ∈ l.take k ↔ e ∈ l ∧ l.countP (fun f => decide (s f e)) < k)
  | [], k, _ => by simp
  | x :: l, 0, _ => by simp
  | x :: l, k + 1, h => by
      have hcons := List.pairwise_cons.1 h
      rw [List.take_succ_cons, List.mem_cons, List.mem_cons]
      by_cases hx : e = x
      · subst hx
        have hnone : (e :: l).countP (fun f => decide (s f e)) = 0 := by
          refine List.countP_eq_zero.2 ?_
          intro f hf
          rcases List.mem_cons.1 hf with rfl | hf
          · simpa using hirrefl f
          · simpa using hasymm e f (hcons.1 f hf)
        simp [hnone]
      · have hrest := mem_take_iff_countP hirrefl hasymm (e := e) (k := k) hcons.2
        by_cases he : e ∈ l
        · have hahead : s x e := hcons.1 e he
          rw [List.countP_cons_of_pos (by simpa using hahead)]
          simp [hx, hrest, he]
        · have hout : e ∉ l.take k := fun h => he (List.mem_of_mem_take h)
          simp [hx, he, hout]

section Top

variable (r : π → π → Prop) [DecidableRel r]

/-- The prices `a` and `b` differ and `a` comes first. -/
def Ahead (a b : π × χ) : Prop :=
  r a.1 b.1 ∧ a.1 ≠ b.1

instance : DecidableRel (Ahead r : π × χ → π × χ → Prop) :=
  fun _ _ => inferInstanceAs (Decidable (_ ∧ _))

/-- The number of levels ahead of a level. -/
def rank (book : Dict π χ) (e : π × χ) : ℕ :=
  book.entries.countP fun f => decide (Ahead r f e)

/-- The first `depth` levels in the order of the prices. -/
def top (depth : ℕ) (book : Dict π χ) : List (π × χ) :=
  (book.entries.insertionSort fun a b => r a.1 b.1).take depth

/-- The listed levels are the first `depth` levels of the book, in their order. -/
structure IsTop (depth : ℕ) (book : Dict π χ) (listed : List (π × χ)) : Prop where
  sorted : listed.Pairwise (Ahead r)
  mem_iff : ∀ e, e ∈ listed ↔ e ∈ book.entries ∧ rank r book e < depth

variable {r}
variable {book live whole : Dict π χ} {depth : ℕ}

lemma rank_le_rank_of_subset (h : live.entries ⊆ whole.entries) (e : π × χ) :
    rank r live e ≤ rank r whole e :=
  (List.subperm_of_subset live.nodup.of_map h).countP_le _

omit [DecidableEq π] [DecidableRel r] in
lemma not_ahead_of_ahead [Std.Antisymm r] {a b : π × χ} (h : Ahead r a b) : ¬ Ahead r b a :=
  fun h' => h.2 (antisymm h.1 h'.1)

variable [Std.Antisymm r] [IsTrans π r]

/-- What is ahead of a level is ahead of every level behind it. -/
lemma rank_le_rank_of_le {a b : π × χ} (h : r a.1 b.1) : rank r book a ≤ rank r book b := by
  refine List.countP_mono_left ?_
  intro f _ hf
  have hahead : Ahead r f a := of_decide_eq_true hf
  refine decide_eq_true ⟨IsTrans.trans f.1 a.1 b.1 hahead.1 h, ?_⟩
  intro heq
  exact hahead.2 (antisymm hahead.1 (heq ▸ h))

/-- Levels that lie behind `depth` levels of a book do not change what is ahead of its first
ones. -/
lemma rank_whole_le (hcover : ∀ e ∈ whole.entries, e ∉ live.entries → depth ≤ rank r live e)
    {e : π × χ} (he : rank r live e < depth) : rank r whole e ≤ rank r live e := by
  have hsub : (whole.entries.filter fun f => decide (Ahead r f e)) ⊆
      live.entries.filter fun f => decide (Ahead r f e) := by
    intro f hf
    have hmem := List.mem_filter.1 hf
    refine List.mem_filter.2 ⟨?_, hmem.2⟩
    by_contra hout
    have hmany := hcover f hmem.1 hout
    have hmono : rank r live f ≤ rank r live e := rank_le_rank_of_le (of_decide_eq_true hmem.2).1
    omega
  have hnodup := whole.nodup.of_map.filter fun f => decide (Ahead r f e)
  have hlen := (List.subperm_of_subset hnodup hsub).length_le
  rwa [rank, rank, List.countP_eq_length_filter, List.countP_eq_length_filter]

variable [Std.Total r]

omit [DecidableEq π] [Std.Antisymm r] in
lemma sort_pairwise : (book.entries.insertionSort fun a b => r a.1 b.1).Pairwise (Ahead r) := by
  -- The levels are compared by their prices, which are distinct.
  have htrans : IsTrans (π × χ) fun a b => r a.1 b.1 := ⟨fun a b c => IsTrans.trans a.1 b.1 c.1⟩
  have htotal : Std.Total fun a b : π × χ => r a.1 b.1 := ⟨fun a b => total_of r a.1 b.1⟩
  have hperm := List.perm_insertionSort (fun a b : π × χ => r a.1 b.1) book.entries
  have hne : (book.entries.insertionSort fun a b => r a.1 b.1).Pairwise
      fun a b => a.1 ≠ b.1 := by
    refine List.pairwise_map.1 ?_
    exact (hperm.map Prod.fst).nodup_iff.2 book.nodup
  exact (List.pairwise_insertionSort _ book.entries).and hne

/-- What is listed are the first levels. -/
theorem top_isTop : IsTop r depth book (top r depth book) := by
  have hperm := List.perm_insertionSort (fun a b : π × χ => r a.1 b.1) book.entries
  refine ⟨sort_pairwise.sublist (List.take_sublist _ _), ?_⟩
  intro e
  have hirrefl : ∀ a : π × χ, ¬ Ahead r a a := fun a h => h.2 rfl
  rw [top, mem_take_iff_countP hirrefl (fun _ _ => not_ahead_of_ahead) sort_pairwise,
    hperm.mem_iff, hperm.countP_eq, rank]

/-- If the first levels of a larger book are those of the smaller one, every other level of it lies
behind `depth` levels of the smaller one. -/
lemma le_rank_of_isTop_top (h : IsTop r depth live (top r depth whole)) {e : π × χ}
    (he : e ∈ whole.entries) (hout : e ∉ live.entries) : depth ≤ rank r live e := by
  have htop : IsTop r depth whole (top r depth whole) := top_isTop
  have hrank : depth ≤ rank r whole e := by
    by_contra hlt
    have hlisted : e ∈ top r depth whole := (htop.mem_iff e).2 ⟨he, not_le.1 hlt⟩
    exact hout ((h.mem_iff e).1 hlisted).1
  have hlength : (top r depth whole).length = depth := by
    have hsize : rank r whole e ≤ whole.entries.length := List.countP_le_length
    rw [top, List.length_take, List.length_insertionSort]
    omega
  -- The listed levels belong to the smaller book, and all of them are ahead of `e`.
  have hsub : top r depth whole ⊆ live.entries.filter fun f => decide (Ahead r f e) := by
    intro f hf
    have hrank' := ((htop.mem_iff f).1 hf).2
    refine List.mem_filter.2 ⟨((h.mem_iff f).1 hf).1, decide_eq_true ?_⟩
    have hnot : ¬ r e.1 f.1 := by
      intro hle
      have hmono : rank r whole e ≤ rank r whole f := rank_le_rank_of_le hle
      omega
    refine ⟨(total_of r f.1 e.1).resolve_right hnot, ?_⟩
    intro heq
    exact hnot (heq ▸ (total_of r f.1 f.1).elim id id)
  have hnodup : (top r depth whole).Nodup :=
    h.sorted.imp fun {a b} hab heq => hab.2 (congrArg Prod.fst heq)
  calc
    depth = (top r depth whole).length := hlength.symm
    _ ≤ (live.entries.filter fun f => decide (Ahead r f e)).length :=
        (List.subperm_of_subset hnodup hsub).length_le
    _ = rank r live e := List.countP_eq_length_filter.symm

/-- The first levels of a larger book are those of the smaller one exactly if every level that only
the larger book has has enough levels of the smaller one ahead of it. -/
theorem isTop_top_iff (h : live.entries ⊆ whole.entries) :
    IsTop r depth live (top r depth whole) ↔
      ∀ e ∈ whole.entries, e ∉ live.entries → depth ≤ rank r live e := by
  have htop : IsTop r depth whole (top r depth whole) := top_isTop
  constructor
  · intro hlive e he hout
    exact le_rank_of_isTop_top hlive he hout
  · intro hcover
    refine ⟨htop.sorted, ?_⟩
    intro e
    rw [htop.mem_iff e]
    constructor
    · rintro ⟨he, hrank⟩
      -- A listed level cannot be one too many: it would have `depth` levels ahead of it.
      have hle : rank r live e ≤ rank r whole e := rank_le_rank_of_subset h e
      have hlive : e ∈ live.entries := by
        by_contra hout
        have hmany := hcover e he hout
        omega
      exact ⟨hlive, lt_of_le_of_lt hle hrank⟩
    · rintro ⟨he, hrank⟩
      exact ⟨h he, lt_of_le_of_lt (rank_whole_le hcover hrank) hrank⟩

end Top

/-! ## The first level -/

section Best

/-- The level is the first of the book. -/
def IsBest (r : π → π → Prop) (book : Dict π χ) (e : π × χ) : Prop :=
  e ∈ book.entries ∧ ∀ f ∈ book.entries, r e.1 f.1

variable {r : π → π → Prop} {book : Dict π χ}

/-- A price that no level is ahead of becomes the best one. -/
lemma isBest_set_of_first {p : π} {q : χ} (hrefl : r p p)
    (h : ∀ e ∈ book.entries, r p e.1) : IsBest r (book.set p q) (p, q) := by
  refine ⟨Dict.mem_set_iff.2 (Or.inl ⟨rfl, rfl⟩), ?_⟩
  rintro ⟨p', q'⟩ hf
  rcases Dict.mem_set_iff.1 hf with ⟨rfl, _⟩ | ⟨_, hold⟩
  · exact hrefl
  · exact h _ hold

/-- A price behind the best one leaves it. -/
lemma isBest_set_of_behind {p : π} {q : χ} {e : π × χ} (hbest : IsBest r book e)
    (hle : r e.1 p) (hne : e.1 ≠ p) : IsBest r (book.set p q) e := by
  refine ⟨Dict.mem_set_iff.2 (Or.inr ⟨hne, hbest.1⟩), ?_⟩
  rintro ⟨p', q'⟩ hf
  rcases Dict.mem_set_iff.1 hf with ⟨rfl, _⟩ | ⟨_, hold⟩
  · exact hle
  · exact hbest.2 _ hold

/-- The best level of everything that has been set, also before the book began, is the best of the
book exactly if for everything that has been set the book has a level at least as good. -/
theorem isBest_live_iff [Zero χ] [DecidableEq χ] [Std.Antisymm r] {us vs : List (π × χ)}
    {e : π × χ} (h : IsBest r (levels (marks (us ++ vs))) e) :
    IsBest r (levels vs) e ↔
      ∀ u ∈ us ++ vs, u.2 ≠ 0 → ∃ f ∈ (levels vs).entries, r f.1 u.1 := by
  have hlive : ∀ f ∈ (levels vs).entries, f ∈ (levels (marks (us ++ vs))).entries := by
    intro f hf
    refine mem_levels_marks ?_
    rw [levels_append, mem_foldl_setLevel_iff]
    exact Or.inl hf
  constructor
  · intro hbest u hu hne
    have hkey : u.1 ∈ (levels (marks (us ++ vs))).keys :=
      mem_keys_levels_marks.2 ⟨u, hu, rfl, hne⟩
    rcases List.mem_map.1 hkey with ⟨f, hf, hfu⟩
    exact ⟨e, hbest.1, hfu ▸ h.2 f hf⟩
  · intro hcover
    -- The best price has been set by some update, so the book has a level at least as good.
    have hkey : e.1 ∈ (levels (marks (us ++ vs))).keys := Dict.mem_keys_of_mem h.1
    rcases mem_keys_levels_marks.1 hkey with ⟨u, hu, hue, hne⟩
    rcases hcover u hu hne with ⟨f, hf, hle⟩
    -- It cannot be better, so it is the best one.
    have hprice : f.1 = e.1 := antisymm (hue ▸ hle) (h.2 f (hlive f hf))
    have heq : f = e := by
      have hmem : (e.1, f.2) ∈ (levels (marks (us ++ vs))).entries := hprice ▸ hlive f hf
      exact Prod.ext hprice (Dict.eq_of_mem_of_mem hmem h.1)
    exact ⟨heq ▸ hf, fun g hg => h.2 g (hlive g hg)⟩

end Best

end Foundation
