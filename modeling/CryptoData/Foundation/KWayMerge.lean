import Mathlib.Data.Multiset.Basic
import Mathlib.Data.Multiset.Bind
import Mathlib.Data.Multiset.Pairwise
import Mathlib.Data.Multiset.ZeroCons
import Mathlib.Order.Basic

/-!
# KWayMerge — merging a family of streams by a key

`Merges key S out` says that `out` is obtained from the multiset of streams `S` by repeatedly
removing the head of some stream whose key is least among all heads.  Nothing is said about which
of several least heads is taken, nor about the order within a stream.

* `Merges.perm`, `Merges.sublist`, `Merges.sorted` — every element exactly once, the order of each
  stream kept, sortedness passed on;
* `Merges.unique` — the output is a function of the multiset of streams as soon as two different
  streams never share a key;
* `Merges.append` — streams cut at one level of the key are merged part by part.
-/

namespace Foundation

variable {α κ β : Type*} [LinearOrder κ]

inductive Merges (key : α → κ) : Multiset (List α) → List α → Prop
  | done {S : Multiset (List α)} : (∀ l ∈ S, l = []) → Merges key S []
  | pick {S : Multiset (List α)} {x : α} {xs out : List α} :
      (∀ y ys, y :: ys ∈ S → key x ≤ key y) → Merges key (xs ::ₘ S) out →
        Merges key ((x :: xs) ::ₘ S) (x :: out)

/-- Different streams have no key in common. -/
def ApartStreams (key : α → κ) (l₁ l₂ : List α) : Prop :=
  ∀ x ∈ l₁, ∀ y ∈ l₂, key x ≠ key y

instance (key : α → κ) : Std.Symm (ApartStreams key) where
  symm := by
    intro l₁ l₂ h y hy x hx hxy
    exact h x hx y hy hxy.symm

def Apart (key : α → κ) (S : Multiset (List α)) : Prop :=
  S.Pairwise (ApartStreams key)

omit [LinearOrder κ] in
lemma apart_cons_iff {key : α → κ} {l : List α} {S : Multiset (List α)} :
    Apart key (l ::ₘ S) ↔ (∀ l' ∈ S, ApartStreams key l l') ∧ Apart key S := by
  induction S using Quotient.inductionOn with
  | h L =>
      have hcons : (l ::ₘ (L : Multiset (List α))) = ((l :: L : List (List α)) : Multiset _) := rfl
      simp [Apart, hcons, Multiset.pairwise_coe_iff_pairwise, List.pairwise_cons]

omit [LinearOrder κ] in
lemma Apart.tail {key : α → κ} {x : α} {xs : List α} {S : Multiset (List α)}
    (h : Apart key ((x :: xs) ::ₘ S)) : Apart key (xs ::ₘ S) := by
  obtain ⟨hhead, hS⟩ := apart_cons_iff.1 h
  refine apart_cons_iff.2 ⟨?_, hS⟩
  intro l hl y hy
  exact hhead l hl y (List.mem_cons_of_mem x hy)

namespace Merges

variable {key : α → κ} {S : Multiset (List α)} {out : List α}

/-- Every element of every stream appears exactly once. -/
theorem perm (h : Merges key S out) :
    (out : Multiset α) = (S.map fun l : List α => (l : Multiset α)).join := by
  induction h with
  | @done S hnil =>
      -- All streams are used up, so they hold nothing together.
      have hzero : S.map (fun l : List α => (l : Multiset α)) = S.map fun _ => 0 :=
        Multiset.map_congr rfl fun l hl => by simp [hnil l hl]
      simp [hzero, Multiset.join]
  | pick _ _ ih =>
      simp only [Multiset.map_cons, Multiset.join_cons] at ih ⊢
      simp [← Multiset.cons_coe, ih, Multiset.cons_add]

theorem perm_flatten {L : List (List α)} (h : Merges key (L : Multiset (List α)) out) :
    out.Perm L.flatten :=
  Multiset.coe_eq_coe.1 (h.perm.trans (Multiset.coe_join L))

/-- Each stream is a subsequence of the output. -/
theorem sublist (h : Merges key S out) : ∀ l ∈ S, l.Sublist out := by
  induction h with
  | done hnil =>
      intro l hl
      simp [hnil l hl]
  | pick _ _ ih =>
      intro l hl
      rcases Multiset.mem_cons.1 hl with rfl | hl
      · exact (ih _ (Multiset.mem_cons_self _ _)).cons_cons _
      · exact (ih l (Multiset.mem_cons_of_mem hl)).cons _

lemma exists_mem_of_mem (h : Merges key S out) {x : α} (hx : x ∈ out) : ∃ l ∈ S, x ∈ l := by
  have hmem : x ∈ (S.map fun l : List α => (l : Multiset α)).join := by
    have hx' : x ∈ (out : Multiset α) := by simpa using hx
    simpa [h.perm] using hx'
  obtain ⟨m, hm, hxm⟩ := Multiset.mem_join.1 hmem
  obtain ⟨l, hl, rfl⟩ := Multiset.mem_map.1 hm
  exact ⟨l, hl, by simpa using hxm⟩

/-- If every stream is sorted by a quantity the key refines, so is the output. -/
theorem sorted [Preorder β] {f : α → β} (hf : ∀ x y, key x ≤ key y → f x ≤ f y)
    (h : Merges key S out) :
    (∀ l ∈ S, l.Pairwise fun x y => f x ≤ f y) → out.Pairwise fun x y => f x ≤ f y := by
  induction h with
  | done _ =>
      intro _
      exact List.Pairwise.nil
  | @pick S x xs out hmin hrest ih =>
      intro hS
      have hx := List.pairwise_cons.1 (hS (x :: xs) (Multiset.mem_cons_self _ _))
      refine List.pairwise_cons.2 ⟨?_, ih ?_⟩
      · intro y hy
        obtain ⟨l, hl, hyl⟩ := hrest.exists_mem_of_mem hy
        rcases Multiset.mem_cons.1 hl with rfl | hl
        · exact hx.1 y hyl
        · -- Another stream: its head is at or above `x`, and `y` at or above that head.
          have hsorted := hS l (Multiset.mem_cons_of_mem hl)
          cases l with
          | nil => cases hyl
          | cons z zs =>
              have hxz : f x ≤ f z := hf x z (hmin z zs hl)
              rcases List.mem_cons.1 hyl with rfl | hyz
              · exact hxz
              · exact le_trans hxz ((List.pairwise_cons.1 hsorted).1 y hyz)
      · intro l hl
        rcases Multiset.mem_cons.1 hl with rfl | hl
        · exact hx.2
        · exact hS l (Multiset.mem_cons_of_mem hl)

/-- An exhausted stream changes nothing. -/
lemma cons_nil (h : Merges key S out) : Merges key ([] ::ₘ S) out := by
  induction h with
  | done hnil =>
      refine Merges.done ?_
      intro l hl
      rcases Multiset.mem_cons.1 hl with rfl | hl
      · rfl
      · exact hnil l hl
  | @pick S x xs out hmin _ ih =>
      rw [Multiset.cons_swap]
      refine Merges.pick ?_ (by simpa [Multiset.cons_swap] using ih)
      intro y ys hys
      rcases Multiset.mem_cons.1 hys with hnil | hys
      · cases hnil
      · exact hmin y ys hys

lemma add_replicate_nil (h : Merges key S out) :
    ∀ m : ℕ, Merges key (S + Multiset.replicate m []) out
  | 0 => by simpa using h
  | m + 1 => by
      have hm := (add_replicate_nil h m).cons_nil
      simpa [Multiset.replicate_succ, Multiset.add_cons] using hm

/-- A merge by a finer key is a merge of what the streams carry by a coarser one. -/
theorem map {γ μ : Type*} [LinearOrder μ] {key' : γ → μ} {f : α → γ}
    (hf : ∀ x y, key x ≤ key y → key' (f x) ≤ key' (f y)) (h : Merges key S out) :
    Merges key' (S.map (List.map f)) (out.map f) := by
  induction h with
  | done hnil =>
      refine Merges.done ?_
      intro l hl
      rcases Multiset.mem_map.1 hl with ⟨m, hm, rfl⟩
      rw [hnil m hm, List.map_nil]
  | @pick S x xs out hmin _ ih =>
      rw [Multiset.map_cons, List.map_cons, List.map_cons]
      refine Merges.pick ?_ (by simpa using ih)
      intro z zs hz
      rcases Multiset.mem_map.1 hz with ⟨m, hm, hmap⟩
      cases m with
      | nil => cases hmap
      | cons y ys =>
          rcases List.cons.inj hmap with ⟨rfl, _⟩
          exact hf x y (hmin y ys hm)

/-- If a stream with all its early elements first has any, its head is early and its tail is such a
stream again. -/
lemma cut_tail {p : α → Bool} {l xs : List α} {x : α}
    (hcut : l = l.filter p ++ l.filter fun y => !p y) (hfilter : l.filter p = x :: xs) :
    ∃ m, l = x :: m ∧ p x = true ∧ m.filter p = xs ∧
      (m.filter fun y => !p y) = (l.filter fun y => !p y) ∧
      m = m.filter p ++ m.filter fun y => !p y := by
  have hpx : p x = true := (List.mem_filter.1 (hfilter ▸ List.mem_cons_self)).2
  cases l with
  | nil => cases hfilter
  | cons y m =>
      rw [hfilter, List.cons_append] at hcut
      rcases List.cons.inj hcut with ⟨rfl, htail⟩
      have hearly : m.filter p = xs := by
        rw [List.filter_cons_of_pos hpx] at hfilter
        exact (List.cons.inj hfilter).2
      have hlate : ((y :: m).filter fun z => !p z) = m.filter fun z => !p z :=
        List.filter_cons_of_neg (by simp [hpx])
      refine ⟨m, rfl, hpx, hearly, hlate.symm, ?_⟩
      rw [hlate] at htail
      rw [hearly]
      exact htail

/-- If every stream has all its early elements first, and an early key is at most a late one, then
merging the early parts and then the late parts is merging the streams. -/
theorem append {p : α → Bool} {early late : List α}
    (hp : ∀ x y, p x = true → p y = false → key x ≤ key y)
    (hearly : Merges key (S.map (List.filter p)) early)
    (hlate : Merges key (S.map (List.filter fun x => !p x)) late)
    (hcut : ∀ l ∈ S, l = l.filter p ++ l.filter fun x => !p x) : Merges key S (early ++ late) := by
  generalize hT : S.map (List.filter p) = T at hearly
  induction hearly generalizing S with
  | done hnil =>
      -- Nothing early is left, so the streams are their late parts.
      have hself : S.map (List.filter fun x => !p x) = S := by
        have hid : S.map (List.filter fun x => !p x) = S.map id := by
          refine Multiset.map_congr rfl ?_
          intro l hl
          have hfirst : l.filter p = [] := hnil _ (hT ▸ Multiset.mem_map_of_mem _ hl)
          have hl' := hcut l hl
          rw [hfirst, List.nil_append] at hl'
          exact hl'.symm
        rw [hid, Multiset.map_id]
      rw [hself] at hlate
      exact hlate
  | @pick T x xs early hmin _ ih =>
      -- The stream that delivers `x` has it as its own head.
      have hmem : (x :: xs) ∈ S.map (List.filter p) := hT ▸ Multiset.mem_cons_self _ _
      rcases Multiset.mem_map.1 hmem with ⟨l, hl, hfilter⟩
      rcases Multiset.exists_cons_of_mem hl with ⟨R, rfl⟩
      rcases cut_tail (hcut l (Multiset.mem_cons_self _ _)) hfilter with
        ⟨m, rfl, hpx, hm, hm', hcut'⟩
      have hR : R.map (List.filter p) = T := by
        rw [Multiset.map_cons, hfilter] at hT
        exact Multiset.cons_inj_right _ |>.1 hT
      refine Merges.pick ?_ (ih ?_ ?_ ?_)
      · intro y zs hy
        cases hpy : p y with
        | false => exact hp x y hpx hpy
        | true =>
            refine hmin y (zs.filter p) ?_
            rw [← hR]
            exact Multiset.mem_map.2 ⟨y :: zs, hy, List.filter_cons_of_pos hpy⟩
      · rw [Multiset.map_cons, ← hm'] at hlate
        rw [Multiset.map_cons]
        exact hlate
      · intro l hl
        rcases Multiset.mem_cons.1 hl with rfl | hin
        · exact hcut'
        · exact hcut l (Multiset.mem_cons_of_mem hin)
      · rw [Multiset.map_cons, hR, hm]

/-- With pairwise apart streams the least head is unique, and with it the whole output. -/
theorem unique (h : Merges key S out) :
    Apart key S → ∀ {out' : List α}, Merges key S out' → out' = out := by
  induction h with
  | done hnil =>
      intro _ out' h'
      cases out' with
      | nil => rfl
      | cons y out' =>
          obtain ⟨l, hl, hyl⟩ := h'.exists_mem_of_mem List.mem_cons_self
          simp [hnil l hl] at hyl
  | @pick S x xs out hmin _ ih =>
      intro hapart out' h'
      generalize hT : (x :: xs) ::ₘ S = T at h'
      cases h' with
      | done hnil =>
          have hmem : (x :: xs) ∈ T := by simp [← hT]
          cases hnil _ hmem
      | @pick S' y ys out' hmin' hrest' =>
          rcases Multiset.cons_eq_cons.1 hT with ⟨hhead, hS⟩ | ⟨_, R, hS, hS'⟩
          · obtain ⟨rfl, rfl⟩ := List.cons.inj hhead
            subst hS
            rw [ih hapart.tail hrest']
          · -- Two different streams would both offer a least head.
            exfalso
            have hyS : (y :: ys) ∈ S := by simp [hS]
            have hxS' : (x :: xs) ∈ S' := by simp [hS']
            have heq : key x = key y := le_antisymm (hmin y ys hyS) (hmin' x xs hxS')
            have hne := (apart_cons_iff.1 hapart).1 (y :: ys) hyS
            exact hne x List.mem_cons_self y List.mem_cons_self heq

end Merges
end Foundation
