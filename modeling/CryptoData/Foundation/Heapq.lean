import Mathlib.Data.List.Nodup
import Mathlib.Algebra.Order.Group.Nat
import Mathlib.Order.Basic

/-!
# Heapq — a binary heap whose comparisons may raise

The array heap of a standard library: the children of position `i` sit at `2 * i + 1` and
`2 * i + 2`.  `siftdown` moves a new item towards the root; `heappop` puts the last item at the
root, moves the hole down to a leaf past the smaller children, and sifts the item back up.

Elements are ordered by a `key`.  Two elements with one key cannot be compared: `lt?` is then
`none`, and every operation that performs such a comparison is `none` as well.  The
specifications `heappush_spec` and `heappop_spec` therefore say two things at once: on a heap
whose keys are pairwise distinct no comparison raises, and the result is what a priority queue
should return.
-/

namespace Foundation
namespace Heapq

variable {α κ : Type} [LinearOrder κ]

/-! ## The operations -/

/-- `x < y`; elements with equal keys are not comparable. -/
def lt? (key : α → κ) (x y : α) : Option Bool :=
  if key x = key y then none else some (decide (key x < key y))

/-- Exchange positions `i` and `j`. -/
def swap (h : List α) (i j : ℕ) : List α :=
  match h[i]?, h[j]? with
  | some a, some b => (h.set i b).set j a
  | _, _ => h

/-- Move the item at `pos` towards the root while it is smaller than its parent. -/
def siftdown (key : α → κ) : ℕ → List α → ℕ → Option (List α)
  | 0, h, _ => some h
  | fuel + 1, h, pos =>
      if pos = 0 then
        some h
      else do
        let item ← h[pos]?
        let parent ← h[(pos - 1) / 2]?
        -- Only a strictly smaller item moves up.
        if (← lt? key item parent) = true then
          siftdown key fuel (swap h pos ((pos - 1) / 2)) ((pos - 1) / 2)
        else
          some h

/-- The position of the smaller child of `pos`, the left one if there is no right one. -/
def smallerChild (key : α → κ) (h : List α) (pos : ℕ) : Option ℕ :=
  if 2 * pos + 2 < h.length then do
    let left ← h[2 * pos + 1]?
    let right ← h[2 * pos + 2]?
    if (← lt? key left right) = true then some (2 * pos + 1) else some (2 * pos + 2)
  else
    some (2 * pos + 1)

/-- Bubble the smaller child up until the item at `pos` sits at a leaf. -/
def descend (key : α → κ) : ℕ → List α → ℕ → Option (List α × ℕ)
  | 0, h, pos => some (h, pos)
  | fuel + 1, h, pos =>
      if 2 * pos + 1 < h.length then do
        let child ← smallerChild key h pos
        descend key fuel (swap h pos child) child
      else
        some (h, pos)

def siftup (key : α → κ) (h : List α) : Option (List α) := do
  let (h', pos) ← descend key h.length h 0
  siftdown key pos h' pos

def heappush (key : α → κ) (h : List α) (x : α) : Option (List α) :=
  siftdown key h.length (h ++ [x]) h.length

/-- The smallest item and the rest of the heap; `none` also for the empty heap. -/
def heappop (key : α → κ) : List α → Option (α × List α)
  | [] => none
  | x :: xs =>
      match xs.getLast? with
      | none => some (x, [])
      -- The last item replaces the root, and the hole travels down from there.
      | some last => do
          let h ← siftup key (last :: xs.dropLast)
          some (x, h)

/-! ## Exchanging two positions -/

lemma swap_eq {h : List α} {i j : ℕ} {a b : α} (ha : h[i]? = some a) (hb : h[j]? = some b) :
    swap h i j = (h.set i b).set j a := by
  simp [swap, ha, hb]

lemma swap_perm (h : List α) (i j : ℕ) : (swap h i j).Perm h := by
  cases ha : h[i]? with
  | none => simp [swap, ha]
  | some a =>
      cases hb : h[j]? with
      | none => simp [swap, ha, hb]
      | some b =>
          obtain ⟨hi, rfl⟩ := List.getElem?_eq_some_iff.1 ha
          obtain ⟨hj, rfl⟩ := List.getElem?_eq_some_iff.1 hb
          simpa [swap_eq ha hb] using List.set_set_perm hi hj

lemma getElem?_swap {h : List α} {i j k : ℕ} (hi : i < h.length) (hj : j < h.length) :
    (swap h i j)[k]? = if k = i then h[j]? else if k = j then h[i]? else h[k]? := by
  have ha := List.getElem?_eq_getElem hi
  have hb := List.getElem?_eq_getElem hj
  rw [swap_eq ha hb]
  by_cases hki : k = i
  · subst hki
    by_cases hkj : j = k
    · subst hkj
      simp [hi]
    · simp [hkj, hi, hb]
  · by_cases hkj : k = j
    · subst hkj
      simp [hki, hj, ha]
    · have hik : i ≠ k := fun h' => hki h'.symm
      have hjk : j ≠ k := fun h' => hkj h'.symm
      simp [hki, hkj, hik, hjk]

lemma length_swap (h : List α) (i j : ℕ) : (swap h i j).length = h.length :=
  (swap_perm h i j).length_eq

omit [LinearOrder κ] in
/-- In a heap with pairwise distinct keys a key names its position. -/
lemma pos_eq_of_key_eq {key : α → κ} {h : List α} (hnd : (h.map key).Nodup) {i j : ℕ} {a b : α}
    (ha : h[i]? = some a) (hb : h[j]? = some b) (hab : key a = key b) : i = j := by
  obtain ⟨hi, _⟩ := List.getElem?_eq_some_iff.1 ha
  refine (List.getElem?_inj (by simpa using hi) hnd).1 ?_
  simp [ha, hb, hab]

/-- Distinct positions of such a heap are comparable. -/
lemma lt?_of_ne {key : α → κ} {h : List α} (hnd : (h.map key).Nodup) {i j : ℕ} {a b : α}
    (ha : h[i]? = some a) (hb : h[j]? = some b) (hij : i ≠ j) :
    lt? key a b = some (decide (key a < key b)) := by
  have hne : key a ≠ key b := fun hab => hij (pos_eq_of_key_eq hnd ha hb hab)
  simp [lt?, hne]

/-! ## Heap order -/

/-- Every element is at or above its parent.  Position `0` is its own parent. -/
def IsHeap (key : α → κ) (h : List α) : Prop :=
  ∀ i a p, h[i]? = some a → h[(i - 1) / 2]? = some p → key p ≤ key a

/-- Heap order up to the item at `pos`, which may be smaller than its parent. -/
structure UpOrder (key : α → κ) (h : List α) (pos : ℕ) : Prop where
  except : ∀ i a p, i ≠ pos → h[i]? = some a → h[(i - 1) / 2]? = some p → key p ≤ key a
  grand : ∀ c a g, 0 < pos → (c - 1) / 2 = pos → h[c]? = some a →
    h[(pos - 1) / 2]? = some g → key g ≤ key a

/-- Heap order up to the item at `pos`, which need not be related to its children either. -/
structure DownOrder (key : α → κ) (h : List α) (pos : ℕ) : Prop where
  except : ∀ i a p, i ≠ pos → (i - 1) / 2 ≠ pos → h[i]? = some a →
    h[(i - 1) / 2]? = some p → key p ≤ key a
  grand : ∀ c a g, 0 < pos → (c - 1) / 2 = pos → h[c]? = some a →
    h[(pos - 1) / 2]? = some g → key g ≤ key a

variable {key : α → κ}

/-- The root of a heap is its least element. -/
theorem IsHeap.root_le {x : α} {xs : List α} (hheap : IsHeap key (x :: xs)) :
    ∀ (i : ℕ) {a : α}, (x :: xs)[i]? = some a → key x ≤ key a := by
  -- Induction along the path to the root: the parent's position is smaller.
  intro i
  induction i using Nat.strongRecOn with
  | ind i ih =>
      intro a ha
      by_cases hi : i = 0
      · subst hi
        simp at ha
        simp [ha]
      · have hlt : (i - 1) / 2 < i := by omega
        obtain ⟨hlen, _⟩ := List.getElem?_eq_some_iff.1 ha
        have hp : (x :: xs)[(i - 1) / 2]? = some (x :: xs)[(i - 1) / 2] :=
          List.getElem?_eq_getElem (lt_trans hlt hlen)
        exact le_trans (ih _ hlt hp) (hheap i a _ ha hp)

/-! ## Sifting towards the root -/

lemma UpOrder.isHeap_of_root {h : List α} (ho : UpOrder key h 0) : IsHeap key h := by
  intro i a p ha hp
  by_cases hi : i = 0
  · subst hi
    have heq : a = p := by simpa [ha] using hp
    exact le_of_eq (congrArg key heq.symm)
  · exact ho.except i a p hi ha hp

lemma UpOrder.isHeap_of_le {h : List α} {pos : ℕ} {item parent : α} (ho : UpOrder key h pos)
    (hitem : h[pos]? = some item) (hparent : h[(pos - 1) / 2]? = some parent)
    (hle : key parent ≤ key item) : IsHeap key h := by
  intro i a p ha hp
  by_cases hi : i = pos
  · subst hi
    have ha' : item = a := by simpa [hitem] using ha
    have hp' : parent = p := by simpa [hparent] using hp
    simpa [← ha', ← hp'] using hle
  · exact ho.except i a p hi ha hp

/-- Exchanging the item with its larger parent moves the exception one level up. -/
lemma UpOrder.move {h : List α} {pos : ℕ} {item parent : α} (ho : UpOrder key h pos)
    (hpos : 0 < pos) (hitem : h[pos]? = some item) (hparent : h[(pos - 1) / 2]? = some parent)
    (hlt : key item < key parent) : UpOrder key (swap h pos ((pos - 1) / 2)) ((pos - 1) / 2) := by
  have hq : (pos - 1) / 2 < pos := by omega
  have hlen : pos < h.length := (List.getElem?_eq_some_iff.1 hitem).1
  have hqlen : (pos - 1) / 2 < h.length := lt_trans hq hlen
  constructor
  · intro i a p hi ha hp
    rw [getElem?_swap hlen hqlen] at ha hp
    by_cases hipos : i = pos
    · -- The old parent now sits below the item.
      subst hipos
      have ha' : parent = a := by simpa [hparent] using ha
      have hp' : item = p := by simpa [hq.ne, hitem] using hp
      simpa [← ha', ← hp'] using le_of_lt hlt
    · have ha' : h[i]? = some a := by simpa [hipos, hi] using ha
      by_cases hchild : (i - 1) / 2 = pos
      · -- A child of the old position: its new parent was its grandparent.
        have hp' : parent = p := by simpa [hchild, hparent] using hp
        simpa [← hp'] using ho.grand i a parent hpos hchild ha' hparent
      -- A sibling of the item was already above the old parent; all other pairs are untouched.
      · by_cases hsib : (i - 1) / 2 = (pos - 1) / 2
        · have hp' : item = p := by simpa [hsib, hq.ne, hitem] using hp
          have hle := ho.except i a parent hipos ha' (by simpa [hsib] using hparent)
          simpa [← hp'] using le_trans (le_of_lt hlt) hle
        · have hp' : h[(i - 1) / 2]? = some p := by simpa [hchild, hsib] using hp
          exact ho.except i a p hipos ha' hp'
  · intro c a g hq0 hc ha hg
    rw [getElem?_swap hlen hqlen] at ha hg
    have hgrand : ((pos - 1) / 2 - 1) / 2 < (pos - 1) / 2 := by omega
    have hg' : h[((pos - 1) / 2 - 1) / 2]? = some g := by
      simpa [(lt_trans hgrand hq).ne, hgrand.ne] using hg
    have hup : key g ≤ key parent := ho.except _ parent g hq.ne hparent hg'
    by_cases hcpos : c = pos
    · have ha' : parent = a := by simpa [hcpos, hparent] using ha
      simpa [← ha'] using hup
    -- The other child of the old parent is bounded by it, hence by the grandparent.
    · have hcq : c ≠ (pos - 1) / 2 := by omega
      have ha' : h[c]? = some a := by simpa [hcpos, hcq] using ha
      have hle := ho.except c a parent hcpos ha' (by simpa [hc] using hparent)
      exact le_trans hup hle

theorem siftdown_spec :
    ∀ (fuel : ℕ) (h : List α) (pos : ℕ), (h.map key).Nodup → pos < h.length → pos ≤ fuel →
      UpOrder key h pos → ∃ h', siftdown key fuel h pos = some h' ∧ h'.Perm h ∧ IsHeap key h' := by
  intro fuel
  -- The position at least halves, so `pos` rounds are enough; `UpOrder` is the loop invariant.
  induction fuel with
  | zero =>
      intro h pos _ _ hfuel ho
      have hpos : pos = 0 := Nat.le_zero.1 hfuel
      subst hpos
      exact ⟨h, rfl, List.Perm.refl h, ho.isHeap_of_root⟩
  | succ fuel ih =>
      intro h pos hnd hlen hfuel ho
      by_cases hpos : pos = 0
      · subst hpos
        exact ⟨h, by simp [siftdown], List.Perm.refl h, ho.isHeap_of_root⟩
      · have hq : (pos - 1) / 2 < pos := by omega
        have hitem := List.getElem?_eq_getElem hlen
        have hparent := List.getElem?_eq_getElem (lt_trans hq hlen)
        have hcmp := lt?_of_ne hnd hitem hparent hq.ne'
        by_cases hlt : key h[pos] < key h[(pos - 1) / 2]
        · have hperm := swap_perm h pos ((pos - 1) / 2)
          obtain ⟨h', hrun, hperm', hheap⟩ := ih (swap h pos ((pos - 1) / 2)) ((pos - 1) / 2)
            ((hperm.map key).nodup_iff.2 hnd) (by simpa [length_swap] using lt_trans hq hlen)
            (by omega) (ho.move (Nat.pos_of_ne_zero hpos) hitem hparent hlt)
          refine ⟨h', ?_, hperm'.trans hperm, hheap⟩
          simpa [siftdown, hpos, hitem, hparent, hcmp, hlt] using hrun
        · refine ⟨h, ?_, List.Perm.refl h, ho.isHeap_of_le hitem hparent (not_lt.1 hlt)⟩
          simp [siftdown, hpos, hitem, hparent, hcmp, hlt]

/-! ## Bubbling the smaller child up -/

/-- The chosen child is a child, and no other child is smaller. -/
lemma smallerChild_spec {h : List α} (hnd : (h.map key).Nodup) {pos : ℕ}
    (hpos : 2 * pos + 1 < h.length) :
    ∃ c, smallerChild key h pos = some c ∧ c < h.length ∧ 0 < c ∧ (c - 1) / 2 = pos ∧
      ∀ d a b, 0 < d → (d - 1) / 2 = pos → h[c]? = some a → h[d]? = some b → key a ≤ key b := by
  have hl := List.getElem?_eq_getElem hpos
  by_cases hr : 2 * pos + 2 < h.length
  · have hr' := List.getElem?_eq_getElem hr
    have hcmp := lt?_of_ne hnd hl hr' (by omega)
    by_cases hlt : key h[2 * pos + 1] < key h[2 * pos + 2]
    · refine ⟨2 * pos + 1, by simp [smallerChild, hr, hl, hcmp, hlt], hpos, by omega, by omega, ?_⟩
      intro d a b hd hdpos ha hb
      have ha' : h[2 * pos + 1] = a := by simpa [hl] using ha
      have hd' : d = 2 * pos + 1 ∨ d = 2 * pos + 2 := by omega
      rcases hd' with rfl | rfl
      · have hb' : h[2 * pos + 1] = b := by simpa [hl] using hb
        simp [← ha', ← hb']
      · have hb' : h[2 * pos + 2] = b := by simpa [hr'] using hb
        simpa [← ha', ← hb'] using le_of_lt hlt
    · refine ⟨2 * pos + 2, by simp [smallerChild, hr, hl, hcmp, hlt], hr, by omega, by omega, ?_⟩
      intro d a b hd hdpos ha hb
      have ha' : h[2 * pos + 2] = a := by simpa [hr'] using ha
      have hd' : d = 2 * pos + 1 ∨ d = 2 * pos + 2 := by omega
      rcases hd' with rfl | rfl
      · have hb' : h[2 * pos + 1] = b := by simpa [hl] using hb
        simpa [← ha', ← hb'] using not_lt.1 hlt
      · have hb' : h[2 * pos + 2] = b := by simpa [hr'] using hb
        simp [← ha', ← hb']
  · refine ⟨2 * pos + 1, by simp [smallerChild, hr], hpos, by omega, by omega, ?_⟩
    intro d a b hd hdpos ha hb
    have hdlen : d < h.length := (List.getElem?_eq_some_iff.1 hb).1
    have hd' : d = 2 * pos + 1 := by omega
    subst hd'
    have hab : a = b := by simpa [ha] using hb
    simp [hab]

/-- Exchanging the hole with its smaller child moves the exception one level down. -/
lemma DownOrder.move {h : List α} {pos c : ℕ} (ho : DownOrder key h pos) (hlen : pos < h.length)
    (hc : c < h.length) (hc0 : 0 < c) (hcpos : (c - 1) / 2 = pos)
    (hmin : ∀ d a b, 0 < d → (d - 1) / 2 = pos → h[c]? = some a → h[d]? = some b →
      key a ≤ key b) : DownOrder key (swap h pos c) c := by
  have hlt : pos < c := by omega
  have hchild := List.getElem?_eq_getElem hc
  constructor
  · intro i a p hic hpc ha hp
    rw [getElem?_swap hlen hc] at ha hp
    by_cases hipos : i = pos
    · subst hipos
      by_cases hi0 : i = 0
      · subst hi0
        have ha' : h[c]? = some a := by simpa using ha
        have hap : a = p := by simpa [ha'] using hp
        simp [hap]
      · -- The raised child against the hole's old parent.
        have hq : (i - 1) / 2 < i := by omega
        have ha' : h[c]? = some a := by simpa using ha
        have hp' : h[(i - 1) / 2]? = some p := by simpa [hq.ne, hpc] using hp
        exact ho.grand c a p (Nat.pos_of_ne_zero hi0) hcpos ha' hp'
    · have ha' : h[i]? = some a := by simpa [hipos, hic] using ha
      by_cases hppos : (i - 1) / 2 = pos
      · -- A sibling of the raised child.
        have hp' : h[c]? = some p := by simpa [hppos] using hp
        exact hmin i p a (by omega) hppos hp' ha'
      · have hp' : h[(i - 1) / 2]? = some p := by simpa [hppos, hpc] using hp
        exact ho.except i a p hipos hppos ha' hp'
  · intro d a g _ hdc ha hg
    rw [getElem?_swap hlen hc] at ha hg
    have hdpos : d ≠ pos := by omega
    have hdc' : d ≠ c := by omega
    have ha' : h[d]? = some a := by simpa [hdpos, hdc'] using ha
    have hg' : h[c]? = some g := by simpa [hcpos] using hg
    exact ho.except d a g hdpos (by omega) ha' (by simpa [hdc] using hg')

theorem descend_spec :
    ∀ (fuel : ℕ) (h : List α) (pos : ℕ), (h.map key).Nodup → pos < h.length →
      h.length ≤ fuel + pos → DownOrder key h pos →
        ∃ h' pos', descend key fuel h pos = some (h', pos') ∧ h'.Perm h ∧ pos' < h'.length ∧
          UpOrder key h' pos' := by
  intro fuel
  -- Each round goes at least one position to the right; `DownOrder` is the loop invariant.
  induction fuel with
  | zero =>
      intro h pos _ hlen hfuel _
      omega
  | succ fuel ih =>
      intro h pos hnd hlen hfuel ho
      by_cases hpos : 2 * pos + 1 < h.length
      · obtain ⟨c, hrun, hc, hc0, hcpos, hmin⟩ := smallerChild_spec hnd hpos
        have hperm := swap_perm h pos c
        obtain ⟨h', pos', hrest, hperm', hlen', hup⟩ := ih (swap h pos c) c
          ((hperm.map key).nodup_iff.2 hnd) (by simpa [length_swap] using hc)
          (by rw [length_swap]; omega) (ho.move hlen hc hc0 hcpos hmin)
        refine ⟨h', pos', ?_, hperm'.trans hperm, hlen', hup⟩
        simpa [descend, hpos, hrun] using hrest
      · -- At a leaf no element has its parent at `pos`.
        refine ⟨h, pos, by simp [descend, hpos], List.Perm.refl h, hlen, ?_, ho.grand⟩
        intro i a p hi ha hp
        have hilen : i < h.length := (List.getElem?_eq_some_iff.1 ha).1
        exact ho.except i a p hi (by omega) ha hp

/-! ## The priority queue -/

theorem heappush_spec {h : List α} {x : α} (hheap : IsHeap key h)
    (hnd : ((x :: h).map key).Nodup) :
    ∃ h', heappush key h x = some h' ∧ h'.Perm (x :: h) ∧ IsHeap key h' := by
  have hperm : (h ++ [x]).Perm (x :: h) := List.perm_append_singleton x h
  have hup : UpOrder key (h ++ [x]) h.length := by
    constructor
    · intro i a p hi ha hp
      have hilen : i < (h ++ [x]).length := (List.getElem?_eq_some_iff.1 ha).1
      have hi' : i < h.length := by
        simp at hilen
        omega
      have ha' : h[i]? = some a := by simpa [List.getElem?_append_left hi'] using ha
      have hp' : h[(i - 1) / 2]? = some p := by
        simpa [List.getElem?_append_left (show (i - 1) / 2 < h.length by omega)] using hp
      exact hheap i a p ha' hp'
    -- The new item is the last one, so it has no children.
    · intro c a g hpos hc ha _
      have hclen : c < (h ++ [x]).length := (List.getElem?_eq_some_iff.1 ha).1
      simp at hclen
      omega
  obtain ⟨h', hrun, hperm', hheap'⟩ := siftdown_spec h.length (h ++ [x]) h.length
    ((hperm.map key).nodup_iff.2 hnd) (by simp) (le_refl _) hup
  exact ⟨h', hrun, hperm'.trans hperm, hheap'⟩

theorem siftup_spec {h : List α} (hne : h ≠ []) (hnd : (h.map key).Nodup)
    (ho : DownOrder key h 0) : ∃ h', siftup key h = some h' ∧ h'.Perm h ∧ IsHeap key h' := by
  obtain ⟨h₁, pos, hrun, hperm, hlen, hup⟩ :=
    descend_spec h.length h 0 hnd (List.length_pos_iff.2 hne) (by simp) ho
  obtain ⟨h₂, hrun', hperm', hheap⟩ :=
    siftdown_spec pos h₁ pos ((hperm.map key).nodup_iff.2 hnd) hlen (le_refl _) hup
  exact ⟨h₂, by simp [siftup, hrun, hrun'], hperm'.trans hperm, hheap⟩

theorem heappop_spec {x : α} {xs : List α} (hheap : IsHeap key (x :: xs))
    (hnd : ((x :: xs).map key).Nodup) :
    ∃ h', heappop key (x :: xs) = some (x, h') ∧ h'.Perm xs ∧ IsHeap key h' ∧
      ∀ y ∈ xs, key x ≤ key y := by
  have hmin : ∀ y ∈ xs, key x ≤ key y := by
    intro y hy
    obtain ⟨i, hi⟩ := List.mem_iff_getElem?.1 (List.mem_cons_of_mem x hy)
    exact hheap.root_le i hi
  rcases List.eq_nil_or_concat' xs with rfl | ⟨ys, last, rfl⟩
  · exact ⟨[], by simp [heappop], List.Perm.refl _, by intro i a p ha; simp at ha, hmin⟩
  · have hnd' : ((last :: ys).map key).Nodup := by
      have hperm : (ys ++ [last]).Perm (last :: ys) := List.perm_append_singleton last ys
      refine ((hperm.map key).nodup_iff).1 ?_
      exact (List.nodup_cons.1 hnd).2
    have hdown : DownOrder key (last :: ys) 0 := by
      constructor
      · intro i a p hi hpi ha hp
        -- Away from the root the array is the old heap without its last element.
        have hold : ∀ (j : ℕ) {b : α}, j ≠ 0 → (last :: ys)[j]? = some b →
            (x :: (ys ++ [last]))[j]? = some b := by
          intro j b hj hb
          obtain ⟨j', rfl⟩ := Nat.exists_eq_succ_of_ne_zero hj
          have hlen : j' < ys.length := by
            obtain ⟨hj', _⟩ := List.getElem?_eq_some_iff.1 hb
            simpa using hj'
          have hb' : ys[j']? = some b := by simpa using hb
          simpa [List.getElem?_append_left hlen] using hb'
        exact hheap i a p (hold i hi ha) (hold _ hpi hp)
      · intro c a g h0
        exact absurd h0 (lt_irrefl 0)
    obtain ⟨h', hrun, hperm, hheap'⟩ := siftup_spec (by simp) hnd' hdown
    refine ⟨h', by simp [heappop, hrun], ?_, hheap', hmin⟩
    exact hperm.trans (List.perm_append_singleton last ys).symm

end Heapq
end Foundation
