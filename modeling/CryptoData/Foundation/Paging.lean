import Mathlib.Data.List.Basic
import Mathlib.Order.Lattice

/-!
# Paging — reading a sorted list through a cursor

A server keeps a list in the order of a key and answers a request at a cursor with the first
`limit` elements from the cursor on.  A client reads page after page: the next cursor is `advance`
of the last key of the page, a short page is the last one, and the client may give up at a cursor.

The pages are a part of what the list has from the first cursor on (`pages_sublist`).  They are all
of it exactly if the rounds suffice and no page boundary cuts a group of elements short
(`pages_eq_iff`): behind each full page the next element has to stand at or after the new cursor.
Every full page has new elements, so the length of the list bounds the rounds (`pages_add`).

A list that is kept the other way round is read backwards, from the greatest keys down: its pages
are consecutive pieces (`pagesBack_filter`).
-/

namespace Foundation

variable {α κ : Type*} [LinearOrder κ]

/-! ## The loop -/

/-- What a list has from the cursor on. -/
def fromCursor (key : α → κ) (xs : List α) (cursor : κ) : List α :=
  xs.filter fun x => decide (cursor ≤ key x)

def pages (key : α → κ) (advance : κ → κ) (going : κ → Bool) (limit : ℕ) (xs : List α) :
    ℕ → κ → List α
  | 0, _ => []
  | rounds + 1, cursor =>
      let rows := (fromCursor key xs cursor).take limit
      match rows.getLast? with
      | none => []
      | some last =>
          if rows.length < limit then rows
          else
            let next := advance (key last)
            rows ++ if going next then pages key advance going limit xs rounds next else []

/-- No boundary between two full pages cuts anything off. -/
def PageSeparated (key : α → κ) (advance : κ → κ) (going : κ → Bool) (limit : ℕ) (xs : List α) :
    Prop :=
  ∀ k x y, xs[(k + 1) * limit - 1]? = some x → xs[(k + 1) * limit]? = some y →
    advance (key x) ≤ key y ∧ going (advance (key x)) = true

section Pages

variable {key : α → κ} {advance : κ → κ} {going : κ → Bool} {limit : ℕ} {xs : List α}

/-! ## One round -/

/-- A short page is all there is. -/
lemma pages_short (rounds : ℕ) {cursor : κ} (hshort : (fromCursor key xs cursor).length < limit) :
    pages key advance going limit xs (rounds + 1) cursor = fromCursor key xs cursor := by
  have htake : (fromCursor key xs cursor).take limit = fromCursor key xs cursor :=
    List.take_of_length_le hshort.le
  simp only [pages, htake, hshort, if_true]
  cases hlast : (fromCursor key xs cursor).getLast? with
  | none => exact (List.getLast?_eq_none_iff.1 hlast).symm
  | some last => rfl

/-- Behind a full page the loop goes on from its last element, or gives up. -/
lemma pages_full (advance : κ → κ) (going : κ → Bool) (hlimit : 0 < limit) (rounds : ℕ) {cursor : κ}
    (hfull : limit ≤ (fromCursor key xs cursor).length) :
    ∃ x, (fromCursor key xs cursor)[limit - 1]? = some x ∧
      pages key advance going limit xs (rounds + 1) cursor =
        (fromCursor key xs cursor).take limit ++
          if going (advance (key x)) then
            pages key advance going limit xs rounds (advance (key x))
          else [] := by
  have hlength : ((fromCursor key xs cursor).take limit).length = limit :=
    List.length_take_of_le hfull
  have hlt : limit - 1 < (fromCursor key xs cursor).length := by omega
  refine ⟨(fromCursor key xs cursor)[limit - 1], List.getElem?_eq_getElem hlt, ?_⟩
  have hlast : ((fromCursor key xs cursor).take limit).getLast? =
      some (fromCursor key xs cursor)[limit - 1] := by
    rw [List.getLast?_eq_getElem?, hlength, List.getElem?_take_of_lt (by omega),
      List.getElem?_eq_getElem hlt]
  simp only [pages, hlast, hlength, lt_irrefl, if_false]

/-- From a later cursor on there is less. -/
lemma fromCursor_fromCursor {c d : κ} (h : c ≤ d) :
    fromCursor key (fromCursor key xs c) d = fromCursor key xs d := by
  unfold fromCursor
  rw [List.filter_filter]
  refine List.filter_congr ?_
  intro x _
  by_cases hx : d ≤ key x
  · simp [hx, le_trans h hx]
  · simp [hx]

lemma fromCursor_sorted (hsorted : xs.Pairwise fun x y => key x ≤ key y) (c : κ) :
    (fromCursor key xs c).Pairwise fun x y => key x ≤ key y :=
  hsorted.sublist List.filter_sublist

/-- From a cursor behind the last key of a page on, there is nothing of the page. -/
lemma fromCursor_drop (hsorted : xs.Pairwise fun x y => key x ≤ key y) {n : ℕ} {x : α}
    (hx : xs[n - 1]? = some x) {c : κ} (hc : key x < c) :
    fromCursor key xs c = fromCursor key (xs.drop n) c := by
  have hnone : fromCursor key (xs.take n) c = [] := by
    refine List.filter_eq_nil_iff.2 ?_
    intro y hy hcy
    rcases List.mem_iff_getElem?.1 hy with ⟨i, hi⟩
    have hin : i < n := by
      by_contra hle
      rw [List.getElem?_take_eq_none (not_lt.1 hle)] at hi
      exact Option.some_ne_none y hi.symm
    rw [List.getElem?_take_of_lt hin] at hi
    rcases List.getElem?_eq_some_iff.1 hi with ⟨hilt, rfl⟩
    rcases List.getElem?_eq_some_iff.1 hx with ⟨hnlt, rfl⟩
    have hle : key xs[i] ≤ key xs[n - 1] := by
      rcases Nat.lt_or_eq_of_le (Nat.le_sub_one_of_lt hin) with hlt | heq
      · exact List.pairwise_iff_getElem.1 hsorted i (n - 1) hilt hnlt hlt
      · simp only [heq, le_refl]
    exact absurd (of_decide_eq_true hcy) (not_le.2 (lt_of_le_of_lt hle hc))
  calc
    fromCursor key xs c = fromCursor key (xs.take n ++ xs.drop n) c := by
      rw [List.take_append_drop]
    _ = fromCursor key (xs.take n) c ++ fromCursor key (xs.drop n) c := List.filter_append _ _
    _ = fromCursor key (xs.drop n) c := by rw [hnone, List.nil_append]

/-- Nothing is cut off if the first element is not. -/
lemma fromCursor_eq_self_iff (hsorted : xs.Pairwise fun x y => key x ≤ key y) (c : κ) :
    fromCursor key xs c = xs ↔ ∀ y, xs[0]? = some y → c ≤ key y := by
  unfold fromCursor
  rw [List.filter_eq_self]
  cases xs with
  | nil => simp
  | cons first rest =>
      have hcons := List.pairwise_cons.1 hsorted
      constructor
      · intro h y hy
        rw [← Option.some.inj hy]
        exact of_decide_eq_true (h first List.mem_cons_self)
      · intro h x hx
        have hfirst := h first rfl
        rcases List.mem_cons.1 hx with rfl | hx
        · exact decide_eq_true hfirst
        · exact decide_eq_true (le_trans hfirst (hcons.1 x hx))

/-! ## All rounds -/

/-- The boundaries of a list are its first one and those of the rest. -/
lemma pageSeparated_iff_drop (hlimit : 0 < limit) {x : α} (hx : xs[limit - 1]? = some x) :
    PageSeparated key advance going limit xs ↔
      (∀ y, xs[limit]? = some y →
        advance (key x) ≤ key y ∧ going (advance (key x)) = true) ∧
        PageSeparated key advance going limit (xs.drop limit) := by
  have hshift : ∀ k, (k + 1 + 1) * limit - 1 = limit + ((k + 1) * limit - 1) := by
    intro k
    have hpos : 0 < (k + 1) * limit := Nat.mul_pos (Nat.succ_pos k) hlimit
    rw [Nat.succ_mul (k + 1) limit]
    omega
  have hshift' : ∀ k, (k + 1 + 1) * limit = limit + (k + 1) * limit := by
    intro k
    rw [Nat.succ_mul (k + 1) limit, Nat.add_comm]
  constructor
  · intro h
    refine ⟨?_, ?_⟩
    · intro y hy
      exact h 0 x y (by simpa using hx) (by simpa using hy)
    · intro k u v hu hv
      rw [List.getElem?_drop] at hu hv
      exact h (k + 1) u v (by rw [hshift]; exact hu) (by rw [hshift']; exact hv)
  · rintro ⟨hfirst, hrest⟩ k u v hu hv
    cases k with
    | zero =>
        rw [Nat.zero_add, Nat.one_mul] at hu hv
        rw [hx] at hu
        rw [← Option.some.inj hu]
        exact hfirst v hv
    | succ k =>
        refine hrest k u v ?_ ?_
        · rw [List.getElem?_drop, ← hshift]
          exact hu
        · rw [List.getElem?_drop, ← hshift']
          exact hv

/-- What fits on one page has no boundary. -/
lemma pageSeparated_of_length_le (h : xs.length ≤ limit) :
    PageSeparated key advance going limit xs := by
  intro k x y _ hy
  have hle : limit ≤ (k + 1) * limit := Nat.le_mul_of_pos_left limit (Nat.succ_pos k)
  rw [List.getElem?_eq_none (le_trans h hle)] at hy
  cases hy

/-- The pages are a part of what there is from the cursor on, in its order. -/
theorem pages_sublist (hsorted : xs.Pairwise fun x y => key x ≤ key y)
    (hadvance : ∀ k, k < advance k) (hlimit : 0 < limit) :
    ∀ (rounds : ℕ) (cursor : κ),
      (pages key advance going limit xs rounds cursor).Sublist (fromCursor key xs cursor) := by
  intro rounds
  induction rounds with
  | zero =>
      intro cursor
      exact List.nil_sublist _
  | succ rounds ih =>
      intro cursor
      by_cases hshort : (fromCursor key xs cursor).length < limit
      · rw [pages_short rounds hshort]
      · rcases pages_full advance going hlimit rounds (not_lt.1 hshort) with ⟨x, hx, hpages⟩
        rw [hpages]
        have hcursor : cursor ≤ key x :=
          of_decide_eq_true (List.mem_filter.1 (List.mem_of_getElem? hx)).2
        have hrest : (fromCursor key xs (advance (key x))).Sublist
            ((fromCursor key xs cursor).drop limit) := by
          rw [← fromCursor_fromCursor (le_trans hcursor (hadvance (key x)).le),
            fromCursor_drop (fromCursor_sorted hsorted cursor) hx (hadvance (key x))]
          exact List.filter_sublist
        have htail : (if going (advance (key x)) then
            pages key advance going limit xs rounds (advance (key x)) else []).Sublist
              ((fromCursor key xs cursor).drop limit) := by
          cases hgoing : going (advance (key x)) with
          | true => exact (ih (advance (key x))).trans hrest
          | false => exact List.nil_sublist _
        have hall := (List.Sublist.refl ((fromCursor key xs cursor).take limit)).append htail
        rw [List.take_append_drop] at hall
        exact hall

/-- Pages that start behind a page are the rest of the list if they are complete and start no later
than its first element. -/
lemma pages_eq_rest_iff (hsorted : xs.Pairwise fun x y => key x ≤ key y)
    (hadvance : ∀ k, k < advance k) (hlimit : 0 < limit) {rest : List α} {next : κ} {rounds : ℕ}
    (hrest : rest.Pairwise fun x y => key x ≤ key y)
    (hnext : fromCursor key xs next = fromCursor key rest next) :
    pages key advance going limit xs rounds next = rest ↔
      pages key advance going limit xs rounds next = fromCursor key xs next ∧
        ∀ y, rest[0]? = some y → next ≤ key y := by
  have hsub : (fromCursor key rest next).Sublist rest := List.filter_sublist
  have hpages : (pages key advance going limit xs rounds next).Sublist (fromCursor key xs next) :=
    pages_sublist hsorted hadvance hlimit rounds next
  rw [hnext] at hpages ⊢
  rw [← fromCursor_eq_self_iff hrest]
  constructor
  · intro h
    rw [h] at hpages ⊢
    have hself := hsub.antisymm hpages
    exact ⟨hself.symm, hself⟩
  · rintro ⟨hall, hself⟩
    exact hall.trans hself

/-- Where the paging goes on, the rest is complete from the next cursor on, if that is no later than
its first element. -/
lemma rest_going_iff {rest : List α} {next : κ} {n : ℕ}
    (hrest : rest.Pairwise fun x y => key x ≤ key y) (hgoing : going next = true) :
    ((fromCursor key rest next).length ≤ n ∧
          PageSeparated key advance going limit (fromCursor key rest next)) ∧
        (∀ y, rest[0]? = some y → next ≤ key y) ↔
      rest.length ≤ n ∧ (∀ y, rest[0]? = some y → next ≤ key y ∧ going next = true) ∧
        PageSeparated key advance going limit rest := by
  constructor
  · intro h
    rcases h with ⟨⟨hlen, hsep⟩, hfirst⟩
    have hself := (fromCursor_eq_self_iff hrest _).2 hfirst
    rw [hself] at hlen hsep
    exact ⟨hlen, fun y hy => ⟨hfirst y hy, hgoing⟩, hsep⟩
  · intro h
    rcases h with ⟨hlen, hfirst, hsep⟩
    have hself := (fromCursor_eq_self_iff hrest _).2 fun y hy => (hfirst y hy).1
    rw [hself]
    exact ⟨⟨hlen, hsep⟩, fun y hy => (hfirst y hy).1⟩

/-- Where the paging stops, there may be no rest. -/
lemma rest_stopped_iff {rest : List α} {next : κ} {n : ℕ} (hgoing : ¬ going next = true) :
    [] = rest ↔
      rest.length ≤ n ∧ (∀ y, rest[0]? = some y → next ≤ key y ∧ going next = true) ∧
        PageSeparated key advance going limit rest := by
  constructor
  · intro hnil
    subst hnil
    refine ⟨Nat.zero_le n, ?_, pageSeparated_of_length_le (Nat.zero_le limit)⟩
    intro y hy
    cases hy
  · intro h
    cases rest with
    | nil => rfl
    | cons y tail => exact absurd (h.2.1 y rfl).2 hgoing

/-- The pages are everything from the cursor on exactly if the rounds suffice and no boundary cuts
anything off. -/
theorem pages_eq_iff (hsorted : xs.Pairwise fun x y => key x ≤ key y)
    (hadvance : ∀ k, k < advance k) (hlimit : 0 < limit) :
    ∀ (rounds : ℕ) (cursor : κ),
      pages key advance going limit xs rounds cursor = fromCursor key xs cursor ↔
        (fromCursor key xs cursor).length ≤ rounds * limit ∧
          PageSeparated key advance going limit (fromCursor key xs cursor) := by
  intro rounds
  induction rounds with
  | zero =>
      intro cursor
      rw [Nat.zero_mul, Nat.le_zero, List.length_eq_zero_iff]
      constructor
      · intro h
        have hnil : fromCursor key xs cursor = [] := h.symm
        refine ⟨hnil, pageSeparated_of_length_le ?_⟩
        rw [hnil]
        exact Nat.zero_le limit
      · rintro ⟨hnil, _⟩
        exact hnil.symm
  | succ rounds ih =>
      intro cursor
      by_cases hshort : (fromCursor key xs cursor).length < limit
      · have hle : limit ≤ (rounds + 1) * limit := Nat.le_mul_of_pos_left limit (Nat.succ_pos _)
        exact iff_of_true (pages_short rounds hshort)
          ⟨le_trans hshort.le hle, pageSeparated_of_length_le hshort.le⟩
      · rcases pages_full advance going hlimit rounds (not_lt.1 hshort) with ⟨x, hx, hpages⟩
        have hcursor : cursor ≤ key x :=
          of_decide_eq_true (List.mem_filter.1 (List.mem_of_getElem? hx)).2
        let rest := (fromCursor key xs cursor).drop limit
        have hlength : (fromCursor key xs cursor).length ≤ (rounds + 1) * limit ↔
            rest.length ≤ rounds * limit := by
          rw [List.length_drop, Nat.succ_mul]
          omega
        have hnext : fromCursor key xs (advance (key x)) =
            fromCursor key rest (advance (key x)) := by
          rw [← fromCursor_fromCursor (le_trans hcursor (hadvance (key x)).le),
            fromCursor_drop (fromCursor_sorted hsorted cursor) hx (hadvance (key x))]
        have hrest : rest.Pairwise fun x y => key x ≤ key y :=
          (fromCursor_sorted hsorted cursor).sublist (List.drop_sublist _ _)
        have hhead : rest[0]? = (fromCursor key xs cursor)[limit]? := by
          rw [List.getElem?_drop, Nat.add_zero]
        have hsplit : ∀ tail, (fromCursor key xs cursor).take limit ++ tail =
            fromCursor key xs cursor ↔ tail = rest := by
          intro tail
          nth_rewrite 2 [← List.take_append_drop limit (fromCursor key xs cursor)]
          exact List.append_right_inj _
        have htail : pages key advance going limit xs rounds (advance (key x)) = rest ↔ _ :=
          pages_eq_rest_iff hsorted hadvance hlimit hrest hnext
        rw [ih, hnext] at htail
        rw [hpages, hsplit, hlength, pageSeparated_iff_drop hlimit hx, ← hhead]
        by_cases hgoing : going (advance (key x)) = true
        · rw [if_pos hgoing, htail]
          exact rest_going_iff hrest hgoing
        · rw [if_neg hgoing]
          exact rest_stopped_iff hgoing

/-- With as many rounds as full pages, further rounds change nothing. -/
theorem pages_add (hsorted : xs.Pairwise fun x y => key x ≤ key y) (hadvance : ∀ k, k < advance k)
    (hlimit : 0 < limit) (more : ℕ) :
    ∀ (rounds : ℕ) {cursor : κ}, (fromCursor key xs cursor).length ≤ rounds * limit →
      pages key advance going limit xs (rounds + more) cursor =
        pages key advance going limit xs rounds cursor := by
  intro rounds
  induction rounds with
  | zero =>
      intro cursor hlength
      rw [Nat.zero_mul, Nat.le_zero] at hlength
      cases more with
      | zero => rfl
      | succ more =>
          have hnil := List.length_eq_zero_iff.1 hlength
          rw [Nat.zero_add, pages_short more (by rw [hlength]; exact hlimit), hnil]
          rfl
  | succ rounds ih =>
      intro cursor hlength
      have hrounds : rounds + 1 + more = rounds + more + 1 := by omega
      rw [hrounds]
      by_cases hshort : (fromCursor key xs cursor).length < limit
      · rw [pages_short _ hshort, pages_short _ hshort]
      · rcases pages_full advance going hlimit (rounds + more) (not_lt.1 hshort) with
          ⟨x, hx, hpages⟩
        rcases pages_full advance going hlimit rounds (not_lt.1 hshort) with ⟨x', hx', hpages'⟩
        have hxx : x = x' := Option.some.inj (hx.symm.trans hx')
        subst hxx
        have hcursor : cursor ≤ key x :=
          of_decide_eq_true (List.mem_filter.1 (List.mem_of_getElem? hx)).2
        have hrest : (fromCursor key xs (advance (key x))).length ≤ rounds * limit := by
          rw [← fromCursor_fromCursor (le_trans hcursor (hadvance (key x)).le),
            fromCursor_drop (fromCursor_sorted hsorted cursor) hx (hadvance (key x))]
          refine le_trans (List.length_filter_le _ _) ?_
          rw [List.length_drop]
          rw [Nat.succ_mul] at hlength
          omega
        rw [hpages, hpages', ih hrest]

/-- The first element is on the first page. -/
lemma mem_pages_of_head (hlimit : 0 < limit) (rounds : ℕ) {cursor : κ} {x : α}
    (hx : (fromCursor key xs cursor)[0]? = some x) :
    x ∈ pages key advance going limit xs (rounds + 1) cursor := by
  by_cases hshort : (fromCursor key xs cursor).length < limit
  · rw [pages_short rounds hshort]
    exact List.mem_of_getElem? hx
  · rcases pages_full advance going hlimit rounds (not_lt.1 hshort) with ⟨_, _, hpages⟩
    rw [hpages]
    refine List.mem_append_left _ (List.mem_of_getElem? ?_ (i := 0))
    rw [List.getElem?_take_of_lt hlimit, hx]

omit [LinearOrder κ] in
/-- A part of `xs` that has the first element of `xs` holds exactly the elements with `p`, which
form a tail of `xs`, if that tail and the part are all of `xs`. -/
lemma perm_filter_iff {rows : List α} {p : α → Bool} (hsub : rows.Sublist xs)
    (hlater : xs.Pairwise fun x y => p x = true → p y = true)
    (hhead : ∀ x, xs[0]? = some x → x ∈ rows) :
    rows.Perm (xs.filter p) ↔ (∀ x ∈ xs, p x = true) ∧ rows = xs := by
  constructor
  · intro hperm
    have hall : ∀ x ∈ xs, p x = true := by
      cases xs with
      | nil => exact fun x hx => absurd hx List.not_mem_nil
      | cons first rest =>
          have hfirst : p first = true :=
            (List.mem_filter.1 (hperm.mem_iff.1 (hhead first rfl))).2
          intro x hx
          rcases List.mem_cons.1 hx with rfl | hx
          · exact hfirst
          · exact (List.pairwise_cons.1 hlater).1 x hx hfirst
    rw [List.filter_eq_self.2 hall] at hperm
    exact ⟨hall, hsub.eq_of_length hperm.length_eq⟩
  · rintro ⟨hall, rfl⟩
    rw [List.filter_eq_self.2 hall]

end Pages

/-! ## Reading backwards -/

/-- What a list has before the cursor. -/
def beforeCursor (key : α → κ) (xs : List α) (cursor : κ) : List α :=
  xs.filter fun x => decide (key x < cursor)

/-- Pages of a list with the greatest key first, until one reaches down to `floor`. -/
def pagesBack (key : α → κ) (limit : ℕ) (floor : κ) (xs : List α) : ℕ → κ → List α
  | 0, _ => []
  | rounds + 1, cursor =>
      let rows := (beforeCursor key xs cursor).take limit
      match rows.getLast? with
      | none => []
      | some last =>
          rows ++ if key last ≤ floor then [] else pagesBack key limit floor xs rounds (key last)

section Backwards

variable {key : α → κ} {xs : List α} {floor cursor : κ} {limit n : ℕ}

/-- The next page starts where this one ends. -/
lemma beforeCursor_of_take (hsorted : xs.Pairwise fun x y => key y < key x) {last : α}
    (hlast : ((beforeCursor key xs cursor).take n).getLast? = some last) :
    beforeCursor key xs (key last) = (beforeCursor key xs cursor).drop n := by
  have hpairs : ((beforeCursor key xs cursor).take n ++
      (beforeCursor key xs cursor).drop n).Pairwise fun x y => key y < key x := by
    rw [List.take_append_drop]
    exact hsorted.sublist List.filter_sublist
  have hmem : last ∈ (beforeCursor key xs cursor).take n := List.mem_of_getLast? hlast
  have hbefore : key last < cursor :=
    of_decide_eq_true (List.mem_filter.1 (List.mem_of_mem_take hmem)).2
  have hfilter : beforeCursor key xs (key last) =
      (beforeCursor key xs cursor).filter fun x => decide (key x < key last) := by
    unfold beforeCursor
    rw [List.filter_filter]
    refine List.filter_congr ?_
    intro x _
    rw [← Bool.decide_and]
    exact decide_eq_decide.2 ⟨fun hlt => ⟨hlt, hlt.trans hbefore⟩, And.left⟩
  have hpage : ((beforeCursor key xs cursor).take n).filter (fun x => decide (key x < key last)) =
      [] := by
    refine List.filter_eq_nil_iff.2 ?_
    intro x hx
    have hsplit := List.dropLast_append_getLast? last hlast
    have hle : key last ≤ key x := by
      rw [← hsplit] at hx hpairs
      rcases List.mem_append.1 hx with hearlier | hx
      · exact ((List.pairwise_append.1 (List.pairwise_append.1 hpairs).1).2.2 x hearlier last
          (List.mem_singleton_self last)).le
      · rw [List.mem_singleton.1 hx]
    simpa using hle
  have hrest : ((beforeCursor key xs cursor).drop n).filter (fun x => decide (key x < key last)) =
      (beforeCursor key xs cursor).drop n := by
    refine List.filter_eq_self.2 ?_
    intro x hx
    exact decide_eq_true ((List.pairwise_append.1 hpairs).2.2 last hmem x hx)
  calc
    beforeCursor key xs (key last)
        = ((beforeCursor key xs cursor).take n ++ (beforeCursor key xs cursor).drop n).filter
            fun x => decide (key x < key last) := by rw [hfilter, List.take_append_drop]
    _ = (beforeCursor key xs cursor).drop n := by
        rw [List.filter_append, hpage, hrest, List.nil_append]

/-- Down to `floor`, the pages are consecutive pieces of the list. -/
theorem pagesBack_filter (hsorted : xs.Pairwise fun x y => key y < key x) (hlimit : 0 < limit) :
    ∀ (rounds : ℕ) (cursor : κ),
      (pagesBack key limit floor xs rounds cursor).filter (fun x => decide (floor ≤ key x)) =
        ((beforeCursor key xs cursor).take (rounds * limit)).filter
          fun x => decide (floor ≤ key x)
  | 0, cursor => by
      rw [Nat.zero_mul]
      rfl
  | rounds + 1, cursor => by
      have ih := pagesBack_filter hsorted hlimit rounds
      rw [Nat.succ_mul, Nat.add_comm (rounds * limit), List.take_add, List.filter_append, pagesBack]
      cases hlast : ((beforeCursor key xs cursor).take limit).getLast? with
      | none =>
          have hnil : beforeCursor key xs cursor = [] :=
            (List.take_eq_nil_iff.1 (List.getLast?_eq_none_iff.1 hlast)).resolve_left hlimit.ne'
          simp only [hnil, List.take_nil, List.drop_nil, List.filter_nil, List.append_nil]
      | some last =>
          rw [List.filter_append]
          congr 1
          have hnext := beforeCursor_of_take hsorted hlast
          by_cases hstop : key last ≤ floor
          · -- Behind the page everything is below the floor.
            have hnone : (((beforeCursor key xs cursor).drop limit).take
                (rounds * limit)).filter (fun x => decide (floor ≤ key x)) = [] := by
              refine List.filter_eq_nil_iff.2 ?_
              intro x hx hfloor
              rw [← hnext] at hx
              have hlt := of_decide_eq_true (List.mem_filter.1 (List.mem_of_mem_take hx)).2
              exact absurd (of_decide_eq_true hfloor) (not_le.2 (hlt.trans_le hstop))
            rw [if_pos hstop, hnone]
            rfl
          · rw [if_neg hstop, ih, hnext]

/-- The elements from `floor` on come first. -/
lemma filter_take_of_sorted (floor : κ) (n : ℕ) :
    ∀ {xs : List α}, (xs.Pairwise fun x y => key y < key x) →
      (xs.take n).filter (fun x => decide (floor ≤ key x)) =
        (xs.filter fun x => decide (floor ≤ key x)).take n
  | [], _ => by rw [List.take_nil, List.filter_nil, List.take_nil]
  | x :: xs, hsorted => by
      have hcons := List.pairwise_cons.1 hsorted
      by_cases hx : floor ≤ key x
      · cases n with
        | zero => rfl
        | succ n =>
            simp only [List.take_succ_cons, List.filter_cons, hx, decide_true, if_true]
            rw [filter_take_of_sorted floor n hcons.2]
      · have hnone : ∀ ys : List α, (∀ y ∈ ys, y ∈ x :: xs) →
            ys.filter (fun x => decide (floor ≤ key x)) = [] := by
          intro ys hys
          refine List.filter_eq_nil_iff.2 ?_
          intro y hy hfloor
          have hle : key y ≤ key x := by
            rcases List.mem_cons.1 (hys y hy) with rfl | hy
            · exact le_rfl
            · exact (hcons.1 y hy).le
          exact hx ((of_decide_eq_true hfloor).trans hle)
        rw [hnone _ fun y hy => List.mem_of_mem_take hy, hnone _ fun y hy => hy, List.take_nil]

end Backwards

end Foundation
