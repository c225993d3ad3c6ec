import CryptoData.Core.Trade
import CryptoData.Foundation.Dict
import CryptoData.Foundation.Heapq
import CryptoData.Foundation.KWayMerge
import Mathlib.Algebra.GroupWithZero.Nat
import Mathlib.Data.Prod.Lex

/-!
# Merge — the k-way merge of the per-venue trade streams

`mergeTrades` keeps one heap entry `(key, index, trade)` for each iterator that is not exhausted,
pops the least, and pushes the next trade of the same iterator.  Entries are compared as tuples:
by `(ts_ns, recv_ns, venue)`, then by list index; an entry with the same key and index would send
the comparison on to the trade dictionaries, which cannot be ordered.  `none` is that error.

The invariant `MergeState.Good` keeps at most one entry per index in the heap, so the error is
unreachable, and `mergeLoop_merges` shows that the loop computes a merge in the sense of
`Foundation.Merges` of the streams still live, with ties between lists decided by their index.
-/

namespace CryptoData

open Foundation

/-! ## The algorithm -/

/-- `(ts_ns, recv_ns, venue)`, ordered lexicographically. -/
abbrev MergeKey := Int ×ₗ (Int ×ₗ String)

/-- The `_key` of `merge_trades`. -/
def mergeKey (t : Trade) : MergeKey :=
  toLex (t.tsNs, toLex (t.recv, t.venueName))

/-- A heap tuple. -/
structure HeapEntry where
  key : MergeKey
  index : ℕ
  trade : Trade

/-- What a tuple comparison looks at before it reaches the trade. -/
def HeapEntry.rank (e : HeapEntry) : MergeKey ×ₗ ℕ :=
  toLex (e.key, e.index)

/-- The heap, and what is left of each iterator. -/
structure MergeState where
  heap : List HeapEntry
  iterators : List (List Trade)

/-- `nxt = next(iterators[i], None); if nxt is not None: heappush(heap, (_key(nxt), i, nxt))`. -/
def pushNext (s : MergeState) (i : ℕ) : Option MergeState :=
  match s.iterators[i]? with
  | some (t :: rest) => do
      let heap ← Heapq.heappush HeapEntry.rank s.heap ⟨mergeKey t, i, t⟩
      some ⟨heap, s.iterators.set i rest⟩
  | _ => some s

/-- The loop that primes the heap with the first trade of each list. -/
def mergeInit (lists : List (List Trade)) : Option MergeState :=
  (List.range lists.length).foldlM pushNext ⟨[], lists⟩

/-- `while heap: ...`.  Each round pops one trade, so the number of trades bounds the rounds. -/
def mergeLoop : ℕ → MergeState → Option (List Trade)
  -- Out of rounds; `mergeLoop_merges` shows that this is never reached.
  | 0, s => if s.heap.isEmpty then some [] else none
  | fuel + 1, s =>
      if s.heap.isEmpty then
        some []
      else do
        let (e, heap) ← Heapq.heappop HeapEntry.rank s.heap
        -- The iterator of the popped trade delivers the next head.
        let s' ← pushNext ⟨heap, s.iterators⟩ e.index
        let out ← mergeLoop fuel s'
        some (e.trade :: out)

def mergeLists (lists : List (List Trade)) : Option (List Trade) := do
  let s ← mergeInit lists
  mergeLoop (lists.map List.length).sum s

def mergeTrades (perVenue : Dict String (List Trade)) : Option (List Trade) :=
  mergeLists perVenue.values

/-! ## The heap invariant -/

namespace MergeState

/-- At most one entry per list, each carrying the key of its own trade, in heap order. -/
structure Good (s : MergeState) : Prop where
  keyed : ∀ e ∈ s.heap, e.key = mergeKey e.trade
  inRange : ∀ e ∈ s.heap, e.index < s.iterators.length
  distinct : (s.heap.map HeapEntry.index).Nodup
  ordered : Heapq.IsHeap HeapEntry.rank s.heap

/-- A trade, with the index of the list that delivers it. -/
abbrev Slot := ℕ × Trade

/-- What decides between two heads. -/
def slotKey (x : Slot) : MergeKey ×ₗ ℕ :=
  toLex (mergeKey x.2, x.1)

/-- What list `i` delivers. -/
def slots (i : ℕ) (rows : List Trade) : List Slot :=
  rows.map (Prod.mk i)

/-- The stream an entry heads: its trade, then the rest of its iterator. -/
def stream (iterators : List (List Trade)) (e : HeapEntry) : List Slot :=
  (e.index, e.trade) :: slots e.index (iterators.getD e.index [])

/-- The streams that still have trades to deliver. -/
def live (s : MergeState) : Multiset (List Slot) :=
  (s.heap.map (stream s.iterators) : Multiset (List Slot))

/-- The number of trades the streams have to deliver. -/
def pending (S : Multiset (List Slot)) : ℕ :=
  (S.map List.length).sum

@[simp] lemma pending_cons (l : List Slot) (S : Multiset (List Slot)) :
    pending (l ::ₘ S) = l.length + pending S := by
  simp [pending]

lemma rank_nodup {es : List HeapEntry} (h : (es.map HeapEntry.index).Nodup) :
    (es.map HeapEntry.rank).Nodup := by
  refine List.Nodup.of_map (fun r : MergeKey ×ₗ ℕ => (ofLex r).2) ?_
  simpa [List.map_map, Function.comp_def, HeapEntry.rank] using h

lemma stream_set_of_ne {iterators : List (List Trade)} {e : HeapEntry} {i : ℕ} {rest : List Trade}
    (h : e.index ≠ i) : stream (iterators.set i rest) e = stream iterators e := by
  simp [stream, List.getD_eq_getElem?_getD, List.getElem?_set_ne (Ne.symm h)]

/-- The effect of `pushNext` on a list that has no entry in the heap. -/
theorem Good.pushNext {s : MergeState} (hs : s.Good) {i : ℕ} (hi : i < s.iterators.length)
    (hfree : ∀ e ∈ s.heap, e.index ≠ i) :
    ∃ s', CryptoData.pushNext s i = some s' ∧ s'.Good ∧
      s'.iterators.length = s.iterators.length ∧
      (∀ j, j ≠ i → s'.iterators[j]? = s.iterators[j]?) ∧
      (∀ e ∈ s'.heap, e ∈ s.heap ∨ e.index = i) ∧
      ((s.iterators.getD i [] = [] ∧ s'.live = s.live) ∨
        s'.live = slots i (s.iterators.getD i []) ::ₘ s.live) := by
  have hget := List.getElem?_eq_getElem hi
  cases hl : s.iterators[i] with
  | nil =>
      have hnil : s.iterators[i]? = some [] := by simp [hget, hl]
      refine ⟨s, by simp [CryptoData.pushNext, hnil], hs, rfl, fun _ _ => rfl, ?_, ?_⟩
      · intro e he
        exact Or.inl he
      · exact Or.inl ⟨by simp [List.getD_eq_getElem?_getD, hnil], rfl⟩
  | cons t rest =>
      have hcons : s.iterators[i]? = some (t :: rest) := by simp [hget, hl]
      let e₀ : HeapEntry := ⟨mergeKey t, i, t⟩
      -- No entry of list `i` is in the heap, so the new rank is a new one.
      have hdistinct : ((e₀ :: s.heap).map HeapEntry.index).Nodup := by
        refine List.nodup_cons.2 ⟨?_, hs.distinct⟩
        intro hmem
        obtain ⟨e, he, hidx⟩ := List.mem_map.1 hmem
        exact hfree e he hidx
      obtain ⟨heap, hrun, hperm, hheap⟩ :=
        Heapq.heappush_spec hs.ordered (rank_nodup hdistinct)
      have hmem : ∀ e, e ∈ heap ↔ e = e₀ ∨ e ∈ s.heap := fun e => by simp [hperm.mem_iff]
      refine ⟨⟨heap, s.iterators.set i rest⟩, ?_, ⟨?_, ?_, ?_, hheap⟩, by simp, ?_, ?_, ?_⟩
      · simp [CryptoData.pushNext, hcons, e₀, hrun]
      · intro e he
        rcases (hmem e).1 he with rfl | he
        · rfl
        · exact hs.keyed e he
      · intro e he
        rcases (hmem e).1 he with rfl | he
        · simpa [e₀] using hi
        · simpa using hs.inRange e he
      · exact ((hperm.map HeapEntry.index).nodup_iff).2 hdistinct
      · intro j hj
        exact List.getElem?_set_ne (Ne.symm hj)
      · intro e he
        rcases (hmem e).1 he with rfl | he
        · exact Or.inr rfl
        · exact Or.inl he
      · refine Or.inr ?_
        have hhead : s.iterators.getD i [] = t :: rest := by
          simp [List.getD_eq_getElem?_getD, hcons]
        have hothers : s.heap.map (stream (s.iterators.set i rest)) =
            s.heap.map (stream s.iterators) :=
          List.map_congr_left fun e he => stream_set_of_ne (hfree e he)
        have hnew : stream (s.iterators.set i rest) e₀ = slots i (t :: rest) := by
          simp [stream, slots, e₀, List.getD_eq_getElem?_getD, hi]
        have hlive := Multiset.coe_eq_coe.2 (hperm.map (stream (s.iterators.set i rest)))
        rw [hhead]
        simpa [live, hothers, hnew] using hlive

/-- Popping takes the entry of a least head; the remaining entries are again a good heap. -/
theorem Good.pop {e : HeapEntry} {es : List HeapEntry} {iterators : List (List Trade)}
    (hs : (MergeState.mk (e :: es) iterators).Good) :
    ∃ heap, Heapq.heappop HeapEntry.rank (e :: es) = some (e, heap) ∧
      (MergeState.mk heap iterators).Good ∧ (∀ e' ∈ heap, e'.index ≠ e.index) ∧
      (MergeState.mk (e :: es) iterators).live =
        stream iterators e ::ₘ (MergeState.mk heap iterators).live ∧
      ∀ y ys, y :: ys ∈ (MergeState.mk heap iterators).live →
        slotKey (e.index, e.trade) ≤ slotKey y := by
  obtain ⟨heap, hpop, hperm, hheap, hmin⟩ := Heapq.heappop_spec hs.ordered (rank_nodup hs.distinct)
  have hmem : ∀ e' ∈ heap, e' ∈ e :: es := fun e' he' =>
    List.mem_cons_of_mem e (hperm.mem_iff.1 he')
  have hdistinct := List.nodup_cons.1 hs.distinct
  refine ⟨heap, hpop, ⟨?_, ?_, ?_, hheap⟩, ?_, ?_, ?_⟩
  · intro e' he'
    exact hs.keyed e' (hmem e' he')
  · intro e' he'
    exact hs.inRange e' (hmem e' he')
  · exact ((hperm.map HeapEntry.index).nodup_iff).2 hdistinct.2
  · intro e' he' hidx
    exact hdistinct.1 (List.mem_map.2 ⟨e', hperm.mem_iff.1 he', hidx⟩)
  · have hcoe := Multiset.coe_eq_coe.2 (hperm.map (stream iterators))
    simp [live, hcoe]
  · intro y ys hy
    obtain ⟨e', he', hstream⟩ := List.mem_map.1 (show y :: ys ∈ heap.map (stream iterators) from hy)
    have hy' : (e'.index, e'.trade) = y := (List.cons.inj hstream).1
    -- The keys of the entries are those of their trades.
    have hrank : e.rank ≤ e'.rank := hmin e' (hperm.mem_iff.1 he')
    rw [HeapEntry.rank, HeapEntry.rank, hs.keyed e List.mem_cons_self,
      hs.keyed e' (hmem e' he')] at hrank
    rw [← hy']
    exact hrank

end MergeState

/-! ## The loop computes a merge -/

/-- A good state delivers a merge of its live streams, in as many rounds as there are trades. -/
theorem mergeLoop_merges :
    ∀ (fuel : ℕ) (s : MergeState), s.Good → MergeState.pending s.live ≤ fuel →
      ∃ out, mergeLoop fuel s = some (out.map Prod.snd) ∧
        Merges MergeState.slotKey s.live out := by
  -- Each round delivers one pending trade; `Good` is the loop invariant.
  intro fuel
  induction fuel with
  | zero =>
      intro s _ hfuel
      rcases s with ⟨heap, iterators⟩
      cases heap with
      | nil => exact ⟨[], rfl, Merges.done (by simp [MergeState.live])⟩
      | cons e es =>
          -- A nonempty heap still has a trade to deliver.
          simp [MergeState.pending, MergeState.live, MergeState.stream] at hfuel
  | succ fuel ih =>
      intro s hs hfuel
      rcases s with ⟨heap, iterators⟩
      cases heap with
      | nil => exact ⟨[], rfl, Merges.done (by simp [MergeState.live])⟩
      | cons e es =>
          obtain ⟨heap', hpop, hgood, hfree, hlive, hmin⟩ := hs.pop
          obtain ⟨s', hpush, hgood', _, _, _, hnext⟩ :=
            hgood.pushNext (hs.inRange e List.mem_cons_self) hfree
          have hstream : MergeState.stream iterators e =
              (e.index, e.trade) :: MergeState.slots e.index (iterators.getD e.index []) := rfl
          -- What the push leaves live is the popped stream without its head, if that is not empty.
          have hrest : MergeState.pending s'.live ≤ fuel ∧
              ∀ out, Merges MergeState.slotKey s'.live out → Merges MergeState.slotKey
                (MergeState.slots e.index (iterators.getD e.index []) ::ₘ
                  MergeState.live ⟨heap', iterators⟩) out := by
            rw [hlive, hstream, MergeState.pending_cons, List.length_cons] at hfuel
            rcases hnext with ⟨hnil, heq⟩ | heq
            · have hnil' : iterators.getD e.index [] = [] := hnil
              refine ⟨by rw [heq]; omega, ?_⟩
              intro out hout
              rw [heq] at hout
              rw [hnil']
              exact hout.cons_nil
            · have heq' : s'.live = MergeState.slots e.index (iterators.getD e.index []) ::ₘ
                  MergeState.live ⟨heap', iterators⟩ := heq
              refine ⟨by rw [heq', MergeState.pending_cons]; omega, ?_⟩
              intro out hout
              rw [heq'] at hout
              exact hout
          obtain ⟨out, hrun, hout⟩ := ih s' hgood' hrest.1
          refine ⟨(e.index, e.trade) :: out, by simp [mergeLoop, hpop, hpush, hrun], ?_⟩
          rw [hlive, hstream]
          exact Merges.pick hmin (hrest.2 out hout)

/-! ## Priming the heap -/

/-- What the lists deliver, each under its index. -/
def slotLists (lists : List (List Trade)) : List (List MergeState.Slot) :=
  (List.range lists.length).map fun i => MergeState.slots i (lists.getD i [])

/-- After the first `k` lists the live streams are those lists, less the empty ones. -/
theorem mergeInit_prefix (lists : List (List Trade)) :
    ∀ k : ℕ, k ≤ lists.length →
      ∃ s, (List.range k).foldlM pushNext ⟨[], lists⟩ = some s ∧ s.Good ∧
        s.iterators.length = lists.length ∧ (∀ j, k ≤ j → s.iterators[j]? = lists[j]?) ∧
        (∀ e ∈ s.heap, e.index < k) ∧
        ∃ m, s.live + Multiset.replicate m [] =
          (((List.range k).map fun i => MergeState.slots i (lists.getD i []) :
            List (List MergeState.Slot)) : Multiset (List MergeState.Slot)) := by
  intro k
  induction k with
  | zero =>
      intro _
      refine ⟨⟨[], lists⟩, rfl, ⟨?_, ?_, ?_, ?_⟩, rfl, fun _ _ => rfl, ?_, 0, rfl⟩
      · simp
      · simp
      · simp
      · intro i a p ha
        simp at ha
      · simp
  | succ k ih =>
      intro hk
      obtain ⟨s, hrun, hgood, hlen, hlater, hidx, m, hlive⟩ := ih (by omega)
      have hk' : k < lists.length := hk
      have hki : k < s.iterators.length := by simpa [hlen] using hk'
      obtain ⟨s', hpush, hgood', hlen', hother, hmem, hnext⟩ :=
        hgood.pushNext hki fun e he => (hidx e he).ne
      have hget : s.iterators.getD k [] = lists.getD k [] := by
        simp [List.getD_eq_getElem?_getD, hlater k (le_refl k)]
      -- List `k` joins the live streams, or is empty and joins the padding.
      have hrange : (((List.range (k + 1)).map fun i => MergeState.slots i (lists.getD i []) :
          List (List MergeState.Slot)) : Multiset (List MergeState.Slot)) =
            MergeState.slots k (lists.getD k []) ::ₘ
              (((List.range k).map fun i => MergeState.slots i (lists.getD i []) :
                List (List MergeState.Slot)) : Multiset (List MergeState.Slot)) := by
        rw [List.range_succ, List.map_append]
        exact Multiset.coe_eq_coe.2 (List.perm_append_singleton _ _)
      refine ⟨s', ?_, hgood', by omega, ?_, ?_, ?_⟩
      · simp [List.range_succ, List.foldlM_append, hrun, hpush]
      · intro j hj
        simpa [hother j (by omega)] using hlater j (by omega)
      · intro e he
        rcases hmem e he with he | he
        · exact lt_trans (hidx e he) (Nat.lt_succ_self k)
        · omega
      · rcases hnext with ⟨hnil, heq⟩ | heq
        · refine ⟨m + 1, ?_⟩
          rw [hrange, ← hlive, heq, ← hget, hnil, Multiset.replicate_succ, Multiset.add_cons]
          rfl
        · refine ⟨m, ?_⟩
          rw [hrange, ← hlive, heq, hget, Multiset.cons_add]

/-- `merge_trades` always returns, and what it returns is a merge of the input lists in which a tie
between two lists goes to the one with the smaller index. -/
theorem mergeLists_slots (lists : List (List Trade)) :
    ∃ out, mergeLists lists = some (out.map Prod.snd) ∧
      Merges MergeState.slotKey (slotLists lists : Multiset (List MergeState.Slot)) out := by
  obtain ⟨s, hrun, hgood, _, _, _, m, hlive⟩ := mergeInit_prefix lists lists.length (le_refl _)
  have hlive' : s.live + Multiset.replicate m [] =
      (slotLists lists : Multiset (List MergeState.Slot)) := hlive
  have hlengths : (slotLists lists).map List.length = lists.map List.length := by
    refine List.ext_getElem (by simp [slotLists]) ?_
    intro i hi hi'
    have hin : i < lists.length := by simpa using hi'
    simp [slotLists, MergeState.slots, List.getD_eq_getElem?_getD, List.getElem?_eq_getElem hin]
  have hpending : MergeState.pending s.live = (lists.map List.length).sum := by
    have hcount := congrArg MergeState.pending hlive'
    rw [← hlengths]
    simpa [MergeState.pending] using hcount
  obtain ⟨out, hout, hmerge⟩ :=
    mergeLoop_merges (lists.map List.length).sum s hgood (le_of_eq hpending)
  refine ⟨out, by simp [mergeLists, mergeInit, hrun, hout], ?_⟩
  rw [← hlive']
  exact hmerge.add_replicate_nil m

lemma map_slotLists (lists : List (List Trade)) :
    (slotLists lists).map (List.map Prod.snd) = lists := by
  refine List.ext_getElem (by simp [slotLists]) ?_
  intro i _ hi
  simp [slotLists, MergeState.slots, List.getD_eq_getElem?_getD, List.getElem?_eq_getElem hi,
    Function.comp_def]

/-- What the merge returns is a merge of the input lists. -/
theorem mergeLists_merges (lists : List (List Trade)) :
    ∃ out, mergeLists lists = some out ∧
      Merges mergeKey (lists : Multiset (List Trade)) out := by
  rcases mergeLists_slots lists with ⟨out, hrun, hmerge⟩
  refine ⟨out.map Prod.snd, hrun, ?_⟩
  have hmap : Merges mergeKey (Multiset.map (List.map Prod.snd) ↑(slotLists lists))
      (out.map Prod.snd) :=
    hmerge.map fun x y hxy => Prod.Lex.monotone_fst _ _ hxy
  rw [Multiset.map_coe, map_slotLists] at hmap
  exact hmap

/-! ## What the merge delivers -/

lemma tsNs_le_of_mergeKey_le (x y : Trade) (h : mergeKey x ≤ mergeKey y) : x.tsNs ≤ y.tsNs :=
  Prod.Lex.monotone_fst _ _ h

/-- The merge returns without comparing two trades, holds every input trade exactly once, keeps
the order of each list, and is sorted by exchange time whenever every list is. -/
theorem mergeTrades_exact (perVenue : Dict String (List Trade)) :
    ∃ out, mergeTrades perVenue = some out ∧
      out.Perm perVenue.values.flatten ∧
      (∀ rows ∈ perVenue.values, rows.Sublist out) ∧
      ((∀ rows ∈ perVenue.values, rows.Pairwise fun x y => x.tsNs ≤ y.tsNs) →
        out.Pairwise fun x y => x.tsNs ≤ y.tsNs) := by
  obtain ⟨out, hrun, hmerge⟩ := mergeLists_merges perVenue.values
  refine ⟨out, hrun, hmerge.perm_flatten, ?_, ?_⟩
  · intro rows hrows
    exact hmerge.sublist rows (by simpa using hrows)
  · intro hsorted
    refine hmerge.sorted tsNs_le_of_mergeKey_le ?_
    intro rows hrows
    exact hsorted rows (by simpa using hrows)

theorem mergeTrades_exact_tie :
    ∃ out, mergeTrades ⟨[("okx", [{ tsNs := 5, venue := some "okx", price := 100 }]),
        ("kraken", []), ("gemini", [{ tsNs := 5, venue := some "okx", price := 101 }])],
        by decide⟩ = some out ∧
      out.Pairwise fun x y => x.tsNs ≤ y.tsNs := by
  rcases mergeTrades_exact ⟨[("okx", [{ tsNs := 5, venue := some "okx", price := 100 }]),
    ("kraken", []), ("gemini", [{ tsNs := 5, venue := some "okx", price := 101 }])], by decide⟩
    with ⟨out, hrun, _, _, hsorted⟩
  exact ⟨out, hrun, hsorted (by decide)⟩

/-! ## Ties -/

/-- What the merge key adds to the exchange time: `(recv_ns, venue)`. -/
def tieKey (t : Trade) : Int ×ₗ String :=
  toLex (t.recv, t.venueName)

lemma mergeKey_le_iff (x y : Trade) :
    mergeKey x ≤ mergeKey y ↔ x.tsNs < y.tsNs ∨ x.tsNs = y.tsNs ∧ tieKey x ≤ tieKey y :=
  Prod.Lex.le_iff

/-- Equal exchange times stand in the order of `(recv_ns, venue)`. -/
def TiesOrdered (rows : List Trade) : Prop :=
  rows.Pairwise fun x y => x.tsNs = y.tsNs → tieKey x ≤ tieKey y

instance (rows : List Trade) : Decidable (TiesOrdered rows) :=
  inferInstanceAs (Decidable (rows.Pairwise _))

/-- A list is in the order of the merge key when it is sorted by time and its ties are ordered. -/
lemma pairwise_mergeKey_iff {rows : List Trade}
    (hsorted : rows.Pairwise fun x y => x.tsNs ≤ y.tsNs) :
    (rows.Pairwise fun x y => mergeKey x ≤ mergeKey y) ↔ TiesOrdered rows := by
  constructor
  · intro h
    refine h.imp ?_
    intro x y hkey heq
    rcases (mergeKey_le_iff x y).1 hkey with hlt | ⟨_, htie⟩
    · exact absurd heq hlt.ne
    · exact htie
  · intro h
    refine (hsorted.and h).imp ?_
    rintro x y ⟨hle, htie⟩
    rcases lt_or_eq_of_le hle with hlt | heq
    · exact (mergeKey_le_iff x y).2 (Or.inl hlt)
    · exact (mergeKey_le_iff x y).2 (Or.inr ⟨heq, htie heq⟩)

/-- The merge of lists sorted by exchange time is in the order of `(ts_ns, recv_ns, venue)` exactly
when every list has its own ties in that order already: within a list the merge moves nothing. -/
theorem merge_tie_order_iff (perVenue : Dict String (List Trade))
    (hsorted : ∀ rows ∈ perVenue.values, rows.Pairwise fun x y => x.tsNs ≤ y.tsNs) :
    ∃ out, mergeTrades perVenue = some out ∧
      ((out.Pairwise fun x y => mergeKey x ≤ mergeKey y) ↔
        ∀ rows ∈ perVenue.values, TiesOrdered rows) := by
  rcases mergeLists_merges perVenue.values with ⟨out, hrun, hmerge⟩
  refine ⟨out, hrun, ?_⟩
  constructor
  · intro hout rows hrows
    have hsublist : rows.Sublist out := hmerge.sublist rows (by simpa using hrows)
    exact (pairwise_mergeKey_iff (hsorted rows hrows)).1 (hout.sublist hsublist)
  · intro hties
    refine hmerge.sorted (fun x y h => h) ?_
    intro rows hrows
    have hrows' : rows ∈ perVenue.values := by simpa using hrows
    exact (pairwise_mergeKey_iff (hsorted rows hrows')).2 (hties rows hrows')

/-- A tie between two venues is ordered by the receive time. -/
theorem merge_tie_order_two_venues :
    ∃ out, mergeTrades ⟨[("okx", [{ tsNs := 5, recvNs := some 9, venue := some "okx", price := 1 }]),
        ("kraken", [{ tsNs := 5, recvNs := some 7, venue := some "kraken", price := 2 }])],
        by decide⟩ = some out ∧ out.Pairwise fun x y => mergeKey x ≤ mergeKey y := by
  rcases merge_tie_order_iff
    ⟨[("okx", [{ tsNs := 5, recvNs := some 9, venue := some "okx", price := 1 }]),
      ("kraken", [{ tsNs := 5, recvNs := some 7, venue := some "kraken", price := 2 }])], by decide⟩
    (by decide) with ⟨out, hrun, hiff⟩
  exact ⟨out, hrun, hiff.2 (by decide)⟩

/-- Two prints of one venue with one exchange time, stored in the order opposite to their receipt:
the merge leaves them so. -/
theorem merge_keeps_late_print_first :
    let late : Trade := { tsNs := 5, recvNs := some 9, venue := some "okx", price := 100 }
    let early : Trade := { tsNs := 5, recvNs := some 7, venue := some "okx", price := 101 }
    (∀ rows ∈ [[late, early]], rows.Pairwise fun x y => x.tsNs ≤ y.tsNs) ∧
      mergeTrades ⟨[("okx", [late, early])], by decide⟩ = some [late, early] ∧
        ¬ [late, early].Pairwise fun x y => mergeKey x ≤ mergeKey y := by
  refine ⟨by decide, by decide +kernel, by decide +kernel⟩

section Delivered

variable {perVenue : Dict String (List Trade)} {out : List Trade}

lemma exists_mergeTrades (perVenue : Dict String (List Trade)) :
    ∃ out, mergeTrades perVenue = some out := by
  rcases mergeLists_merges perVenue.values with ⟨out, hrun, _⟩
  exact ⟨out, hrun⟩

/-- What comes out of a run is a merge of the lists. -/
theorem merges_of_mergeTrades (hrun : mergeTrades perVenue = some out) :
    Merges mergeKey (perVenue.values : Multiset (List Trade)) out := by
  rcases mergeLists_merges perVenue.values with ⟨out', hrun', hmerge⟩
  have hout : out' = out := Option.some.inj (hrun'.symm.trans hrun)
  rw [← hout]
  exact hmerge

lemma mem_mergeTrades_iff (hrun : mergeTrades perVenue = some out) {t : Trade} :
    t ∈ out ↔ ∃ e ∈ perVenue.entries, t ∈ e.2 := by
  rw [(merges_of_mergeTrades hrun).perm_flatten.mem_iff, List.mem_flatten]
  constructor
  · rintro ⟨rows, hrows, ht⟩
    rcases List.mem_map.1 hrows with ⟨e, he, rfl⟩
    exact ⟨e, he, ht⟩
  · rintro ⟨e, he, ht⟩
    exact ⟨e.2, List.mem_map.2 ⟨e, he, rfl⟩, ht⟩

/-- If every list carries its own key as venue, the list of a venue is what the stream holds of
that venue. -/
theorem filter_venueName_mergeTrades (hrun : mergeTrades perVenue = some out)
    (hvenue : ∀ e ∈ perVenue.entries, ∀ t ∈ e.2, t.venueName = e.1) {e : String × List Trade}
    (he : e ∈ perVenue.entries) :
    (out.filter fun t => decide (t.venueName = e.1)) = e.2 := by
  have hmerge := merges_of_mergeTrades hrun
  have hown : (e.2.filter fun t => decide (t.venueName = e.1)) = e.2 :=
    List.filter_eq_self.2 fun t ht => by simpa using hvenue e he t ht
  -- The venue's list is a sublist of what the stream holds of it, and as long.
  have hlen := (hmerge.perm_flatten.filter fun t => decide (t.venueName = e.1)).length_eq
  rw [Dict.filter_flatten_values he hvenue] at hlen
  have hsublist := (hmerge.sublist e.2 (List.mem_map.2 ⟨e, he, rfl⟩)).filter
    fun t => decide (t.venueName = e.1)
  rw [hown] at hsublist
  exact (hsublist.eq_of_length hlen.symm).symm

end Delivered

end CryptoData
