import CryptoData.Core.SymbolIndex
import CryptoData.Foundation.LevelBook
import CryptoData.Foundation.Sessions
import Mathlib.Algebra.Order.Ring.Rat

/-!
# CoinbaseBook — the order books of the Coinbase adapter

`streamBook` keeps one book for each product, applies the updates of every `l2_data` event to it
and yields the first `depth` levels of each side, at most once in five seconds.  The books are made
once and live through reconnects, after which the venue starts with a full book again.

A yielded snapshot is that of the venue's book exactly if each level that only an earlier
connection has set has `depth` levels of the venue's book ahead of it
(`book_snapshots_exact_iff`).
-/

namespace CryptoData

open Foundation

/-- What an adapter yields of an order book; `ingested_at_ns` is the clock. -/
structure BookSnapshot where
  tsNs : Int
  recvNs : Int
  symbol : String
  venue : String
  depth : ℕ
  bids : List (ℚ × ℚ)
  asks : List (ℚ × ℚ)
  deriving DecidableEq, Repr

namespace Coinbase

/-! ## The adapter -/

inductive BookSide
  | bid
  | offer
  deriving DecidableEq, Repr

/-- An update: `side`, `price_level` and `new_quantity`. -/
structure LevelUpdate where
  side : BookSide
  price : ℚ
  qty : ℚ

structure BookEvent where
  productId : String
  updates : List LevelUpdate

/-- A frame of the socket; `channel` is `none` where it is no JSON or names no channel. -/
structure BookFrame where
  channel : Option String
  recvNs : Int
  events : List BookEvent

/-- `books[pid]`. -/
structure Book where
  bid : Dict ℚ ℚ
  offer : Dict ℚ ℚ

structure BookState where
  books : Dict String Book
  lastEmitNs : Dict String Int

/-- `EMIT_INTERVAL_NS`. -/
def emitIntervalNs : Int := 5000000000

def applyUpdate (book : Book) (u : LevelUpdate) : Book :=
  match u.side with
  | .bid => { book with bid := setLevel book.bid (u.price, u.qty) }
  | .offer => { book with offer := setLevel book.offer (u.price, u.qty) }

/-- `sorted(books[pid]["bid"].items(), reverse=True)[:depth]`; no two levels have one price. -/
def topBids (depth : ℕ) (book : Book) : List (ℚ × ℚ) :=
  top (· ≥ ·) depth book.bid

/-- `sorted(books[pid]["offer"].items())[:depth]`. -/
def topAsks (depth : ℕ) (book : Book) : List (ℚ × ℚ) :=
  top (· ≤ ·) depth book.offer

/-- The books and clock readings before the first connection. -/
def initialState (productIds : List String) : BookState where
  books := productIds.foldl (fun books p => books.set p ⟨Dict.empty, Dict.empty⟩) Dict.empty
  lastEmitNs := productIds.foldl (fun last p => last.set p 0) Dict.empty

section Stream

variable (upper : String → String) (reverse : Dict (String × String) String) (depth : ℕ)

/-- The body of the loop over the events of a message. -/
def onEvent (s : BookState) (e : Int × BookEvent) : BookState × List BookSnapshot :=
  let (recvNs, ev) := e
  match s.books.get? ev.productId with
  -- `if pid not in books: continue`
  | none => (s, [])
  | some old =>
      let book := ev.updates.foldl applyUpdate old
      let s := { s with books := s.books.set ev.productId book }
      if recvNs - s.lastEmitNs.getD ev.productId 0 < emitIntervalNs then (s, [])
      else
        -- Set before the symbol is looked up.
        let s := { s with lastEmitNs := s.lastEmitNs.set ev.productId recvNs }
        match toCanonical upper reverse ev.productId "coinbase" with
        | none => (s, [])
        | some canonical =>
            (s,
              [{ tsNs := recvNs
                 recvNs := recvNs
                 symbol := canonical
                 venue := "coinbase"
                 depth := depth
                 bids := topBids depth book
                 asks := topAsks depth book }])

/-- The events of a message that the loop reads, each with the clock reading of the message. -/
def frameEvents (frame : BookFrame) : List (Int × BookEvent) :=
  if frame.channel = some "l2_data" then frame.events.map fun ev => (frame.recvNs, ev) else []

/-- The connections as sequences of events. -/
def eventSessions (connections : List (List BookFrame)) : List (List (Int × BookEvent)) :=
  connections.map fun frames => frames.flatMap frameEvents

/-- `stream_book(symbols, depth)` for the native ids of the symbols. -/
def streamBook (productIds : List String) (connections : List (List BookFrame)) :
    List BookSnapshot :=
  outputs (onEvent upper reverse depth) (initialState productIds)
    (eventSessions connections).flatten

end Stream

/-! ## The book of the venue -/

/-- The updates of a side of a product. -/
def updatesOn (side : BookSide) (productId : String) (events : List (Int × BookEvent)) :
    List (ℚ × ℚ) :=
  events.flatMap fun e =>
    if e.2.productId = productId then
      (e.2.updates.filter fun u => decide (u.side = side)).map fun u => (u.price, u.qty)
    else []

/-- The venue's book after the event: the first event of the product on a connection is the full
book, later ones update it. -/
def venueLevels (side : BookSide) (m : Moment (Int × BookEvent)) : Dict ℚ ℚ :=
  levels (updatesOn side m.message.2.productId m.since)

/-- The snapshot lists the first levels of the venue's book. -/
def ShowsVenueBook (depth : ℕ) (m : Moment (Int × BookEvent)) (s : BookSnapshot) : Prop :=
  IsTop (· ≥ ·) depth (venueLevels .bid m) s.bids ∧
    IsTop (· ≤ ·) depth (venueLevels .offer m) s.asks

/-- The levels that the earlier connections have left and this one has not mentioned. -/
def staleLevels (side : BookSide) (m : Moment (Int × BookEvent)) : List (ℚ × ℚ) :=
  (levels (updatesOn side m.message.2.productId m.earlier)).entries.filter fun e =>
    decide (e.1 ∉ (updatesOn side m.message.2.productId m.since).map Prod.fst)

/-- Every stale level has `depth` levels of the venue's book ahead of it. -/
def StaleBehind (depth : ℕ) (m : Moment (Int × BookEvent)) : Prop :=
  (∀ e ∈ staleLevels .bid m, depth ≤ rank (· ≥ ·) (venueLevels .bid m) e) ∧
    ∀ e ∈ staleLevels .offer m, depth ≤ rank (· ≤ ·) (venueLevels .offer m) e

/-! ## The books of the adapter -/

def Book.on (book : Book) : BookSide → Dict ℚ ℚ
  | .bid => book.bid
  | .offer => book.offer

lemma foldl_applyUpdate_on (side : BookSide) :
    ∀ (us : List LevelUpdate) (book : Book),
      (us.foldl applyUpdate book).on side =
        ((us.filter fun u => decide (u.side = side)).map fun u => (u.price, u.qty)).foldl setLevel
          (book.on side)
  | [], _ => rfl
  | u :: us, book => by
      rw [List.foldl_cons, foldl_applyUpdate_on side us]
      by_cases hside : u.side = side
      · have hon : (applyUpdate book u).on side = setLevel (book.on side) (u.price, u.qty) := by
          subst hside
          unfold applyUpdate
          cases u.side <;> rfl
        simp [hside, hon]
      · have hon : (applyUpdate book u).on side = book.on side := by
          unfold applyUpdate
          cases side <;> cases hu : u.side <;> simp_all [Book.on]
        simp [hside, hon]

lemma updatesOn_append (side : BookSide) (productId : String) (xs ys : List (Int × BookEvent)) :
    updatesOn side productId (xs ++ ys) =
      updatesOn side productId xs ++ updatesOn side productId ys :=
  List.flatMap_append

section Books

variable {upper : String → String} {reverse : Dict (String × String) String} {depth : ℕ}

/-- An event touches the book of its product, if there is one, and no other. -/
lemma onEvent_books (s : BookState) (e : Int × BookEvent) :
    (onEvent upper reverse depth s e).1.books =
      (s.books.get? e.2.productId).elim s.books fun old =>
        s.books.set e.2.productId (e.2.updates.foldl applyUpdate old) := by
  rcases e with ⟨recvNs, ev⟩
  cases hget : s.books.get? ev.productId with
  | none => simp only [onEvent, hget, Option.elim_none]
  | some old =>
      simp only [onEvent, hget, Option.elim_some]
      split
      · rfl
      · split <;> rfl

/-- What is yielded are the first levels of the book of the product. -/
lemma onEvent_snapshot {s : BookState} {e : Int × BookEvent} {snap : BookSnapshot}
    (h : snap ∈ (onEvent upper reverse depth s e).2) :
    ∃ old, s.books.get? e.2.productId = some old ∧
      snap.bids = topBids depth (e.2.updates.foldl applyUpdate old) ∧
      snap.asks = topAsks depth (e.2.updates.foldl applyUpdate old) := by
  rcases e with ⟨recvNs, ev⟩
  cases hget : s.books.get? ev.productId with
  | none =>
      simp only [onEvent, hget] at h
      cases h
  | some old =>
      refine ⟨old, rfl, ?_⟩
      simp only [onEvent, hget] at h
      split at h
      · cases h
      · split at h
        · cases h
        · have heq := List.mem_singleton.1 h
          rw [heq]
          exact ⟨rfl, rfl⟩

lemma initial_books_empty (productIds : List String) {productId : String} {book : Book}
    (h : (initialState productIds).books.get? productId = some book) :
    book = ⟨Dict.empty, Dict.empty⟩ := by
  have hfold : ∀ (ps : List String) (d : Dict String Book),
      (∀ p b, d.get? p = some b → b = ⟨Dict.empty, Dict.empty⟩) →
        ∀ p b, (ps.foldl (fun books p => books.set p ⟨Dict.empty, Dict.empty⟩) d).get? p = some b →
          b = ⟨Dict.empty, Dict.empty⟩ := by
    intro ps
    induction ps with
    | nil => exact fun _ hd => hd
    | cons q ps ih =>
        intro d hd
        refine ih _ ?_
        intro p b hb
        by_cases hp : p = q
        · rw [hp, Dict.get?_set_self] at hb
          exact (Option.some.inj hb).symm
        · rw [Dict.get?_set_ne _ _ hp] at hb
          exact hd p b hb
  exact hfold productIds Dict.empty (fun _ _ hb => absurd hb (Option.some_ne_none _).symm) _ _ h

/-- The book of a product is what all its updates so far build, whatever connection they came on. -/
theorem book_spec (productIds : List String) (past : List (Int × BookEvent)) :
    ∀ {productId book},
      (stateAfter (onEvent upper reverse depth) (initialState productIds) past).books.get?
        productId = some book →
      ∀ side, book.on side = levels (updatesOn side productId past) := by
  induction past using List.reverseRecOn with
  | nil =>
      intro productId book hget side
      rw [initial_books_empty productIds hget]
      cases side <;> rfl
  | append_singleton past e ih =>
      intro productId book hget side
      rw [stateAfter_concat, onEvent_books] at hget
      have hstep : updatesOn side productId [e] = if e.2.productId = productId then
          (e.2.updates.filter fun u => decide (u.side = side)).map fun u => (u.price, u.qty)
          else [] := List.flatMap_singleton _ _
      rw [updatesOn_append, levels_append, hstep]
      -- The event is one of the product's own, or it leaves the book of the product alone.
      by_cases hp : e.2.productId = productId
      · subst hp
        rw [if_pos rfl]
        cases hold : (stateAfter (onEvent upper reverse depth) (initialState productIds)
            past).books.get? e.2.productId with
        | none =>
            rw [hold, Option.elim_none] at hget
            exact absurd (hold.symm.trans hget) (Option.some_ne_none _).symm
        | some old =>
            rw [hold, Option.elim_some, Dict.get?_set_self] at hget
            rw [← Option.some.inj hget, foldl_applyUpdate_on, ih hold]
      · rw [if_neg hp, List.foldl_nil]
        refine ih ?_ side
        cases hold : (stateAfter (onEvent upper reverse depth) (initialState productIds)
            past).books.get? e.2.productId with
        | none => rwa [hold, Option.elim_none] at hget
        | some old =>
            rwa [hold, Option.elim_some, Dict.get?_set_ne _ _ (Ne.symm hp)] at hget

end Books

/-! ## Old levels behind the book of the venue -/

/-- The adapter's book is the venue's book and the stale levels. -/
lemma isTop_adapter_iff {r : ℚ → ℚ → Prop} [DecidableRel r] [Std.Total r] [IsTrans ℚ r]
    [Std.Antisymm r] (side : BookSide) (depth : ℕ) (m : Moment (Int × BookEvent)) :
    IsTop r depth (venueLevels side m)
        (top r depth (levels (updatesOn side m.message.2.productId (m.earlier ++ m.since)))) ↔
      ∀ e ∈ staleLevels side m, depth ≤ rank r (venueLevels side m) e := by
  -- New updates on top of the old book: their own levels, and the old ones they do not mention.
  have hwhole : ∀ e,
      e ∈ (levels (updatesOn side m.message.2.productId (m.earlier ++ m.since))).entries ↔
        e ∈ (venueLevels side m).entries ∨ e ∈ staleLevels side m := by
    intro e
    rw [updatesOn_append, levels_append, mem_foldl_setLevel_iff]
    simp only [staleLevels, venueLevels, List.mem_filter, decide_eq_true_eq]
  have hlive : (venueLevels side m).entries ⊆
      (levels (updatesOn side m.message.2.productId (m.earlier ++ m.since))).entries :=
    fun e he => (hwhole e).2 (Or.inl he)
  rw [isTop_top_iff hlive]
  constructor
  · intro h e he
    refine h e ((hwhole e).2 (Or.inr he)) ?_
    intro hvenue
    have hout := of_decide_eq_true (List.mem_filter.1 he).2
    exact hout (List.mem_map.2 ⟨e, mem_of_mem_levels hvenue, rfl⟩)
  · intro h e he hout
    exact h e (((hwhole e).1 he).resolve_left hout)

/-- `stream_book` yields at the moments of its connections, and what it yields is the top of the
venue's book exactly if the stale levels lie behind it. -/
theorem book_snapshots_exact_iff (upper : String → String)
    (reverse : Dict (String × String) String) (depth : ℕ) (productIds : List String)
    (connections : List (List BookFrame)) :
    streamBook upper reverse depth productIds connections =
        (moments (eventSessions connections)).flatMap
          (outputAt (onEvent upper reverse depth) (initialState productIds)) ∧
      ∀ m ∈ moments (eventSessions connections),
        ∀ snap ∈ outputAt (onEvent upper reverse depth) (initialState productIds) m,
          ShowsVenueBook depth m snap ↔ StaleBehind depth m := by
  refine ⟨outputs_flatten _ _ _, ?_⟩
  intro m _ snap hsnap
  rcases onEvent_snapshot hsnap with ⟨old, hold, hbids, hasks⟩
  -- The book that is shown comes from all updates of the product, of all connections.
  have hbook : ∀ side, (m.message.2.updates.foldl applyUpdate old).on side =
      levels (updatesOn side m.message.2.productId (m.earlier ++ m.since)) := by
    intro side
    have hlast : updatesOn side m.message.2.productId [m.message] =
        (m.message.2.updates.filter fun u => decide (u.side = side)).map
          fun u => (u.price, u.qty) := by
      simp [updatesOn]
    rw [foldl_applyUpdate_on, book_spec productIds m.past hold, Moment.since, ← List.append_assoc,
      updatesOn_append, levels_append, hlast]
    rfl
  have hbid : snap.bids =
      top (· ≥ ·) depth (levels (updatesOn .bid m.message.2.productId (m.earlier ++ m.since))) := by
    rw [hbids, ← hbook .bid]
    rfl
  have hoffer : snap.asks =
      top (· ≤ ·) depth
        (levels (updatesOn .offer m.message.2.productId (m.earlier ++ m.since))) := by
    rw [hasks, ← hbook .offer]
    rfl
  rw [ShowsVenueBook, hbid, hoffer, isTop_adapter_iff, isTop_adapter_iff]
  rfl

/-- The registry of one product. -/
def oneProduct : Dict (String × String) String :=
  ⟨[(("coinbase", "BTC-USD"), "BTC-USD")], by decide⟩

def fullBook : Int × BookEvent :=
  (10000000000, ⟨"BTC-USD", [⟨.bid, 101, 1⟩, ⟨.bid, 99, 2⟩, ⟨.offer, 102, 1⟩]⟩)

/-- The book with which the next connection starts: the bid at 101 is gone. -/
def laterBook : Int × BookEvent :=
  (20000000000, ⟨"BTC-USD", [⟨.bid, 99, 2⟩, ⟨.offer, 100, 1⟩]⟩)

def twoConnections : List (List BookFrame) :=
  [[⟨some "l2_data", fullBook.1, [fullBook.2]⟩], [⟨some "l2_data", laterBook.1, [laterBook.2]⟩]]

theorem book_snapshots_exact_iff_full_book :
    ∃ snap ∈ outputAt (onEvent String.toUpper oneProduct 20) (initialState ["BTC-USD"])
      ⟨[], [], fullBook⟩, ShowsVenueBook 20 ⟨[], [], fullBook⟩ snap := by
  have hmoment : ⟨[], [], fullBook⟩ ∈ moments (eventSessions twoConnections) :=
    List.mem_cons_self
  have hyield : outputAt (onEvent String.toUpper oneProduct 20) (initialState ["BTC-USD"])
      ⟨[], [], fullBook⟩ = [⟨10000000000, 10000000000, "BTC-USD", "coinbase", 20,
        [(101, 1), (99, 2)], [(102, 1)]⟩] := by decide +kernel
  refine ⟨_, hyield ▸ List.mem_cons_self, ?_⟩
  have hiff := (book_snapshots_exact_iff String.toUpper oneProduct 20 ["BTC-USD"]
    twoConnections).2 _ hmoment _ (hyield ▸ List.mem_cons_self)
  exact hiff.2 ⟨fun e he => absurd he List.not_mem_nil, fun e he => absurd he List.not_mem_nil⟩

/-- The bid of the earlier connection is listed, above the best offer. -/
theorem stale_bid_is_listed :
    ¬ ∀ m ∈ moments (eventSessions twoConnections),
        ∀ snap ∈ outputAt (onEvent String.toUpper oneProduct 20) (initialState ["BTC-USD"]) m,
          ShowsVenueBook 20 m snap := by
  intro h
  have hyield : outputAt (onEvent String.toUpper oneProduct 20) (initialState ["BTC-USD"])
      ⟨[fullBook], [], laterBook⟩ = [⟨20000000000, 20000000000, "BTC-USD", "coinbase", 20,
        [(101, 1), (99, 2)], [(100, 1), (102, 1)]⟩] := by decide +kernel
  have hshows := h ⟨[fullBook], [], laterBook⟩ (List.mem_cons_of_mem _ List.mem_cons_self) _
    (hyield ▸ List.mem_cons_self)
  have hlive := ((hshows.1.mem_iff (101, 1)).1 List.mem_cons_self).1
  revert hlive
  decide +kernel

end Coinbase

end CryptoData
