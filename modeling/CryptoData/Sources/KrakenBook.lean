import CryptoData.Sources.CoinbaseBook

/-!
# KrakenBook — the order books of the Kraken adapter

`streamBook` keeps one book for each pair.  A message of type `snapshot` clears the book of its
pair before its levels are applied, so nothing of an earlier connection is left in it, and the
books are yielded at most once in five seconds.

If every connection starts each pair with a snapshot, a yielded book is the top of what the latest
snapshot of the pair and the later updates of the same connection build, and two yields of one pair
are five seconds apart (`stream_book_exact`).
-/

namespace CryptoData

open Foundation

namespace Kraken

/-! ## The adapter -/

/-- An entry of `data`, with the price and the quantity of each level; `symbol` is empty where the
entry has none. -/
structure BookData where
  symbol : String
  bids : List (ℚ × ℚ)
  asks : List (ℚ × ℚ)

/-- A frame of the socket; `channel` is `none` where it is no JSON or names no channel. -/
structure BookFrame where
  channel : Option String
  msgType : Option String
  recvNs : Int
  data : List BookData

/-- An entry with the type and the clock reading of its frame. -/
structure BookMessage where
  msgType : Option String
  recvNs : Int
  entry : BookData

/-- `books[pair]`. -/
structure Book where
  bid : Dict ℚ ℚ
  ask : Dict ℚ ℚ

structure BookState where
  books : Dict String Book
  lastEmitNs : Dict String Int

/-- `EMIT_INTERVAL_NS`. -/
def emitIntervalNs : Int := 5000000000

def emptyBook : Book := ⟨Dict.empty, Dict.empty⟩

/-- `self._canon(ws_pair)`; an empty symbol counts as none. -/
def canon (wsPairToCanonical : Dict String String) (wsPair : String) : Option String :=
  match wsPairToCanonical.get? wsPair with
  | some canonical =>
      if canonical = "" then
        wsPairToCanonical.get? (String.ofList (wsPair.toList.filter fun c => decide (c ≠ '/')))
      else some canonical
  | none => wsPairToCanonical.get? (String.ofList (wsPair.toList.filter fun c => decide (c ≠ '/')))

/-- `if pair not in books`. -/
def BookState.opened (s : BookState) (pair : String) : BookState :=
  if pair ∈ s.books.keys then s
  else
    { books := s.books.set pair emptyBook
      lastEmitNs := s.lastEmitNs.set pair 0 }

def BookState.book (s : BookState) (pair : String) : Book :=
  s.books.getD pair emptyBook

def BookState.last (s : BookState) (pair : String) : Int :=
  s.lastEmitNs.getD pair 0

/-- The book of the pair behind a message: cleared by a snapshot, then the bids, then the asks. -/
def applyMessage (book : Book) (e : BookMessage) : Book :=
  let book := if e.msgType = some "snapshot" then emptyBook else book
  { bid := e.entry.bids.foldl setLevel book.bid
    ask := e.entry.asks.foldl setLevel book.ask }

/-- The levels that are yielded: no two of a side have one price. -/
def snapshotOf (depth : ℕ) (canonical : String) (recvNs : Int) (book : Book) : BookSnapshot where
  tsNs := recvNs
  recvNs := recvNs
  symbol := canonical
  venue := "kraken"
  depth := depth
  bids := top (· ≥ ·) depth book.bid
  asks := top (· ≤ ·) depth book.ask

section Stream

variable (wsPairToCanonical : Dict String String) (depth : ℕ)

/-- The body of the loop over the entries of a message. -/
def onEntry (s : BookState) (e : BookMessage) : BookState × List BookSnapshot :=
  let pair := e.entry.symbol
  match canon wsPairToCanonical pair with
  | none => (s, [])
  | some canonical =>
      let s := s.opened pair
      let book := applyMessage (s.book pair) e
      let s := { s with books := s.books.set pair book }
      -- Within the interval the book is kept all the same, and the clock of the pair stays.
      if e.recvNs - s.last pair < emitIntervalNs then (s, [])
      else
        ({ s with lastEmitNs := s.lastEmitNs.set pair e.recvNs },
          [snapshotOf depth canonical e.recvNs book])

/-- The entries of a frame that the loop reads. -/
def frameMessages (frame : BookFrame) : List BookMessage :=
  if frame.channel = some "book" then
    frame.data.map fun entry => ⟨frame.msgType, frame.recvNs, entry⟩
  else []

/-- The connections as sequences of messages. -/
def messageSessions (connections : List (List BookFrame)) : List (List BookMessage) :=
  connections.map fun frames => frames.flatMap frameMessages

/-- Before the first connection there are no books. -/
def noBooks : BookState := ⟨Dict.empty, Dict.empty⟩

/-- `stream_book(symbols, depth)`. -/
def streamBook (connections : List (List BookFrame)) : List BookSnapshot :=
  outputs (onEntry wsPairToCanonical depth) noBooks (messageSessions connections).flatten

end Stream

/-! ## The book of the venue -/

inductive BookSide
  | bid
  | ask

def BookData.on (entry : BookData) : BookSide → List (ℚ × ℚ)
  | .bid => entry.bids
  | .ask => entry.asks

/-- The messages for a pair. -/
def ofPair (pair : String) (es : List BookMessage) : List BookMessage :=
  es.filter fun e => decide (e.entry.symbol = pair)

/-- The latest snapshot and the updates behind it. -/
def sinceSnapshot (es : List BookMessage) : List BookMessage :=
  es.foldl (fun kept e => if e.msgType = some "snapshot" then [e] else kept ++ [e]) []

/-- What the messages set on a side from their latest snapshot on. -/
def levelsSince (side : BookSide) (es : List BookMessage) : Dict ℚ ℚ :=
  levels ((sinceSnapshot es).flatMap fun e => e.entry.on side)

/-- The venue's book of the pair of the message, from the messages of its connection. -/
def venueLevels (side : BookSide) (m : Moment BookMessage) : Dict ℚ ℚ :=
  levelsSince side (ofPair m.message.entry.symbol m.since)

/-- On the connection, the first message for each pair is a snapshot. -/
def StartsWithSnapshots (session : List BookMessage) : Prop :=
  ∀ pair, ∀ e ∈ (ofPair pair session).head?, e.msgType = some "snapshot"

/-- The snapshot lists the first levels of the venue's book. -/
structure ShowsVenueBook (depth : ℕ) (m : Moment BookMessage) (s : BookSnapshot) : Prop where
  bids_top : IsTop (· ≥ ·) depth (venueLevels .bid m) s.bids
  asks_top : IsTop (· ≤ ·) depth (venueLevels .ask m) s.asks
  bids_descending : s.bids.Pairwise fun a b => b.1 < a.1
  asks_ascending : s.asks.Pairwise fun a b => a.1 < b.1
  bids_length : s.bids.length ≤ depth
  asks_length : s.asks.length ≤ depth
  no_zero : ∀ level ∈ s.bids ++ s.asks, level.2 ≠ 0

/-! ## One message -/

section Step

variable (wsPairToCanonical : Dict String String) (depth : ℕ)

/-- A message of an unknown pair does nothing; any other updates the book of its pair, and yields it
if the interval is over. -/
lemma onEntry_cases (s : BookState) (e : BookMessage) :
    (canon wsPairToCanonical e.entry.symbol = none ∧
        onEntry wsPairToCanonical depth s e = (s, [])) ∨
      ∃ canonical book, canon wsPairToCanonical e.entry.symbol = some canonical ∧
        book = applyMessage ((s.opened e.entry.symbol).book e.entry.symbol) e ∧
        ((onEntry wsPairToCanonical depth s e =
              (⟨(s.opened e.entry.symbol).books.set e.entry.symbol book,
                (s.opened e.entry.symbol).lastEmitNs⟩, [])) ∨
          ((s.opened e.entry.symbol).last e.entry.symbol + emitIntervalNs ≤ e.recvNs ∧
            onEntry wsPairToCanonical depth s e =
              (⟨(s.opened e.entry.symbol).books.set e.entry.symbol book,
                (s.opened e.entry.symbol).lastEmitNs.set e.entry.symbol e.recvNs⟩,
                [snapshotOf depth canonical e.recvNs book]))) := by
  cases hcanon : canon wsPairToCanonical e.entry.symbol with
  | none =>
      refine Or.inl ⟨rfl, ?_⟩
      simp only [onEntry, hcanon]
  | some canonical =>
      refine Or.inr ⟨canonical, _, rfl, rfl, ?_⟩
      by_cases hearly : e.recvNs - (s.opened e.entry.symbol).last e.entry.symbol < emitIntervalNs
      · refine Or.inl ?_
        have hlast : e.recvNs - (s.opened e.entry.symbol).lastEmitNs.getD e.entry.symbol 0 <
            emitIntervalNs := hearly
        simp only [onEntry, hcanon, BookState.last, hlast, if_true]
      · have hlast : ¬ e.recvNs - (s.opened e.entry.symbol).lastEmitNs.getD e.entry.symbol 0 <
            emitIntervalNs := hearly
        refine Or.inr ⟨le_sub_iff_add_le'.1 (not_lt.1 hearly), ?_⟩
        simp only [onEntry, hcanon, BookState.last, hlast, if_false]

/-- Opening a book changes no book that is there, and none of another pair. -/
lemma opened_book (s : BookState) (pair p : String) : (s.opened pair).book p = s.book p := by
  unfold BookState.opened
  by_cases hmem : pair ∈ s.books.keys
  · rw [if_pos hmem]
  · rw [if_neg hmem]
    by_cases hp : p = pair
    · -- A book that is not there reads as empty, and that is what is put in.
      have hnone : s.books.get? p = none := Dict.get?_eq_none_iff.2 (hp ▸ hmem)
      rw [BookState.book, BookState.book, Dict.getD, Dict.getD, hnone, hp, Dict.get?_set_self]
      rfl
    · rw [BookState.book, BookState.book, Dict.getD, Dict.getD, Dict.get?_set_ne _ _ hp]

/-- A message updates the book of its pair if the pair is known, and no other. -/
lemma onEntry_book (s : BookState) (e : BookMessage) {pair : String}
    (hknown : canon wsPairToCanonical pair ≠ none) :
    (onEntry wsPairToCanonical depth s e).1.book pair =
      if e.entry.symbol = pair then applyMessage (s.book pair) e else s.book pair := by
  have hset : ∀ book, ((s.opened e.entry.symbol).books.set e.entry.symbol book).getD pair emptyBook
      = if e.entry.symbol = pair then book else s.book pair := by
    intro book
    by_cases hpair : e.entry.symbol = pair
    · rw [if_pos hpair, hpair, Dict.getD, Dict.get?_set_self]
      rfl
    · rw [if_neg hpair, Dict.getD, Dict.get?_set_ne _ _ (Ne.symm hpair)]
      exact opened_book s e.entry.symbol pair
  have hself : e.entry.symbol = pair →
      applyMessage ((s.opened e.entry.symbol).book e.entry.symbol) e =
        applyMessage (s.book pair) e := by
    intro hpair
    rw [opened_book, hpair]
  rcases onEntry_cases wsPairToCanonical depth s e with
    ⟨hnone, hstep⟩ | ⟨canonical, book, _, hbook, hstep | ⟨_, hstep⟩⟩
  · have hpair : e.entry.symbol ≠ pair := fun h => hknown (h ▸ hnone)
    rw [hstep, if_neg hpair]
  -- The books are the same whether the message yields or not.
  all_goals
    rw [hstep, BookState.book, hset]
    by_cases hpair : e.entry.symbol = pair
    · rw [if_pos hpair, if_pos hpair, hbook, hself hpair]
    · rw [if_neg hpair, if_neg hpair]

/-- The pair has a book, and was yielded last at `t` or later. -/
def EmittedSince (pair : String) (t : Int) (s : BookState) : Prop :=
  pair ∈ s.books.keys ∧ t ≤ s.last pair

/-- The clock of a pair only moves forward. -/
lemma onEntry_emittedSince {pair : String} {t : Int} (s : BookState) (e : BookMessage)
    (h : EmittedSince pair t s) :
    EmittedSince pair t (onEntry wsPairToCanonical depth s e).1 := by
  rcases h with ⟨hbook, hlast⟩
  have hopened : pair ∈ (s.opened e.entry.symbol).books.keys ∧
      t ≤ (s.opened e.entry.symbol).last pair := by
    unfold BookState.opened
    by_cases hmem : e.entry.symbol ∈ s.books.keys
    · rw [if_pos hmem]
      exact ⟨hbook, hlast⟩
    · rw [if_neg hmem]
      have hpair : pair ≠ e.entry.symbol := fun heq => hmem (heq ▸ hbook)
      refine ⟨Dict.mem_keys_set.2 (Or.inr hbook), ?_⟩
      rw [BookState.last, Dict.getD, Dict.get?_set_ne _ _ hpair]
      exact hlast
  rcases onEntry_cases wsPairToCanonical depth s e with
    ⟨_, hstep⟩ | ⟨canonical, book, _, _, hstep | ⟨hdue, hstep⟩⟩
  · rw [hstep]
    exact ⟨hbook, hlast⟩
  · rw [hstep]
    exact ⟨Dict.mem_keys_set.2 (Or.inr hopened.1), hopened.2⟩
  · rw [hstep]
    refine ⟨Dict.mem_keys_set.2 (Or.inr hopened.1), ?_⟩
    by_cases hpair : pair = e.entry.symbol
    · -- The pair is yielded now, an interval behind its last time.
      rw [BookState.last, Dict.getD, hpair, Dict.get?_set_self]
      have hinterval : (0 : Int) ≤ emitIntervalNs := by decide
      calc
        t ≤ (s.opened e.entry.symbol).last e.entry.symbol := hpair ▸ hopened.2
        _ ≤ (s.opened e.entry.symbol).last e.entry.symbol + emitIntervalNs :=
            Int.le_add_of_nonneg_right hinterval
        _ ≤ e.recvNs := hdue
    · rw [BookState.last, Dict.getD, Dict.get?_set_ne _ _ hpair]
      exact hopened.2

/-- What a message yields: the book of its pair behind the message, if an interval has passed. -/
lemma onEntry_yield {s : BookState} {e : BookMessage} {snap : BookSnapshot}
    (h : snap ∈ (onEntry wsPairToCanonical depth s e).2) :
    ∃ canonical, canon wsPairToCanonical e.entry.symbol = some canonical ∧
      (onEntry wsPairToCanonical depth s e).2 = [snap] ∧
      snap = snapshotOf depth canonical e.recvNs (applyMessage (s.book e.entry.symbol) e) ∧
      EmittedSince e.entry.symbol e.recvNs (onEntry wsPairToCanonical depth s e).1 ∧
      (e.entry.symbol ∈ s.books.keys → s.last e.entry.symbol + emitIntervalNs ≤ e.recvNs) := by
  rcases onEntry_cases wsPairToCanonical depth s e with
    ⟨_, hstep⟩ | ⟨canonical, book, hcanon, hbook, hstep | ⟨hdue, hstep⟩⟩
  · rw [hstep] at h
    cases h
  · rw [hstep] at h
    cases h
  · rw [hstep] at h
    have hsnap := List.mem_singleton.1 h
    rw [opened_book] at hbook
    refine ⟨canonical, hcanon, ?_, hbook ▸ hsnap, ?_, ?_⟩
    · rw [hstep, hsnap]
    · rw [hstep]
      refine ⟨Dict.mem_keys_set.2 (Or.inl rfl), ?_⟩
      rw [BookState.last, Dict.getD, Dict.get?_set_self]
      exact le_rfl
    · intro hmem
      have hopened : s.opened e.entry.symbol = s := if_pos hmem
      exact hopened ▸ hdue

end Step

/-! ## The books of a run -/

lemma sinceSnapshot_concat (es : List BookMessage) (e : BookMessage) :
    sinceSnapshot (es ++ [e]) =
      if e.msgType = some "snapshot" then [e] else sinceSnapshot es ++ [e] := by
  rw [sinceSnapshot, List.foldl_append]
  rfl

/-- Nothing in front of a snapshot counts. -/
lemma sinceSnapshot_append (xs : List BookMessage) {y : BookMessage} (ys : List BookMessage)
    (hy : y.msgType = some "snapshot") :
    sinceSnapshot (xs ++ y :: ys) = sinceSnapshot (y :: ys) := by
  rw [sinceSnapshot, sinceSnapshot, List.foldl_append, List.foldl_cons, List.foldl_cons, if_pos hy,
    if_pos hy]

lemma ofPair_append (pair : String) (xs ys : List BookMessage) :
    ofPair pair (xs ++ ys) = ofPair pair xs ++ ofPair pair ys :=
  List.filter_append _ _

lemma ofPair_self (e : BookMessage) : ofPair e.entry.symbol [e] = [e] :=
  List.filter_eq_self.2 fun _ h => decide_eq_true (congrArg (fun x => x.entry.symbol)
    (List.mem_singleton.1 h))

/-- The book that the messages of a pair build. -/
def bookSince (es : List BookMessage) : Book where
  bid := levelsSince .bid es
  ask := levelsSince .ask es

lemma levelsSince_concat (side : BookSide) (es : List BookMessage) (e : BookMessage) :
    levelsSince side (es ++ [e]) =
      (e.entry.on side).foldl setLevel
        (if e.msgType = some "snapshot" then Dict.empty else levelsSince side es) := by
  rw [levelsSince, sinceSnapshot_concat]
  by_cases hsnap : e.msgType = some "snapshot"
  · rw [if_pos hsnap, if_pos hsnap, List.flatMap_singleton]
    rfl
  · rw [if_neg hsnap, if_neg hsnap, List.flatMap_append, levels_append, List.flatMap_singleton]
    rfl

lemma applyMessage_bookSince (es : List BookMessage) (e : BookMessage) :
    applyMessage (bookSince es) e = bookSince (es ++ [e]) := by
  rw [bookSince, bookSince, levelsSince_concat, levelsSince_concat]
  unfold applyMessage
  by_cases hsnap : e.msgType = some "snapshot"
  · simp only [hsnap, if_true]
    rfl
  · simp only [hsnap, if_false]
    rfl

section Run

variable (wsPairToCanonical : Dict String String) (depth : ℕ)

/-- In every state of a run, the book of a known pair is what the messages of the pair build. -/
theorem book_spec {pair : String} (hknown : canon wsPairToCanonical pair ≠ none)
    (past : List BookMessage) :
    (stateAfter (onEntry wsPairToCanonical depth) noBooks past).book pair =
      bookSince (ofPair pair past) := by
  -- The last message acts on the book that those before it have built.
  induction past using List.reverseRecOn with
  | nil => rfl
  | append_singleton past e ih =>
      rw [stateAfter_concat, onEntry_book _ _ _ _ hknown, ih, ofPair_append]
      by_cases hpair : e.entry.symbol = pair
      · rw [if_pos hpair, applyMessage_bookSince, ← hpair, ofPair_self]
      · have hnone : ofPair pair [e] = [] := List.filter_cons_of_neg (by simpa using hpair)
        rw [if_neg hpair, hnone, List.append_nil]

/-- With a snapshot in front of every pair, earlier connections leave nothing in the book. -/
lemma bookSince_moment {sessions : List (List BookMessage)}
    (h : ∀ session ∈ sessions, StartsWithSnapshots session) {m : Moment BookMessage}
    (hm : m ∈ moments sessions) :
    bookSince (ofPair m.message.entry.symbol (m.past ++ [m.message])) =
      ⟨venueLevels .bid m, venueLevels .ask m⟩ := by
  rcases since_prefix_of_mem hm with ⟨session, hsession, rest, hrest⟩
  have hsplit : m.past ++ [m.message] = m.earlier ++ m.since := List.append_assoc _ _ _
  -- The messages of the pair on this connection: not none, and the first is a snapshot.
  cases hes : ofPair m.message.entry.symbol m.since with
  | nil =>
      rw [Moment.since, ofPair_append, ofPair_self] at hes
      exact absurd hes (List.append_ne_nil_of_right_ne_nil _ (List.cons_ne_nil _ _))
  | cons e es =>
      have hfirst : e.msgType = some "snapshot" := by
        refine h session hsession m.message.entry.symbol e ?_
        rw [← hrest, ofPair_append, hes]
        rfl
      rw [hsplit, ofPair_append, bookSince, venueLevels, venueLevels, levelsSince, levelsSince,
        levelsSince, levelsSince, hes, sinceSnapshot_append _ _ hfirst]

/-- A snapshot of the venue's books lists their first levels. -/
lemma shows_snapshotOf (canonical : String) (recvNs : Int) (m : Moment BookMessage) :
    ShowsVenueBook depth m
      (snapshotOf depth canonical recvNs ⟨venueLevels .bid m, venueLevels .ask m⟩) := by
  have hbids : IsTop (· ≥ ·) depth (venueLevels .bid m)
      (top (· ≥ ·) depth (venueLevels .bid m)) := top_isTop
  have hasks : IsTop (· ≤ ·) depth (venueLevels .ask m)
      (top (· ≤ ·) depth (venueLevels .ask m)) := top_isTop
  refine ⟨hbids, hasks, ?_, ?_, List.length_take_le _ _, List.length_take_le _ _, ?_⟩
  · exact hbids.sorted.imp fun hab => lt_of_le_of_ne hab.1 (Ne.symm hab.2)
  · exact hasks.sorted.imp fun hab => lt_of_le_of_ne hab.1 hab.2
  · intro level hlevel
    rcases List.mem_append.1 hlevel with hbid | hask
    · exact ne_zero_of_mem_levels ((hbids.mem_iff level).1 hbid).1
    · exact ne_zero_of_mem_levels ((hasks.mem_iff level).1 hask).1

/-- If every connection starts each pair with a snapshot, `stream_book` yields at the moments of its
connections, at most once at each; what it yields is the top of the venue's book of the pair, and
two yields of one pair are an interval apart. -/
theorem stream_book_exact (connections : List (List BookFrame))
    (h : ∀ session ∈ messageSessions connections, StartsWithSnapshots session) :
    streamBook wsPairToCanonical depth connections =
        (moments (messageSessions connections)).flatMap
          (outputAt (onEntry wsPairToCanonical depth) noBooks) ∧
      (∀ m ∈ moments (messageSessions connections),
        ∀ s ∈ outputAt (onEntry wsPairToCanonical depth) noBooks m,
          outputAt (onEntry wsPairToCanonical depth) noBooks m = [s] ∧
            canon wsPairToCanonical m.message.entry.symbol = some s.symbol ∧
            s.recvNs = m.message.recvNs ∧ ShowsVenueBook depth m s) ∧
      (moments (messageSessions connections)).Pairwise fun m m' =>
        m.message.entry.symbol = m'.message.entry.symbol →
          ∀ s ∈ outputAt (onEntry wsPairToCanonical depth) noBooks m,
            ∀ s' ∈ outputAt (onEntry wsPairToCanonical depth) noBooks m',
              s.recvNs + emitIntervalNs ≤ s'.recvNs := by
  refine ⟨outputs_flatten _ _ _, ?_, ?_⟩
  · intro m hm s hs
    rcases onEntry_yield _ _ hs with ⟨canonical, hcanon, hone, hsnap, _, _⟩
    have hknown : canon wsPairToCanonical m.message.entry.symbol ≠ none :=
      hcanon ▸ Option.some_ne_none canonical
    -- The yielded book is that of all messages of the pair so far, and the snapshot cuts off those
    -- of earlier connections.
    rw [book_spec wsPairToCanonical depth hknown, applyMessage_bookSince] at hsnap
    have hmessages : ofPair m.message.entry.symbol m.past ++ [m.message] =
        ofPair m.message.entry.symbol (m.past ++ [m.message]) := by
      rw [ofPair_append, ofPair_self]
    rw [hmessages, bookSince_moment h hm] at hsnap
    refine ⟨hone, ?_, ?_, ?_⟩
    · rw [hcanon, hsnap]
      rfl
    · rw [hsnap]
      rfl
    · rw [hsnap]
      exact shows_snapshotOf depth canonical _ m
  · refine (moments_pairwise (messageSessions connections)).imp ?_
    intro m m' hprecedes hpair s hs s' hs'
    rcases onEntry_yield _ _ hs with ⟨_, _, _, hsnap, hemitted, _⟩
    rcases onEntry_yield _ _ hs' with ⟨_, _, _, hsnap', _, hspaced⟩
    -- Between the two messages the clock of the pair does not fall back.
    rcases stateAfter_of_precedes (onEntry wsPairToCanonical depth) noBooks hprecedes with
      ⟨messages, hstate⟩
    have hlater : EmittedSince m.message.entry.symbol m.message.recvNs
        (stateAfter (onEntry wsPairToCanonical depth) noBooks m'.past) := by
      rw [hstate]
      exact stateAfter_induction _ (fun s e => onEntry_emittedSince _ _ s e) messages hemitted
    rw [hpair] at hlater
    have hdue := hspaced hlater.1
    calc
      s.recvNs + emitIntervalNs = m.message.recvNs + emitIntervalNs := by
        rw [hsnap]
        rfl
      _ ≤ (stateAfter (onEntry wsPairToCanonical depth) noBooks m'.past).last
            m'.message.entry.symbol + emitIntervalNs := Int.add_le_add_right hlater.2 _
      _ ≤ m'.message.recvNs := hdue
      _ = s'.recvNs := by
        rw [hsnap']
        rfl

end Run

/-- A connection that brings one pair starts it with its first message. -/
lemma startsWithSnapshots_cons {e : BookMessage} {es : List BookMessage}
    (hfirst : e.msgType = some "snapshot") (hone : ∀ x ∈ es, x.entry.symbol = e.entry.symbol) :
    StartsWithSnapshots (e :: es) := by
  intro pair x hx
  by_cases hpair : e.entry.symbol = pair
  · have hhead : ofPair pair (e :: es) = e :: ofPair pair es :=
      List.filter_cons_of_pos (decide_eq_true hpair)
    rw [hhead] at hx
    exact Option.some.inj hx ▸ hfirst
  · have hnone : ofPair pair (e :: es) = [] := by
      refine List.filter_eq_nil_iff.2 ?_
      intro y hy hsymbol
      have hsame : y.entry.symbol = e.entry.symbol := by
        rcases List.mem_cons.1 hy with rfl | hy
        · rfl
        · exact hone y hy
      exact hpair (hsame ▸ of_decide_eq_true hsymbol)
    rw [hnone] at hx
    cases hx

def btcPair : Dict String String :=
  ⟨[("BTC/USD", "BTC-USD")], by decide⟩

def firstBook : BookMessage :=
  ⟨some "snapshot", 10000000000, ⟨"BTC/USD", [(101, 1), (99, 2)], [(102, 1)]⟩⟩

/-- The book with which the next connection starts: the bid at 101 is gone. -/
def nextBook : BookMessage :=
  ⟨some "snapshot", 20000000000, ⟨"BTC/USD", [(99, 2)], [(100, 1)]⟩⟩

/-- An update less than an interval behind the snapshot. -/
def earlyUpdate : BookMessage :=
  ⟨some "update", 21000000000, ⟨"BTC/USD", [(99, 0)], []⟩⟩

def twoConnections : List (List BookFrame) :=
  [[⟨some "book", firstBook.msgType, firstBook.recvNs, [firstBook.entry]⟩],
    [⟨some "book", nextBook.msgType, nextBook.recvNs, [nextBook.entry]⟩,
      ⟨some "book", earlyUpdate.msgType, earlyUpdate.recvNs, [earlyUpdate.entry]⟩]]

/-- The book of the second connection shows nothing of the first, and the update comes too early. -/
theorem stream_book_exact_two_connections :
    ∃ s, streamBook btcPair 20 twoConnections =
        [⟨10000000000, 10000000000, "BTC-USD", "kraken", 20, [(101, 1), (99, 2)], [(102, 1)]⟩, s] ∧
      s.bids = [(99, 2)] ∧ ShowsVenueBook 20 ⟨[firstBook], [], nextBook⟩ s := by
  have hstarts : ∀ session ∈ messageSessions twoConnections, StartsWithSnapshots session := by
    intro session hsession
    rcases List.mem_cons.1 hsession with rfl | hsession
    · exact startsWithSnapshots_cons rfl fun x hx => absurd hx List.not_mem_nil
    · rw [List.mem_singleton.1 hsession]
      refine startsWithSnapshots_cons rfl ?_
      intro x hx
      rw [List.mem_singleton.1 hx]
      rfl
  have hyield : outputAt (onEntry btcPair 20) noBooks ⟨[firstBook], [], nextBook⟩ =
      [⟨20000000000, 20000000000, "BTC-USD", "kraken", 20, [(99, 2)], [(100, 1)]⟩] := by
    decide +kernel
  have hmoment : ⟨[firstBook], [], nextBook⟩ ∈ moments (messageSessions twoConnections) :=
    List.mem_cons_of_mem _ List.mem_cons_self
  have hexact := (stream_book_exact btcPair 20 twoConnections hstarts).2.1 _ hmoment _
    (hyield ▸ List.mem_cons_self)
  exact ⟨_, by decide +kernel, rfl, hexact.2.2.2⟩

end Kraken

end CryptoData
