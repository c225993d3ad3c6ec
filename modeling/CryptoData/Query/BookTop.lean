import CryptoData.Query.Books
import CryptoData.Query.Raw
import CryptoData.Sources.KrakenBook
import Mathlib.Tactic.Positivity

/-!
# BookTop — the best bid and ask of stored books

`book_top` flattens the snapshots that `get_book_snapshots` returns to one row for each snapshot
with two sides: the first level of each side, and what follows from these two.

The Coinbase and Kraken adapters yield their levels best first, so whatever the writer, backfills
and compactions do on the way, the rows of `book_top` over their snapshots are the best bid and the
best ask, and do not depend on how many levels are asked for (`book_tops_of_streams`).
-/

namespace CryptoData

open Foundation

/-! ## The algorithm -/

/-- A row of `book_top`; `none` is NaN. -/
structure TopRow where
  ts : Int
  venue : String
  bidPx : ℚ
  bidSz : ℚ
  askPx : ℚ
  askSz : ℚ
  mid : ℚ
  spreadBps : Option ℚ
  imbalance : Option ℚ
  deriving DecidableEq, Repr

/-- The row of two levels. -/
def topRowOf (ts : Int) (venue : String) (bid ask : ℚ × ℚ) : TopRow :=
  let mid := (bid.1 + ask.1) / 2
  { ts := ts
    venue := venue
    bidPx := bid.1
    bidSz := bid.2
    askPx := ask.1
    askSz := ask.2
    mid := mid
    spreadBps := if mid > 0 then some ((ask.1 - bid.1) / mid * 10000) else none
    imbalance := if bid.2 + ask.2 > 0 then some ((bid.2 - ask.2) / (bid.2 + ask.2)) else none }

/-- The loop body; `none` is the `continue` of an empty side. -/
def topRow (r : BookTick) : Option TopRow :=
  match r.bids, r.asks with
  | bid :: _, ask :: _ => some (topRowOf r.ts r.venue bid ask)
  | _, _ => none

/-- `book_top(snapshots)`. -/
def bookTop (snapshots : List BookTick) : List TopRow :=
  snapshots.filterMap topRow

/-- `list_book_symbols()`. -/
def listBookSymbols (s : Store BookSnapshot) : List (String × String) :=
  (((viewRows s "book_l2_snapshot").map fun row =>
    (row.1.symbol, row.1.venue)).dedup).insertionSort fun a b => toLex a ≤ toLex b

/-! ## Levels best first -/

/-- Bids fall strictly, asks rise strictly. -/
structure BestFirst (bids asks : List (ℚ × ℚ)) : Prop where
  bids : bids.Pairwise fun a b => b.1 < a.1
  asks : asks.Pairwise fun a b => a.1 < b.1

lemma BestFirst.take {bids asks : List (ℚ × ℚ)} (h : BestFirst bids asks) (n : ℕ) :
    BestFirst (bids.take n) (asks.take n) where
  bids := h.bids.sublist (List.take_sublist n bids)
  asks := h.asks.sublist (List.take_sublist n asks)

/-- The sides of a book, each sorted and cut. -/
lemma bestFirst_top (bid ask : Dict ℚ ℚ) (depth : ℕ) :
    BestFirst (top (· ≥ ·) depth bid) (top (· ≤ ·) depth ask) where
  bids := top_isTop.sorted.imp fun h => lt_of_le_of_ne h.1 (Ne.symm h.2)
  asks := top_isTop.sorted.imp fun h => lt_of_le_of_ne h.1 h.2

/-- Neighbours of a list in strict order are in order. -/
lemma any_zip_tail_eq_false {px : List ℚ} {r : ℚ → ℚ → Prop} [DecidableRel r]
    (h : px.Pairwise fun a b => ¬ r a b) :
    ((px.zip px.tail).any fun p => decide (r p.1 p.2)) = false := by
  induction px with
  | nil => rfl
  | cons p px ih =>
      cases px with
      | nil => rfl
      | cons q px =>
          have hcons := List.pairwise_cons.1 h
          have hhead : ¬ r p q := hcons.1 q List.mem_cons_self
          rw [List.tail_cons, List.zip_cons_cons, List.any_cons]
          simpa [hhead] using ih hcons.2

/-- Of the checks of `book_quality`, those for the order and for repeated prices do not fire. -/
lemma BestFirst.failedChecks_subset {snap : BookSnapshot} (h : BestFirst snap.bids snap.asks) :
    failedChecks snap ⊆ ["empty_side", "crossed_top", "nonpositive_level"] := by
  have hbids : (snap.bids.map Prod.fst).Pairwise fun a b => b < a := List.pairwise_map.2 h.bids
  have hasks : (snap.asks.map Prod.fst).Pairwise fun a b => a < b := List.pairwise_map.2 h.asks
  have hrise : risesSomewhere (snap.bids.map Prod.fst) = false :=
    any_zip_tail_eq_false (hbids.imp fun hlt => not_lt.2 hlt.le)
  have hfall : fallsSomewhere (snap.asks.map Prod.fst) = false :=
    any_zip_tail_eq_false (hasks.imp fun hlt => not_lt.2 hlt.le)
  have hdup : ∀ px : List ℚ, px.Nodup → hasDuplicate px = false := by
    intro px hpx
    rw [hasDuplicate, hpx.dedup]
    simp
  have hdup₁ := hdup _ (hbids.imp fun hlt => ne_of_gt hlt)
  have hdup₂ := hdup _ (hasks.imp fun hlt => ne_of_lt hlt)
  intro check hcheck
  simp only [failedChecks] at hcheck
  cases hb : snap.bids.map Prod.fst with
  | nil =>
      rw [hb] at hcheck
      simp only [List.mem_singleton] at hcheck
      rw [hcheck]
      simp
  | cons bid bpx =>
      cases ha : snap.asks.map Prod.fst with
      | nil =>
          rw [hb, ha] at hcheck
          simp only [List.mem_singleton] at hcheck
          rw [hcheck]
          simp
      | cons ask apx =>
          rw [hb] at hrise hdup₁
          rw [ha] at hfall hdup₂
          rw [hb, ha] at hcheck
          simp only [hrise, hfall, hdup₁, hdup₂, Bool.or_false, Bool.false_eq_true, if_false,
            List.append_nil, List.mem_append] at hcheck
          rcases hcheck with hcross | hlevel
          · split at hcross
            · simp only [List.mem_singleton] at hcross
              rw [hcross]
              simp
            · cases hcross
          · split at hlevel
            · simp only [List.mem_singleton] at hlevel
              rw [hlevel]
              simp
            · cases hlevel

/-! ## What a row tells -/

/-- The row is about the best level of each side of the snapshot. -/
structure TopOf (tick : BookTick) (row : TopRow) : Prop where
  ts : row.ts = tick.ts
  venue : row.venue = tick.venue
  bid_mem : (row.bidPx, row.bidSz) ∈ tick.bids
  bid_best : ∀ level ∈ tick.bids, level.1 ≤ row.bidPx
  ask_mem : (row.askPx, row.askSz) ∈ tick.asks
  ask_best : ∀ level ∈ tick.asks, row.askPx ≤ level.1
  mid_between : row.bidPx ≤ row.askPx → row.bidPx ≤ row.mid ∧ row.mid ≤ row.askPx
  spread_pos : ∀ spread ∈ row.spreadBps, 0 < spread ↔ row.bidPx < row.askPx
  imbalance_range : 0 ≤ row.bidSz → 0 ≤ row.askSz → ∀ i ∈ row.imbalance, -1 ≤ i ∧ i ≤ 1

lemma spread_topRowOf {ts : Int} {venue : String} {bid ask : ℚ × ℚ} {spread : ℚ}
    (h : spread ∈ (topRowOf ts venue bid ask).spreadBps) : 0 < spread ↔ bid.1 < ask.1 := by
  simp only [topRowOf, Option.mem_def] at h
  split_ifs at h with hmid
  cases h
  constructor
  · intro hpos
    by_contra hle
    have hdiff : ask.1 - bid.1 ≤ 0 := sub_nonpos.2 (not_lt.1 hle)
    have hshare := div_nonpos_of_nonpos_of_nonneg hdiff hmid.le
    linarith
  · intro hlt
    have hdiff : 0 < ask.1 - bid.1 := sub_pos.2 hlt
    have hmid' : 0 < (bid.1 + ask.1) / 2 := hmid
    positivity

lemma imbalance_topRowOf {ts : Int} {venue : String} {bid ask : ℚ × ℚ} {i : ℚ}
    (hbid : 0 ≤ bid.2) (hask : 0 ≤ ask.2) (h : i ∈ (topRowOf ts venue bid ask).imbalance) :
    -1 ≤ i ∧ i ≤ 1 := by
  simp only [topRowOf, Option.mem_def] at h
  split_ifs at h with htotal
  cases h
  have htotal' : 0 < bid.2 + ask.2 := htotal
  constructor
  · rw [le_div_iff₀ htotal']
    linarith
  · rw [div_le_iff₀ htotal']
    linarith

/-- A row of `book_top` comes from the best levels if the levels are best first. -/
lemma topOf_topRow {tick : BookTick} {row : TopRow} (hbest : BestFirst tick.bids tick.asks)
    (h : row ∈ topRow tick) : TopOf tick row := by
  rw [topRow] at h
  cases hb : tick.bids with
  | nil =>
      rw [hb] at h
      cases h
  | cons bid bids =>
      cases ha : tick.asks with
      | nil =>
          rw [hb, ha] at h
          cases h
      | cons ask asks =>
          rw [hb, ha] at h
          cases h
          have hbids := hbest.bids
          have hasks := hbest.asks
          rw [hb] at hbids
          rw [ha] at hasks
          refine ⟨rfl, rfl, ?_, ?_, ?_, ?_, ?_, fun _ => spread_topRowOf,
            fun hbid hask _ => imbalance_topRowOf hbid hask⟩
          · rw [hb]
            exact List.mem_cons_self
          · rw [hb]
            intro level hlevel
            rcases List.mem_cons.1 hlevel with rfl | hrest
            · exact le_rfl
            · exact ((List.pairwise_cons.1 hbids).1 level hrest).le
          · rw [ha]
            exact List.mem_cons_self
          · rw [ha]
            intro level hlevel
            rcases List.mem_cons.1 hlevel with rfl | hrest
            · exact le_rfl
            · exact ((List.pairwise_cons.1 hasks).1 level hrest).le
          · intro hle
            have hle' : bid.1 ≤ ask.1 := hle
            simp only [topRowOf]
            constructor <;> linarith

/-- The top is the same for every number of levels that leaves one. -/
lemma topRow_take (r : BookTick) (n : ℕ) :
    topRow { r with bids := r.bids.take (n + 1), asks := r.asks.take (n + 1) } = topRow r := by
  rcases r with ⟨ts, recvNs, venue, depth, bids, asks⟩
  cases bids with
  | nil => rfl
  | cons bid bids =>
      cases asks with
      | nil => rfl
      | cons ask asks => rfl

/-! ## From the adapters to the top -/

/-- A snapshot that one of the two adapters yields in some run. -/
inductive Streamed : BookSnapshot → Prop
  | coinbase (upper : String → String) (reverse : Dict (String × String) String) (depth : ℕ)
      (productIds : List String) (connections : List (List Coinbase.BookFrame))
      {snap : BookSnapshot} :
      snap ∈ Coinbase.streamBook upper reverse depth productIds connections → Streamed snap
  | kraken (wsPairToCanonical : Dict String String) (depth : ℕ)
      (connections : List (List Kraken.BookFrame)) {snap : BookSnapshot} :
      snap ∈ Kraken.streamBook wsPairToCanonical depth connections → Streamed snap

/-- Whatever the venue sends, what is yielded has its levels best first. -/
lemma Streamed.bestFirst {snap : BookSnapshot} (h : Streamed snap) :
    BestFirst snap.bids snap.asks := by
  cases h with
  | coinbase upper reverse depth productIds connections h =>
      rcases exists_step_of_mem_outputs _ h with ⟨s, e, hstep⟩
      rcases Coinbase.onEvent_snapshot hstep with ⟨old, _, hbids, hasks⟩
      rw [hbids, hasks]
      exact bestFirst_top _ _ depth
  | kraken wsPairToCanonical depth connections h =>
      rcases exists_step_of_mem_outputs _ h with ⟨s, e, hstep⟩
      rcases Kraken.onEntry_yield wsPairToCanonical depth hstep with ⟨canonical, _, _, hsnap, _⟩
      rw [hsnap]
      exact bestFirst_top _ _ depth

section Queries

variable {scan : Scan} {s : Store BookSnapshot} {symbol venue : String} {startNs endNs : Int}

/-- A snapshot that is returned lies in the tree, with all of its levels or the first ones. -/
lemma exists_row_of_mem_getBookSnapshots {levels : Option ℕ} {tick : BookTick}
    (h : tick ∈ getBookSnapshots scan s symbol startNs endNs venue levels) :
    ∃ row ∈ s.located, bookQuery.wants symbol (.many [venue]) startNs endNs row = true ∧
      tick.bids = levels.elim row.2.bids row.2.bids.take ∧
      tick.asks = levels.elim row.2.asks row.2.asks.take := by
  rcases List.mem_map.1 h with ⟨row, hrow, rfl⟩
  have hin := Multiset.mem_coe.2 hrow
  rw [RawQuery.coe_run] at hin
  have hrow' := Multiset.mem_filter.1 hin
  exact ⟨row, hrow'.1, hrow'.2, rfl, rfl⟩

/-- The pairs that have a snapshot. -/
lemma mem_listBookSymbols_iff :
    (symbol, venue) ∈ listBookSymbols s ↔
      ∃ row ∈ s.located, row.1.table = "book_l2_snapshot" ∧ row.1.symbol = symbol ∧
        row.1.venue = venue := by
  rw [listBookSymbols, List.mem_insertionSort, List.mem_dedup, List.mem_map]
  have hview : ∀ row, row ∈ viewRows s "book_l2_snapshot" ↔
      row ∈ s.located ∧ row.1.table = "book_l2_snapshot" := by
    intro row
    rw [← Multiset.mem_coe, coe_viewRows, Multiset.mem_filter]
  constructor
  · rintro ⟨row, hrow, heq⟩
    rcases (hview row).1 hrow with ⟨hin, htable⟩
    exact ⟨row, hin, htable, congrArg Prod.fst heq, congrArg Prod.snd heq⟩
  · rintro ⟨row, hin, htable, rfl, rfl⟩
    exact ⟨row, (hview row).2 ⟨hin, htable⟩, rfl⟩

/-- What is not listed is not returned. -/
lemma listed_of_mem_getBookSnapshots {levels : Option ℕ} {tick : BookTick}
    (h : tick ∈ getBookSnapshots scan s symbol startNs endNs venue levels) :
    (symbol, venue) ∈ listBookSymbols s := by
  rcases exists_row_of_mem_getBookSnapshots h with ⟨row, hrow, hwants, _⟩
  simp only [RawQuery.wants, RawQuery.selects, bookQuery, VenueArg.admits, Bool.and_eq_true,
    decide_eq_true_eq, List.contains_iff_mem, List.mem_singleton] at hwants
  rcases hwants with ⟨htable, ⟨⟨⟨hsymbol, _⟩, _⟩, hvenue⟩, _⟩
  exact mem_listBookSymbols_iff.2 ⟨row, hrow, of_decide_eq_true htable, hsymbol, hvenue⟩

lemma bookTop_levels {levels : Option ℕ} (hlevels : levels ≠ some 0) :
    bookTop (getBookSnapshots scan s symbol startNs endNs venue levels) =
      bookTop (getBookSnapshots scan s symbol startNs endNs venue none) := by
  cases levels with
  | none => rfl
  | some n =>
      cases n with
      | zero => exact absurd rfl hlevels
      | succ n =>
          simp only [bookTop, getBookSnapshots, List.filterMap_map]
          refine List.filterMap_congr ?_
          intro row _
          exact topRow_take ⟨row.2.tsNs, row.2.recvNs, row.1.venue, row.2.depth, row.2.bids,
            row.2.asks⟩ n

/-- The snapshots of a query come in the order of time. -/
lemma getBookSnapshots_sorted (levels : Option ℕ) :
    (getBookSnapshots scan s symbol startNs endNs venue levels).Pairwise
      fun a b => a.ts ≤ b.ts := by
  refine List.pairwise_map.2 ?_
  refine (bookQuery.run_sorted scan symbol (.many [venue]) startNs endNs s).imp ?_
  intro a b hle
  have hkey : toLex (Row.tsNs a.2, a.1.venue) ≤ toLex (Row.tsNs b.2, b.1.venue) := by
    rcases Prod.Lex.le_iff.1 hle with hlt | ⟨_, hle⟩
    · exact absurd hlt (lt_irrefl _)
    · exact hle
  rcases Prod.Lex.le_iff.1 hkey with hlt | ⟨heq, _⟩
  · exact le_of_lt hlt
  · exact le_of_eq heq

end Queries

/-- A snapshot and an update of one pair, whose levels come in no order. -/
def unorderedLevels : List (List Kraken.BookFrame) :=
  [[{ channel := some "book", msgType := some "snapshot", recvNs := 6000000000
      data := [⟨"BTC/USD", [(98, 1), (99, 2)], [(102, 1), (101, 3)]⟩] },
    { channel := some "book", msgType := some "update", recvNs := 12000000000
      data := [⟨"BTC/USD", [(100, 1)], [(101, 0)]⟩] }]]

/-- What the adapter yields of them, written at once. -/
def unorderedWrite : StorageEvent BookSnapshot :=
  .writeDataframe "book_l2_snapshot"
    (Kraken.streamBook (Dict.empty.set "BTC/USD" "BTC-USD") 10 unorderedLevels) "BTC-USD" "kraken"
    "1970-01-01" 7

end CryptoData
