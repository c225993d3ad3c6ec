import CryptoData.Core.SymbolIndex
import CryptoData.Foundation.LevelBook
import CryptoData.Foundation.Sessions
import Mathlib.Algebra.Order.Ring.Rat

/-!
# GeminiQuotes — the quotes of the Gemini adapter

`streamQuotes` does not keep the levels of the book.  For each symbol it tracks the highest bid and
the lowest ask that an `l2_updates` message has ever set, through removals and reconnects, and
yields them after every message.

As long as the venue's book is never crossed, a quote is the best bid and offer exactly if for
every bid and ask that has been set in the run the book has one at least as good
(`quotes_exact_iff`).
-/

namespace CryptoData

open Foundation

namespace GeminiSpot

/-! ## The adapter -/

inductive Side
  | buy
  | sell
  deriving DecidableEq, Repr

/-- A change `[side, price, qty]`; prices are positive. -/
structure Change where
  side : Side
  price : ℚ
  qty : ℚ
  pos : 0 < price

/-- A frame of the socket; `type` is `none` where it is no JSON or has no type. -/
structure QuoteFrame where
  type : Option String
  recvNs : Int
  symbol : String
  changes : List Change

/-- What is yielded; `ingested_at_ns` is the clock. -/
structure Quote where
  tsNs : Int
  recvNs : Int
  symbol : String
  venue : String
  bidPx : ℚ
  askPx : ℚ
  bidSz : ℚ
  askSz : ℚ
  deriving DecidableEq, Repr

/-- `best[sym]`. -/
structure Best where
  bid : ℚ
  ask : ℚ
  bidSz : ℚ
  askSz : ℚ

def noBest : Best :=
  ⟨0, 0, 0, 0⟩

/-- The body of the loop over the changes. -/
def track (b : Best) (c : Change) : Best :=
  -- `continue`: a removed level stays the best one
  if c.qty = 0 then b
  else
    match c.side with
    | .buy => if c.price ≥ b.bid then { b with bid := c.price, bidSz := c.qty } else b
    | .sell =>
        if b.ask = 0 ∨ c.price ≤ b.ask then { b with ask := c.price, askSz := c.qty } else b

section Stream

variable (upper lower : String → String) (reverse : Dict (String × String) String)

/-- `to_canonical(sym) or to_canonical(sym.lower())`. -/
def canonicalOf (sym : String) : Option String :=
  ((toCanonical upper reverse sym "gemini").filter fun c => decide (c ≠ "")).or
    (toCanonical upper reverse (lower sym) "gemini")

/-- The body of the loop over the frames. -/
def onFrame (best : Dict String Best) (frame : QuoteFrame) : Dict String Best × List Quote :=
  if frame.type = some "l2_updates" then
    match canonicalOf upper lower reverse frame.symbol with
    | none => (best, [])
    | some canonical =>
        let b := frame.changes.foldl track (best.getD frame.symbol noBest)
        (best.set frame.symbol b,
          if b.bid > 0 ∧ b.ask > 0 then
            [{ tsNs := frame.recvNs
               recvNs := frame.recvNs
               symbol := canonical
               venue := "gemini"
               bidPx := b.bid
               askPx := b.ask
               bidSz := b.bidSz
               askSz := b.askSz }]
          else [])
  else (best, [])

/-- `stream_quotes(symbols)`; `best` outlives the connections. -/
def streamQuotes (connections : List (List QuoteFrame)) : List Quote :=
  outputs (onFrame upper lower reverse) Dict.empty connections.flatten

end Stream

/-! ## The book of the venue -/

/-- The changes of a symbol. -/
def changesOf (sym : String) (frames : List QuoteFrame) : List Change :=
  frames.flatMap fun f =>
    if f.type = some "l2_updates" ∧ f.symbol = sym then f.changes else []

/-- Prices and quantities of one side. -/
def sideOf (side : Side) (cs : List Change) : List (ℚ × ℚ) :=
  (cs.filter fun c => decide (c.side = side)).map fun c => (c.price, c.qty)

/-- The live levels after the message: a connection begins with the full book. -/
def liveLevels (side : Side) (m : Moment QuoteFrame) : Dict ℚ ℚ :=
  levels (sideOf side (changesOf m.message.symbol m.since))

def NeverCrossed (connections : List (List QuoteFrame)) : Prop :=
  ∀ m ∈ moments connections, ∀ b ∈ (liveLevels .buy m).entries,
    ∀ a ∈ (liveLevels .sell m).entries, b.1 < a.1

/-- The quote is the best bid and offer of the venue, with their sizes, and is not crossed. -/
def ShowsBest (m : Moment QuoteFrame) (q : Quote) : Prop :=
  IsBest (· ≥ ·) (liveLevels .buy m) (q.bidPx, q.bidSz) ∧
    IsBest (· ≤ ·) (liveLevels .sell m) (q.askPx, q.askSz) ∧ q.bidPx < q.askPx

/-- Each price that has been set for the symbol in the run has a live level at least as good. -/
def NothingBetterGone (m : Moment QuoteFrame) : Prop :=
  (∀ u ∈ sideOf .buy (changesOf m.message.symbol (m.earlier ++ m.since)), u.2 ≠ 0 →
      ∃ b ∈ (liveLevels .buy m).entries, b.1 ≥ u.1) ∧
    ∀ u ∈ sideOf .sell (changesOf m.message.symbol (m.earlier ++ m.since)), u.2 ≠ 0 →
      ∃ a ∈ (liveLevels .sell m).entries, a.1 ≤ u.1

/-! ## What is tracked -/

/-- Nothing has been set, or price and size are those of the best level that has been set. -/
def BestSoFar (r : ℚ → ℚ → Prop) (book : Dict ℚ ℚ) (px sz : ℚ) : Prop :=
  book.entries = [] ∧ px = 0 ∨ 0 < px ∧ IsBest r book (px, sz)

lemma bestSoFar_first {r : ℚ → ℚ → Prop} [Std.Refl r] [IsTrans ℚ r] {book : Dict ℚ ℚ}
    {px sz p q : ℚ} (h : BestSoFar r book px sz) (hp : 0 < p) (hle : px = 0 ∨ r p px) :
    BestSoFar r (book.set p q) p q := by
  refine Or.inr ⟨hp, isBest_set_of_first (refl_of r p) ?_⟩
  intro e he
  rcases h with ⟨hnil, _⟩ | ⟨hpos, hbest⟩
  · rw [hnil] at he
    cases he
  · have hfirst : r p px := hle.resolve_left hpos.ne'
    exact IsTrans.trans p px e.1 hfirst (hbest.2 e he)

lemma bestSoFar_behind {r : ℚ → ℚ → Prop} {book : Dict ℚ ℚ} {px sz p q : ℚ}
    (h : BestSoFar r book px sz) (hpx : px ≠ 0) (hle : r px p) (hne : px ≠ p) :
    BestSoFar r (book.set p q) px sz := by
  rcases h with ⟨_, hzero⟩ | ⟨hpos, hbest⟩
  · exact absurd hzero hpx
  · exact Or.inr ⟨hpos, isBest_set_of_behind hbest hle hne⟩

/-- Everything that has been set on a side, as a book. -/
def setOn (side : Side) (cs : List Change) : Dict ℚ ℚ :=
  levels (marks (sideOf side cs))

lemma setOn_concat_own (cs : List Change) (c : Change) (hq : c.qty ≠ 0) :
    setOn c.side (cs ++ [c]) = (setOn c.side cs).set c.price c.qty := by
  have hmarks : marks (sideOf c.side (cs ++ [c])) =
      marks (sideOf c.side cs) ++ [(c.price, c.qty)] := by
    simp [marks, sideOf, hq]
  rw [setOn, hmarks, levels_concat, setLevel, if_neg hq]
  rfl

lemma setOn_concat_other {side : Side} {cs : List Change} {c : Change}
    (h : c.qty = 0 ∨ c.side ≠ side) : setOn side (cs ++ [c]) = setOn side cs := by
  have hmarks : marks (sideOf side (cs ++ [c])) = marks (sideOf side cs) := by
    rcases h with hq | hside
    · by_cases hside : c.side = side <;> simp [marks, sideOf, hq, hside]
    · simp [marks, sideOf, hside]
  rw [setOn, setOn, hmarks]

/-- The loop over the changes keeps the best bid and the best ask that have been set. -/
theorem track_spec (cs : List Change) :
    BestSoFar (· ≥ ·) (setOn .buy cs) (cs.foldl track noBest).bid (cs.foldl track noBest).bidSz ∧
      BestSoFar (· ≤ ·) (setOn .sell cs) (cs.foldl track noBest).ask
        (cs.foldl track noBest).askSz := by
  induction cs using List.reverseRecOn with
  | nil => exact ⟨Or.inl ⟨rfl, rfl⟩, Or.inl ⟨rfl, rfl⟩⟩
  | append_singleton cs c ih =>
      rw [List.foldl_append, List.foldl_cons, List.foldl_nil]
      -- Either the change is better than all that has been set, or it is behind the best.
      generalize cs.foldl track noBest = b at ih ⊢
      rcases ih with ⟨hbid, hask⟩
      by_cases hq : c.qty = 0
      · rw [setOn_concat_other (Or.inl hq), setOn_concat_other (Or.inl hq), track, if_pos hq]
        exact ⟨hbid, hask⟩
      · rcases c with ⟨side, price, qty, pos⟩
        cases side with
        | buy =>
            have hown := setOn_concat_own cs ⟨.buy, price, qty, pos⟩ hq
            have hother : setOn .sell (cs ++ [⟨.buy, price, qty, pos⟩]) = setOn .sell cs :=
              setOn_concat_other (Or.inr Side.noConfusion)
            rw [hown, hother]
            by_cases hle : price ≥ b.bid
            · simp only [track, if_neg hq, if_pos hle]
              exact ⟨bestSoFar_first hbid pos (Or.inr hle), hask⟩
            · simp only [track, if_neg hq, if_neg hle]
              have hlt : price < b.bid := not_le.1 hle
              exact ⟨bestSoFar_behind hbid (pos.trans hlt).ne' hlt.le hlt.ne', hask⟩
        | sell =>
            have hown := setOn_concat_own cs ⟨.sell, price, qty, pos⟩ hq
            have hother : setOn .buy (cs ++ [⟨.sell, price, qty, pos⟩]) = setOn .buy cs :=
              setOn_concat_other (Or.inr Side.noConfusion)
            rw [hown, hother]
            by_cases hle : b.ask = 0 ∨ price ≤ b.ask
            · simp only [track, if_neg hq, if_pos hle]
              exact ⟨hbid, bestSoFar_first hask pos hle⟩
            · simp only [track, if_neg hq, if_neg hle]
              have hout := not_or.1 hle
              have hlt : b.ask < price := not_le.1 hout.2
              exact ⟨hbid, bestSoFar_behind hask hout.1 hlt.le hlt.ne⟩

/-! ## The adapter's state -/

section Run

variable {upper lower : String → String} {reverse : Dict (String × String) String}

lemma changesOf_append (sym : String) (xs ys : List QuoteFrame) :
    changesOf sym (xs ++ ys) = changesOf sym xs ++ changesOf sym ys :=
  List.flatMap_append

/-- A frame changes what is tracked for its symbol by its changes, and for no other. -/
lemma onFrame_best {best : Dict String Best} {frame : QuoteFrame} {sym canonical : String}
    (hsym : canonicalOf upper lower reverse sym = some canonical) :
    (onFrame upper lower reverse best frame).1.getD sym noBest =
      (changesOf sym [frame]).foldl track (best.getD sym noBest) := by
  have hchanges : changesOf sym [frame] =
      if frame.type = some "l2_updates" ∧ frame.symbol = sym then frame.changes else [] :=
    List.flatMap_singleton _ _
  rw [hchanges]
  by_cases htype : frame.type = some "l2_updates"
  · by_cases hown : frame.symbol = sym
    · subst hown
      simp only [onFrame, htype, hsym, if_true, and_self, Dict.getD, Dict.get?_set_self,
        Option.getD_some]
    · have hne : sym ≠ frame.symbol := Ne.symm hown
      simp only [onFrame, htype, hown, if_true, and_false, if_false, List.foldl_nil, Dict.getD]
      cases canonicalOf upper lower reverse frame.symbol with
      | none => rfl
      | some _ => simp only [Dict.get?_set_ne _ _ hne]
  · simp only [onFrame, htype, if_false, false_and, List.foldl_nil]

/-- What is tracked for a symbol comes from all its changes so far, whatever connection they came
on. -/
theorem best_spec {sym canonical : String}
    (hsym : canonicalOf upper lower reverse sym = some canonical) (past : List QuoteFrame) :
    (stateAfter (onFrame upper lower reverse) Dict.empty past).getD sym noBest =
      (changesOf sym past).foldl track noBest := by
  induction past using List.reverseRecOn with
  | nil => rfl
  | append_singleton past frame ih =>
      rw [stateAfter_concat, onFrame_best hsym, ih, changesOf_append, List.foldl_append]

lemma onFrame_quote {best : Dict String Best} {frame : QuoteFrame} {q : Quote}
    (h : q ∈ (onFrame upper lower reverse best frame).2) :
    ∃ canonical b, canonicalOf upper lower reverse frame.symbol = some canonical ∧
      b = (changesOf frame.symbol [frame]).foldl track (best.getD frame.symbol noBest) ∧
      0 < b.bid ∧ 0 < b.ask ∧ (q.bidPx, q.bidSz) = (b.bid, b.bidSz) ∧
      (q.askPx, q.askSz) = (b.ask, b.askSz) := by
  by_cases htype : frame.type = some "l2_updates"
  · cases hsym : canonicalOf upper lower reverse frame.symbol with
    | none =>
        simp only [onFrame, htype, hsym, if_true] at h
        cases h
    | some canonical =>
        have hchanges : changesOf frame.symbol [frame] = frame.changes := by
          simp [changesOf, htype]
        simp only [onFrame, htype, hsym, if_true] at h
        rw [hchanges]
        split at h
        · rename_i hpos
          have heq := List.mem_singleton.1 h
          refine ⟨canonical, _, rfl, rfl, hpos.1, hpos.2, ?_, ?_⟩
          · rw [heq]
          · rw [heq]
        · cases h
  · simp only [onFrame, htype, if_false] at h
    cases h

end Run

/-- `stream_quotes` yields at the moments of its connections.  On a book that is never crossed,
what it yields is the best bid and offer exactly if nothing better than the book has been set
before. -/
theorem quotes_exact_iff (upper lower : String → String)
    (reverse : Dict (String × String) String) (connections : List (List QuoteFrame))
    (hcross : NeverCrossed connections) :
    streamQuotes upper lower reverse connections =
        (moments connections).flatMap (outputAt (onFrame upper lower reverse) Dict.empty) ∧
      ∀ m ∈ moments connections,
        ∀ q ∈ outputAt (onFrame upper lower reverse) Dict.empty m,
          ShowsBest m q ↔ NothingBetterGone m := by
  refine ⟨outputs_flatten _ _ _, ?_⟩
  intro m hm q hq
  rcases onFrame_quote hq with ⟨canonical, b, hsym, hb, hbid, hask, hbids, hasks⟩
  have hall : b = (changesOf m.message.symbol (m.earlier ++ m.since)).foldl track noBest := by
    rw [hb, best_spec hsym, Moment.since, ← List.append_assoc, changesOf_append,
      List.foldl_append]
    rfl
  have hsplit : ∀ side, sideOf side (changesOf m.message.symbol (m.earlier ++ m.since)) =
      sideOf side (changesOf m.message.symbol m.earlier) ++
        sideOf side (changesOf m.message.symbol m.since) := by
    intro side
    rw [changesOf_append, sideOf, List.filter_append, List.map_append]
    rfl
  have hspec := track_spec (changesOf m.message.symbol (m.earlier ++ m.since))
  rw [← hall] at hspec
  -- A quote is only yielded when both sides have been set.
  have hbest : IsBest (· ≥ ·) (setOn .buy (changesOf m.message.symbol (m.earlier ++ m.since)))
      (b.bid, b.bidSz) :=
    (hspec.1.resolve_left fun h => hbid.ne' h.2).2
  have hbest' : IsBest (· ≤ ·) (setOn .sell (changesOf m.message.symbol (m.earlier ++ m.since)))
      (b.ask, b.askSz) :=
    (hspec.2.resolve_left fun h => hask.ne' h.2).2
  rw [setOn, hsplit] at hbest hbest'
  have hbuy := isBest_live_iff hbest
  have hsell := isBest_live_iff hbest'
  rw [← hsplit] at hbuy hsell
  unfold ShowsBest NothingBetterGone
  rw [hbids, hasks]
  constructor
  · rintro ⟨hshow, hshow', _⟩
    exact ⟨hbuy.1 hshow, hsell.1 hshow'⟩
  · rintro ⟨hgone, hgone'⟩
    have hlive := hbuy.2 hgone
    have hlive' := hsell.2 hgone'
    refine ⟨hlive, hlive', ?_⟩
    -- Both are live, so they are not crossed.
    have hapart := hcross m hm _ hlive.1 _ hlive'.1
    rwa [(Prod.mk.inj hbids).1, (Prod.mk.inj hasks).1]

/-- The registry of one symbol. -/
def oneSymbol : Dict (String × String) String :=
  ⟨[(("gemini", "BTCUSD"), "BTC-USD")], by decide⟩

def fullBook : QuoteFrame :=
  ⟨some "l2_updates", 1, "BTCUSD", [⟨.buy, 100, 1, by decide⟩, ⟨.buy, 98, 2, by decide⟩,
    ⟨.sell, 101, 1, by decide⟩]⟩

/-- The best bid is removed, and a lower ask comes in. -/
def laterChanges : QuoteFrame :=
  ⟨some "l2_updates", 2, "BTCUSD", [⟨.buy, 100, 0, by decide⟩, ⟨.sell, 99, 3, by decide⟩]⟩

lemma laterChanges_neverCrossed : NeverCrossed [[fullBook, laterChanges]] := by
  unfold NeverCrossed
  decide +kernel

theorem quotes_exact_iff_full_book :
    ∃ q ∈ outputAt (onFrame String.toUpper String.toLower oneSymbol) Dict.empty
      ⟨[], [], fullBook⟩, ShowsBest ⟨[], [], fullBook⟩ q := by
  have hyield : outputAt (onFrame String.toUpper String.toLower oneSymbol) Dict.empty
      ⟨[], [], fullBook⟩ = [⟨1, 1, "BTC-USD", "gemini", 100, 101, 1, 1⟩] := by decide +kernel
  have hiff := (quotes_exact_iff String.toUpper String.toLower oneSymbol
    [[fullBook, laterChanges]] laterChanges_neverCrossed).2 ⟨[], [], fullBook⟩ List.mem_cons_self _
    (hyield ▸ List.mem_cons_self)
  refine ⟨_, hyield ▸ List.mem_cons_self, hiff.2 ?_⟩
  unfold NothingBetterGone
  decide +kernel

/-- The removed bid is quoted, above the best ask. -/
theorem removed_bid_is_quoted :
    NeverCrossed [[fullBook, laterChanges]] ∧
      ¬ ∀ m ∈ moments [[fullBook, laterChanges]],
          ∀ q ∈ outputAt (onFrame String.toUpper String.toLower oneSymbol) Dict.empty m,
            ShowsBest m q := by
  refine ⟨laterChanges_neverCrossed, ?_⟩
  intro h
  have hyield : outputAt (onFrame String.toUpper String.toLower oneSymbol) Dict.empty
      ⟨[], [fullBook], laterChanges⟩ = [⟨2, 2, "BTC-USD", "gemini", 100, 99, 1, 3⟩] := by
    decide +kernel
  have hshows := h ⟨[], [fullBook], laterChanges⟩ (List.mem_cons_of_mem _ List.mem_cons_self) _
    (hyield ▸ List.mem_cons_self)
  have hapart := hshows.2.2
  revert hapart
  decide +kernel

end GeminiSpot

end CryptoData
