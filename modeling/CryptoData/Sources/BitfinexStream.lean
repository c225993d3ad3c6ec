import CryptoData.Core.SymbolIndex
import CryptoData.Core.Trade
import CryptoData.Foundation.NameOrder
import CryptoData.Sources.Bitfinex
import Mathlib.Algebra.BigOperators.Group.Multiset.Basic
import Mathlib.Tactic.Abel

/-!
# BitfinexStream — the live trades of the spot adapter

`streamTrades` keeps a map from channel ids to canonical symbols for each connection and turns
every row of a list on a known channel into a trade, whether the list is the snapshot after the
subscription or one of the two messages by which the venue announces an execution.

On every run of the venue's protocol no trade is yielded twice exactly if no `tu` message arrives
on a known channel and no two subscriptions of one symbol report the same trade
(`live_trades_unique_iff`).
-/

namespace CryptoData

open Foundation

namespace BitfinexSpot

/-! ## The adapter -/

/-- What can stand behind the channel id in a list of the socket. -/
inductive Item
  | text (s : String)
  | number (q : ℚ)
  | row (fields : List ℚ)
  | table (rows : List (List ℚ))

/-- An object of the socket, with the fields that the adapter reads. -/
structure Reply where
  event : Option String
  channel : Option String
  chanId : Int
  symbol : Option String
  pair : Option String

inductive Frame
  /-- No JSON, or neither an object nor the list of a channel. -/
  | other
  | object (reply : Reply)
  | list (chanId : Int) (items : List Item)

/-- The lists in a payload. -/
def Item.rows : Item → List (List ℚ)
  | .text _ => []
  | .number _ => []
  | .row fields => [fields]
  | .table rows => rows

/-- The rows of a message, from what stands behind its channel id. -/
def rowsOf : List Item → List (List ℚ)
  | [] => []
  | .text tag :: rest =>
      -- `hb` and the like
      if tag = "te" ∨ tag = "tu" then (rest.headD (.text tag)).rows else []
  | first :: rest => (rest.headD first).rows

/-- `int(x)` of a number. -/
def truncate (q : ℚ) : Int :=
  q.num.tdiv q.den

/-- The trade of a row; `none` where it has less than four entries. -/
def tradeOf (canonical : String) (recvNs : Int) : List ℚ → Option Trade
  | tid :: mts :: amount :: price :: _ =>
      some
        { tsNs := truncate mts * 1000000
          recvNs := some recvNs
          symbol := canonical
          venue := some "bitfinex"
          price := price
          size := some |amount|
          side := if amount > 0 then 1 else -1
          tradeId := some (toString tid) }
  | _ => none

section Stream

variable (upper : String → String) (reverse : Dict (String × String) String)

/-- `to_canonical(symbol) or to_canonical(pair)`, unless it is empty. -/
def channelSymbol (symbol pair : String) : Option String :=
  let known := fun native =>
    (toCanonical upper reverse native "bitfinex").filter fun c => decide (c ≠ "")
  (known symbol).or (known pair)

/-- The body of the inner loop: the channel map and the trades that are yielded. -/
def onFrame (chan : Dict Int String) (recvNs : Int) : Frame → Dict Int String × List Trade
  | .other => (chan, [])
  | .object reply =>
      if reply.event = some "subscribed" ∧ reply.channel = some "trades" then
        match channelSymbol upper reverse (reply.symbol.getD "") (reply.pair.getD "") with
        | some canonical => (chan.set reply.chanId canonical, [])
        -- `if canonical:`, so the channel stays unknown
        | none => (chan, [])
      else (chan, [])
  | .list chanId items =>
      match chan.get? chanId with
      | none => (chan, [])
      -- `te` and `tu` go the same way
      | some canonical => (chan, (rowsOf items).filterMap (tradeOf canonical recvNs))

/-- One connection: its frames with the clock readings at their arrival. -/
def streamConnection : Dict Int String → List (Int × Frame) → List Trade
  | _, [] => []
  | chan, (recvNs, frame) :: frames =>
      let next := onFrame upper reverse chan recvNs frame
      next.2 ++ streamConnection next.1 frames

/-- `stream_trades(symbols)`; every connection starts with an empty channel map. -/
def streamTrades (connections : List (List (Int × Frame))) : List Trade :=
  connections.flatMap (streamConnection upper reverse Dict.empty)

end Stream

/-! ## The protocol of the venue -/

/-- What the venue sends. -/
inductive Event
  | notice (reply : Reply)
  | subscribed (chanId : Int) (symbol pair : String)
  | snapshot (chanId : Int) (rows : List HistRow)
  | te (chanId : Int) (row : HistRow)
  | tu (chanId : Int) (row : HistRow)
  | hb (chanId : Int)

def HistRow.fields (r : HistRow) : List ℚ :=
  [r.id, r.mts, r.amount, r.price]

def Event.frame : Event → Frame
  | .notice reply => .object reply
  | .subscribed chanId symbol pair =>
      .object ⟨some "subscribed", some "trades", chanId, some symbol, some pair⟩
  | .snapshot chanId rows => .list chanId [.table (rows.map HistRow.fields)]
  | .te chanId row => .list chanId [.text "te", .row row.fields]
  | .tu chanId row => .list chanId [.text "tu", .row row.fields]
  | .hb chanId => .list chanId [.text "hb"]

/-- A subscription as the venue knows it; `sent` is `none` until the snapshot. -/
structure Channel where
  symbol : String
  pair : String
  sent : Option (List Int)

/-- The ids of the trades that a channel has reported. -/
def Channel.ids (ch : Channel) : List Int :=
  ch.sent.getD []

/-- A subscription opens a fresh channel, a snapshot comes first on it, `te` announces a new trade
and `tu` one that has been reported. -/
inductive Sends : Dict Int Channel → Event → Dict Int Channel → Prop
  | notice {channels reply}
      (h : ¬ (reply.event = some "subscribed" ∧ reply.channel = some "trades")) :
      Sends channels (.notice reply) channels
  | subscribed {channels chanId} (symbol pair : String) (hfresh : chanId ∉ channels.keys) :
      Sends channels (.subscribed chanId symbol pair)
        (channels.set chanId ⟨symbol, pair, none⟩)
  | snapshot {channels chanId rows symbol pair}
      (hopen : channels.get? chanId = some ⟨symbol, pair, none⟩)
      (hids : (rows.map HistRow.id).Nodup) :
      Sends channels (.snapshot chanId rows)
        (channels.set chanId ⟨symbol, pair, some (rows.map HistRow.id)⟩)
  | te {channels chanId row symbol pair ids}
      (hlive : channels.get? chanId = some ⟨symbol, pair, some ids⟩) (hnew : row.id ∉ ids) :
      Sends channels (.te chanId row)
        (channels.set chanId ⟨symbol, pair, some (ids ++ [row.id])⟩)
  | tu {channels chanId row symbol pair ids}
      (hlive : channels.get? chanId = some ⟨symbol, pair, some ids⟩) (hold : row.id ∈ ids) :
      Sends channels (.tu chanId row) channels
  | hb {channels} (chanId : Int) : Sends channels (.hb chanId) channels

inductive Conforms : Dict Int Channel → List (Int × Event) → Dict Int Channel → Prop
  | nil (channels) : Conforms channels [] channels
  | cons {channels channels' channels''} {recvNs : Int} {e : Event} {events}
      (hsend : Sends channels e channels') (hrest : Conforms channels' events channels'') :
      Conforms channels ((recvNs, e) :: events) channels''

/-- A connection on which the venue keeps to its protocol, with the channels at its end. -/
structure Connection where
  events : List (Int × Event)
  channels : Dict Int Channel
  conforms : Conforms Dict.empty events channels

def framesOf (events : List (Int × Event)) : List (Int × Frame) :=
  events.map fun e => (e.1, e.2.frame)

def Connection.frames (c : Connection) : List (Int × Frame) :=
  framesOf c.events

section Accounting

variable (upper : String → String) (reverse : Dict (String × String) String)

/-- The canonical symbol of a channel, where the registry knows its pair. -/
def symbolAt (channels : Dict Int Channel) (chanId : Int) : Option String :=
  (channels.get? chanId).bind fun ch => channelSymbol upper reverse ch.symbol ch.pair

/-- A `tu` message arrives on a channel whose pair the registry knows. -/
def Connection.UpdatesKnown (c : Connection) : Prop :=
  ∃ e ∈ c.events, ∃ chanId row,
    e.2 = .tu chanId row ∧ symbolAt upper reverse c.channels chanId ≠ none

/-- The subscriptions of pairs that the registry knows: canonical symbol, reported trade ids. -/
def subscriptions (channels : List (Int × Channel)) : List (String × List Int) :=
  channels.filterMap fun e =>
    (channelSymbol upper reverse e.2.symbol e.2.pair).map fun canonical => (canonical, e.2.ids)

def Connection.subscriptions (c : Connection) : List (String × List Int) :=
  BitfinexSpot.subscriptions upper reverse c.channels.entries

/-- Two subscriptions do not report one trade of one symbol. -/
def Apart (s t : String × List Int) : Prop :=
  s.1 = t.1 → s.2.Disjoint t.2

/-- The trades of a subscription. -/
def tradesOf (s : String × List Int) : List (String × Int) :=
  s.2.map fun id => (s.1, id)

/-- Trade ids of a channel under its canonical symbol. -/
def named (channels : Dict Int Channel) (chanId : Int) (ids : List Int) : List (String × Int) :=
  (symbolAt upper reverse channels chanId).elim [] fun canonical =>
    ids.map fun id => (canonical, id)

/-- The trades that a message reports for the first time on its channel. -/
def fresh (channels : Dict Int Channel) : Event → List (String × Int)
  | .snapshot chanId rows => named upper reverse channels chanId (rows.map HistRow.id)
  | .te chanId row => named upper reverse channels chanId [row.id]
  | _ => []

/-- The trade that a `tu` message reports once more. -/
def repeated (channels : Dict Int Channel) : Event → List (String × Int)
  | .tu chanId row => named upper reverse channels chanId [row.id]
  | _ => []

/-- The trades that are reported once more over a run, under the symbols known at its end. -/
def repeats (channels : Dict Int Channel) (events : List (Int × Event)) : List (String × Int) :=
  events.flatMap fun e => repeated upper reverse channels e.2

/-- What one channel has reported. -/
def share (_chanId : Int) (ch : Channel) : Multiset (String × Int) :=
  (channelSymbol upper reverse ch.symbol ch.pair).elim 0 fun canonical =>
    ch.ids.map fun id => (canonical, id)

/-- Everything that the channels have reported, each channel by itself. -/
def reported (channels : Dict Int Channel) : Multiset (String × Int) :=
  channels.measure (share upper reverse)

/-- Symbol and trade id of a yielded trade, from the symbol and the id on the channel. -/
def tag (p : String × Int) : String × Option String :=
  (p.1, some (toString p.2))

def tradeKey (t : Trade) : String × Option String :=
  (t.symbol, t.tradeId)

lemma tag_injective : Function.Injective tag := by
  rintro ⟨s, i⟩ ⟨s', i'⟩ h
  have hparts := Prod.mk.inj h
  have hid : i = i' := toString_injective (Option.some.inj hparts.2)
  rw [hid, show s = s' from hparts.1]

lemma toString_intCast (n : Int) : toString (n : ℚ) = toString n := by
  have hden : (n : ℚ).den = 1 := Rat.den_intCast n
  simp [toString, hden]

/-! ## One message -/

lemma tradeKey_tradeOf (canonical : String) (recvNs : Int) (rows : List HistRow) :
    ((rows.map HistRow.fields).filterMap (tradeOf canonical recvNs)).map tradeKey =
      (rows.map HistRow.id).map fun id => tag (canonical, id) := by
  induction rows with
  | nil => rfl
  | cons r rows ih =>
      have hkey : (tradeOf canonical recvNs r.fields).map tradeKey =
          some (tag (canonical, r.id)) := by
        simp [tradeOf, HistRow.fields, tradeKey, tag, toString_intCast]
      rcases Option.map_eq_some_iff.1 hkey with ⟨t, ht, htag⟩
      rw [List.map_cons, List.filterMap_cons_some ht, List.map_cons, htag, ih]
      rfl

variable {upper reverse}

lemma named_nil (channels : Dict Int Channel) (chanId : Int) :
    named upper reverse channels chanId [] = [] := by
  unfold named
  cases symbolAt upper reverse channels chanId <;> rfl

variable {channels channels' : Dict Int Channel} {chan : Dict Int String} {e : Event}

/-- The adapter yields a trade for every row of a list on a known channel. -/
lemma onFrame_list_keys (hchan : ∀ c, chan.get? c = symbolAt upper reverse channels c)
    (recvNs chanId : Int) {items : List Item} (rows : List HistRow)
    (hitems : rowsOf items = rows.map HistRow.fields) :
    (onFrame upper reverse chan recvNs (.list chanId items)).2.map tradeKey =
      (named upper reverse channels chanId (rows.map HistRow.id)).map tag := by
  simp only [onFrame, named, hchan chanId, hitems]
  cases symbolAt upper reverse channels chanId with
  | none => rfl
  | some canonical =>
      have hkeys := tradeKey_tradeOf canonical recvNs rows
      simpa [Function.comp_def] using hkeys

lemma onFrame_keys (hchan : ∀ c, chan.get? c = symbolAt upper reverse channels c)
    (recvNs : Int) (h : Sends channels e channels') :
    (onFrame upper reverse chan recvNs e.frame).2.map tradeKey =
      (fresh upper reverse channels e ++ repeated upper reverse channels e).map tag := by
  -- Only lists yield anything; each of them is read by `onFrame_list_keys`.
  cases h with
  | notice hother => simp [Event.frame, onFrame, hother, fresh, repeated]
  | subscribed symbol pair _ =>
      simp only [Event.frame, onFrame, and_self, if_true]
      split <;> rfl
  | snapshot _ _ =>
      refine (onFrame_list_keys hchan recvNs _ _ rfl).trans ?_
      simp [fresh, repeated]
  | @te _ row _ _ _ _ _ =>
      refine (onFrame_list_keys hchan recvNs _ [row] rfl).trans ?_
      simp [fresh, repeated]
  | @tu _ row _ _ _ _ _ =>
      refine (onFrame_list_keys hchan recvNs _ [row] rfl).trans ?_
      simp [fresh, repeated]
  | hb chanId =>
      refine (onFrame_list_keys hchan recvNs _ [] rfl).trans ?_
      simp [fresh, repeated, named_nil]

/-- More trades on a channel do not change whose channel it is. -/
lemma symbolAt_set {chanId : Int} {symbol pair : String} {sent sent' : Option (List Int)}
    (hget : channels.get? chanId = some ⟨symbol, pair, sent⟩) (c : Int) :
    symbolAt upper reverse (channels.set chanId ⟨symbol, pair, sent'⟩) c =
      symbolAt upper reverse channels c := by
  unfold symbolAt
  by_cases hc : c = chanId
  · rw [hc, Dict.get?_set_self, hget, Option.bind_some, Option.bind_some]
  · rw [Dict.get?_set_ne _ _ hc]

/-- The channel map knows the open channels whose pair the registry knows. -/
lemma onFrame_chan (hchan : ∀ c, chan.get? c = symbolAt upper reverse channels c)
    (recvNs : Int) (h : Sends channels e channels') (c : Int) :
    (onFrame upper reverse chan recvNs e.frame).1.get? c = symbolAt upper reverse channels' c := by
  have hlist : ∀ chanId items,
      (onFrame upper reverse chan recvNs (.list chanId items)).1 = chan := by
    intro chanId items
    simp only [onFrame]
    cases chan.get? chanId <;> rfl
  cases h with
  | notice hother =>
      rw [← hchan c]
      simp [Event.frame, onFrame, hother]
  | @subscribed chanId symbol pair hfresh =>
      have hnone : channels.get? chanId = none := Dict.get?_eq_none_iff.2 hfresh
      unfold Event.frame onFrame
      simp only [and_self, if_true, Option.getD_some]
      cases hsymbol : channelSymbol upper reverse symbol pair with
      | none =>
          by_cases hc : c = chanId
          · simp [hc, hchan, symbolAt, hnone, hsymbol]
          · simp [hchan, symbolAt, Dict.get?_set_ne _ _ hc]
      | some canonical =>
          by_cases hc : c = chanId
          · simp [hc, symbolAt, hsymbol]
          · simp [hchan, symbolAt, Dict.get?_set_ne _ _ hc]
  | snapshot hopen _ => rw [Event.frame, hlist, symbolAt_set hopen, hchan]
  | te hlive _ => rw [Event.frame, hlist, symbolAt_set hlive, hchan]
  | tu _ _ => rw [Event.frame, hlist, hchan]
  | hb _ => rw [Event.frame, hlist, hchan]

/-- What is reported grows by what is fresh. -/
lemma reported_eq (h : Sends channels e channels') :
    reported upper reverse channels' =
      reported upper reverse channels + (fresh upper reverse channels e : Multiset _) := by
  have hset : ∀ {chanId symbol pair sent} (ids new : List Int),
      channels.get? chanId = some ⟨symbol, pair, sent⟩ → sent.getD [] = ids →
      reported upper reverse (channels.set chanId ⟨symbol, pair, some (ids ++ new)⟩) =
        reported upper reverse channels +
          (named upper reverse channels chanId new : Multiset _) := by
    intro chanId symbol pair sent ids new hget hids
    -- The share of the channel grows by the new ids, if its pair is known.
    refine Dict.measure_set_add ?_
    rw [hget, Option.elim_some]
    unfold share named symbolAt Channel.ids
    rw [hget, Option.bind_some]
    cases channelSymbol upper reverse symbol pair with
    | none => rfl
    | some canonical => simp [hids]
  cases h with
  | notice _ => exact (add_zero _).symm
  | subscribed symbol pair hfresh =>
      refine Dict.measure_set_add ?_
      rw [Dict.get?_eq_none_iff.2 hfresh]
      unfold share Channel.ids
      cases channelSymbol upper reverse symbol pair <;> rfl
  | snapshot hopen _ => exact hset [] _ hopen rfl
  | te hlive _ => exact hset _ _ hlive rfl
  | tu _ _ => exact (add_zero _).symm
  | hb _ => exact (add_zero _).symm

/-- What `tu` reports has been reported before. -/
lemma mem_reported_of_repeated {p : String × Int} (h : Sends channels e channels')
    (hp : p ∈ repeated upper reverse channels e) : p ∈ reported upper reverse channels := by
  cases h with
  | @tu chanId row symbol pair ids hlive hold =>
      have hsplit := Dict.measure_erase channels chanId (share upper reverse)
      rw [reported, hsplit, hlive, Option.elim_some]
      refine Multiset.mem_add.2 (Or.inl ?_)
      simp only [repeated, named, symbolAt, hlive, Option.bind_some] at hp
      unfold share Channel.ids
      cases hsymbol : channelSymbol upper reverse symbol pair with
      | none =>
          rw [hsymbol] at hp
          cases hp
      | some canonical =>
          rw [hsymbol] at hp
          have heq : p = (canonical, row.id) := List.mem_singleton.1 hp
          rw [heq]
          exact Multiset.mem_coe.2 (List.mem_map.2 ⟨row.id, hold, rfl⟩)
  | notice _ => cases hp
  | subscribed _ _ _ => cases hp
  | snapshot _ _ => cases hp
  | te _ _ => cases hp
  | hb _ => cases hp

/-- An open channel stays open and keeps its pair. -/
lemma symbolAt_stable (h : Sends channels e channels') {c : Int} (hc : c ∈ channels.keys) :
    c ∈ channels'.keys ∧ ∀ upper reverse,
      symbolAt upper reverse channels' c = symbolAt upper reverse channels c := by
  cases h with
  | notice _ => exact ⟨hc, fun _ _ => rfl⟩
  | @subscribed chanId _ _ hfresh =>
      have hne : c ≠ chanId := by
        rintro rfl
        exact hfresh hc
      refine ⟨Dict.mem_keys_set.2 (Or.inr hc), ?_⟩
      intro upper reverse
      rw [symbolAt, symbolAt, Dict.get?_set_ne _ _ hne]
  | snapshot hopen _ => exact ⟨Dict.mem_keys_set.2 (Or.inr hc), fun _ _ => symbolAt_set hopen c⟩
  | te hlive _ => exact ⟨Dict.mem_keys_set.2 (Or.inr hc), fun _ _ => symbolAt_set hlive c⟩
  | tu _ _ => exact ⟨hc, fun _ _ => rfl⟩
  | hb _ => exact ⟨hc, fun _ _ => rfl⟩

/-! ## One connection -/

variable {events : List (Int × Event)}

lemma conforms_stable (h : Conforms channels events channels') {c : Int}
    (hc : c ∈ channels.keys) :
    symbolAt upper reverse channels' c = symbolAt upper reverse channels c := by
  induction h with
  | nil => rfl
  | cons hsend _ ih =>
      have hstep := symbolAt_stable hsend hc
      rw [ih hstep.1, hstep.2 upper reverse]

lemma repeated_stable {channels'' : Dict Int Channel} (h : Sends channels e channels')
    (hrest : Conforms channels' events channels'') :
    repeated upper reverse channels'' e = repeated upper reverse channels e := by
  cases h with
  | tu hlive _ =>
      have hc := Dict.mem_keys_of_mem (Dict.get?_eq_some_iff.1 hlive)
      simp only [repeated, named, conforms_stable hrest hc]
  | notice _ => rfl
  | subscribed _ _ _ => rfl
  | snapshot _ _ => rfl
  | te _ _ => rfl
  | hb _ => rfl

lemma repeats_cons {channels'' : Dict Int Channel} (recvNs : Int)
    (h : Sends channels e channels') (hrest : Conforms channels' events channels'') :
    repeats upper reverse channels'' ((recvNs, e) :: events) =
      repeated upper reverse channels e ++ repeats upper reverse channels'' events := by
  rw [← repeated_stable h hrest]
  rfl

lemma reported_le (h : Conforms channels events channels') :
    reported upper reverse channels ≤ reported upper reverse channels' := by
  induction h with
  | nil => exact le_refl _
  | cons hsend _ ih =>
      refine le_trans ?_ ih
      rw [reported_eq hsend]
      exact Multiset.le_add_right _ _

lemma mem_reported_of_repeats (h : Conforms channels events channels') :
    ∀ p ∈ repeats upper reverse channels' events, p ∈ reported upper reverse channels' := by
  induction h with
  | nil =>
      intro p hp
      cases hp
  | cons hsend hrest ih =>
      intro p hp
      rw [repeats_cons _ hsend hrest] at hp
      rcases List.mem_append.1 hp with hp | hp
      · have hmem := mem_reported_of_repeated hsend hp
        exact Multiset.mem_of_le (le_trans (reported_eq hsend ▸ Multiset.le_add_right _ _)
          (reported_le hrest)) hmem
      · exact ih p hp

/-- What a run yields, together with what had been reported before it: everything that has been
reported at its end, and once more what `tu` has repeated. -/
theorem streamConnection_keys (h : Conforms channels events channels')
    (hchan : ∀ c, chan.get? c = symbolAt upper reverse channels c) :
    (((streamConnection upper reverse chan (framesOf events)).map tradeKey : Multiset _)) +
        (reported upper reverse channels).map tag =
      (reported upper reverse channels' + (repeats upper reverse channels' events : Multiset _)).map
        tag := by
  induction h generalizing chan with
  | nil => simp [streamConnection, framesOf, repeats]
  | @cons channels mid channels' recvNs e events hsend hrest ih =>
      have hrest' := ih (onFrame_chan hchan recvNs hsend)
      have hframe := onFrame_keys hchan recvNs hsend
      have hyield : (streamConnection upper reverse chan
          (framesOf ((recvNs, e) :: events))).map tradeKey =
          (fresh upper reverse channels e ++ repeated upper reverse channels e).map tag ++
            (streamConnection upper reverse
              (onFrame upper reverse chan recvNs e.frame).1 (framesOf events)).map tradeKey := by
        rw [← hframe, ← List.map_append]
        rfl
      rw [hyield, repeats_cons recvNs hsend hrest]
      rw [reported_eq hsend] at hrest'
      simp only [← Multiset.coe_add, ← Multiset.map_coe, Multiset.map_add] at hrest' ⊢
      -- What is new here has been reported before the later messages; what is repeated is not new.
      generalize Multiset.map tag (fresh upper reverse channels e : Multiset _) = new at hrest' ⊢
      generalize Multiset.map tag (repeated upper reverse channels e : Multiset _) = again
      generalize Multiset.map tag (reported upper reverse channels) = before at hrest' ⊢
      generalize Multiset.map tradeKey (streamConnection upper reverse _ _ : Multiset _) = later
        at hrest' ⊢
      calc
        new + again + later + before = (later + (before + new)) + again := by abel
        _ = _ := by
            rw [hrest', add_assoc, add_comm again]

/-- A channel reports a trade for the first time only once. -/
lemma ids_nodup (h : Conforms channels events channels')
    (hids : ∀ e ∈ channels.entries, e.2.ids.Nodup) : ∀ e ∈ channels'.entries, e.2.ids.Nodup := by
  induction h with
  | nil => exact hids
  | cons hsend _ ih =>
      refine ih ?_
      rintro ⟨c, ch⟩ hmem
      cases hsend with
      | notice _ => exact hids _ hmem
      | subscribed _ _ _ =>
          rcases Dict.mem_set_iff.1 hmem with ⟨_, rfl⟩ | ⟨_, hold⟩
          · exact List.nodup_nil
          · exact hids _ hold
      | snapshot _ hrows =>
          rcases Dict.mem_set_iff.1 hmem with ⟨_, rfl⟩ | ⟨_, hold⟩
          · exact hrows
          · exact hids _ hold
      | te hlive hnew =>
          rcases Dict.mem_set_iff.1 hmem with ⟨_, rfl⟩ | ⟨_, hold⟩
          · have hbefore := hids _ (Dict.get?_eq_some_iff.1 hlive)
            exact List.concat_eq_append ▸ hbefore.concat hnew
          · exact hids _ hold
      | tu _ _ => exact hids _ hmem
      | hb _ => exact hids _ hmem

lemma subscriptions_nodup (c : Connection) :
    ∀ s ∈ c.subscriptions upper reverse, (tradesOf s).Nodup := by
  intro s hs
  have hids := ids_nodup c.conforms fun e he => absurd he List.not_mem_nil
  rcases List.mem_filterMap.1 hs with ⟨e, he, hsome⟩
  rcases Option.map_eq_some_iff.1 hsome with ⟨canonical, _, rfl⟩
  exact (hids e he).map fun i j hij => congrArg Prod.snd hij

lemma reported_eq_subscriptions (channels : Dict Int Channel) :
    reported upper reverse channels =
      ((subscriptions upper reverse channels.entries).flatMap tradesOf : Multiset _) := by
  unfold reported Dict.measure
  induction channels.entries with
  | nil => rfl
  | cons e entries ih =>
      rw [List.map_cons, List.sum_cons, ih]
      unfold share subscriptions
      cases hsymbol : channelSymbol upper reverse e.2.symbol e.2.pair with
      | none => simp [hsymbol]
      | some canonical => simp [hsymbol, tradesOf]

/-- One connection yields what its known channels have reported, and once more what `tu`
repeats. -/
lemma connection_keys_perm (c : Connection) :
    ((streamConnection upper reverse Dict.empty c.frames).map tradeKey).Perm
      (((c.subscriptions upper reverse).flatMap tradesOf ++
        repeats upper reverse c.channels c.events).map tag) := by
  refine Multiset.coe_eq_coe.1 ?_
  have hchan : ∀ k, (Dict.empty : Dict Int String).get? k = symbolAt upper reverse Dict.empty k :=
    fun _ => rfl
  have hkeys := streamConnection_keys c.conforms hchan
  have hstart : reported upper reverse Dict.empty = 0 := rfl
  rw [hstart, Multiset.map_zero, add_zero, reported_eq_subscriptions] at hkeys
  exact hkeys

/-! ## The whole run -/

/-- Symbol and trade id of the trades that `stream_trades` yields. -/
lemma streamTrades_keys_perm (connections : List Connection) :
    ((streamTrades upper reverse (connections.map Connection.frames)).map tradeKey).Perm
      (((connections.flatMap (Connection.subscriptions upper reverse)).flatMap tradesOf ++
        connections.flatMap fun c => repeats upper reverse c.channels c.events).map tag) := by
  unfold streamTrades
  rw [List.flatMap_map, List.map_flatMap, List.flatMap_assoc]
  refine (List.Perm.flatMap_left _ fun c _ => connection_keys_perm c).trans ?_
  rw [← List.map_flatMap]
  exact (List.flatMap_append_perm _ _ _).symm.map tag

lemma repeats_eq_nil_iff (c : Connection) :
    repeats upper reverse c.channels c.events = [] ↔ ¬ c.UpdatesKnown upper reverse := by
  unfold repeats
  rw [List.flatMap_eq_nil_iff]
  constructor
  · rintro hnil ⟨e, he, chanId, row, heq, hknown⟩
    have hnone := hnil e he
    rcases Option.ne_none_iff_exists'.1 hknown with ⟨canonical, hsymbol⟩
    rw [heq, repeated, named, hsymbol] at hnone
    cases hnone
  · rintro hquiet ⟨recvNs, e⟩ he
    cases e with
    | tu chanId row =>
        have hnone : symbolAt upper reverse c.channels chanId = none := by
          by_contra hknown
          exact hquiet ⟨_, he, chanId, row, rfl, hknown⟩
        simp [repeated, named, hnone]
    | notice _ => rfl
    | subscribed _ _ _ => rfl
    | snapshot _ _ => rfl
    | te _ _ => rfl
    | hb _ => rfl

/-- What the subscriptions report is free of repetitions exactly if they are apart. -/
lemma subscriptions_nodup_iff (connections : List Connection) :
    ((connections.flatMap (Connection.subscriptions upper reverse)).flatMap tradesOf).Nodup ↔
      (connections.flatMap (Connection.subscriptions upper reverse)).Pairwise Apart := by
  have hown : ∀ s ∈ connections.flatMap (Connection.subscriptions upper reverse),
      (tradesOf s).Nodup := by
    intro s hs
    rcases List.mem_flatMap.1 hs with ⟨c, _, hs⟩
    exact subscriptions_nodup c s hs
  have hapart : ∀ s t : String × List Int, (tradesOf s).Disjoint (tradesOf t) ↔ Apart s t := by
    rintro ⟨a, is⟩ ⟨b, js⟩
    constructor
    · rintro hdisj rfl i hi hj
      exact hdisj (List.mem_map.2 ⟨i, hi, rfl⟩) (List.mem_map.2 ⟨i, hj, rfl⟩)
    · intro h p hp hp'
      rcases List.mem_map.1 hp with ⟨i, hi, rfl⟩
      rcases List.mem_map.1 hp' with ⟨j, hj, heq⟩
      cases heq
      exact h rfl hi hj
  rw [List.nodup_flatMap]
  constructor
  · rintro ⟨_, hdisj⟩
    exact hdisj.imp fun {s t} h => (hapart s t).1 h
  · intro h
    exact ⟨hown, h.imp fun {s t} h => (hapart s t).2 h⟩

/-- No trade is yielded twice exactly if no `tu` message arrives on a known channel and no two
subscriptions report one trade of one symbol. -/
theorem live_trades_unique_iff (connections : List Connection) :
    ((streamTrades upper reverse (connections.map Connection.frames)).map tradeKey).Nodup ↔
      (∀ c ∈ connections, ¬ c.UpdatesKnown upper reverse) ∧
        (connections.flatMap (Connection.subscriptions upper reverse)).Pairwise Apart := by
  have hquiet : (connections.flatMap fun c => repeats upper reverse c.channels c.events) = [] ↔
      ∀ c ∈ connections, ¬ c.UpdatesKnown upper reverse := by
    rw [List.flatMap_eq_nil_iff]
    exact forall₂_congr fun c _ => repeats_eq_nil_iff c
  -- The trades are what has been reported and what `tu` repeats.
  rw [(streamTrades_keys_perm connections).nodup_iff, List.nodup_map_iff tag_injective,
    List.nodup_append', subscriptions_nodup_iff, ← hquiet]
  constructor
  · rintro ⟨hapart, _, hdisj⟩
    refine ⟨?_, hapart⟩
    -- What is repeated has been reported, so nothing is.
    refine List.eq_nil_iff_forall_not_mem.2 ?_
    intro p hp
    rcases List.mem_flatMap.1 hp with ⟨c, hc, hpc⟩
    have hreported := mem_reported_of_repeats c.conforms p hpc
    rw [reported_eq_subscriptions] at hreported
    rcases List.mem_flatMap.1 (Multiset.mem_coe.1 hreported) with ⟨s, hs, hps⟩
    exact hdisj (List.mem_flatMap.2 ⟨s, List.mem_flatMap.2 ⟨c, hc, hs⟩, hps⟩) hp
  · rintro ⟨hnil, hapart⟩
    rw [hnil]
    exact ⟨hapart, List.nodup_nil, List.disjoint_nil_right _⟩

end Accounting

/-- A subscription of BTC/USD, an empty snapshot and one execution with its two messages. -/
def oneExecution : Connection where
  events :=
    [(1778600000500000000, .subscribed 17 "tBTCUSD" "BTCUSD"),
      (1778600000510000000, .snapshot 17 []),
      (1778600000667000000, .te 17 ⟨1122334, 1778600000666, 21 / 10000, 612551 / 10⟩),
      (1778600000671000000, .tu 17 ⟨1122334, 1778600000666, 21 / 10000, 612551 / 10⟩)]
  channels := ⟨[(17, ⟨"tBTCUSD", "BTCUSD", some [1122334]⟩)], by decide⟩
  conforms := by
    refine .cons (.subscribed _ _ (by decide)) (.cons (.snapshot rfl List.nodup_nil) ?_)
    exact .cons (.te rfl List.not_mem_nil) (.cons (.tu rfl List.mem_cons_self) (.nil _))

/-- The trade of one execution is yielded twice. -/
theorem execution_is_yielded_twice :
    ¬ ((streamTrades String.toUpper ⟨[(("bitfinex", "TBTCUSD"), "BTC-USD")], by decide⟩
      [oneExecution.frames]).map tradeKey).Nodup := by
  decide +kernel

end BitfinexSpot

end CryptoData
