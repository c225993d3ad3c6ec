import CryptoData.Core.ReferenceData
import Mathlib.Data.List.Induction

/-!
# SymbolIndex — from canonical symbols to tickers and back

`_build_index` reads the tables of the configuration in their order.  The forward index keeps one
map for each canonical symbol, that of its last table; the reverse index keeps one symbol for each
(venue, ticker in upper case), that of the last table that lists the pair.

Translating there and back gives the symbol one started from, for everything the configuration
lists, exactly if the last table of a symbol lists every venue that an earlier one lists, and no
later table lists one of its pairs (`roundTrips_iff`).  The case conversion of tickers is a
parameter.
-/

namespace CryptoData

open Foundation

/-! ## The algorithm -/

/-- The entries of a `[[symbols]]` table other than its canonical symbol. -/
def nativesOf (entry : Dict String String) : Dict String String :=
  entry.filter fun e => decide (e.1 ≠ "canonical")

/-- The two dictionaries that `_build_index` returns. -/
structure SymbolIndex where
  byCanonical : Dict String SymbolMap
  reverse : Dict (String × String) String

section Index

variable (upper : String → String)

/-- The loop body; `none` is the `KeyError` of a table without `canonical`. -/
def addEntry (index : SymbolIndex) (entry : Dict String String) : Option SymbolIndex := do
  let canonical ← entry.get? "canonical"
  let natives := nativesOf entry
  some
    { byCanonical := index.byCanonical.set canonical ⟨canonical, natives⟩
      reverse := natives.entries.foldl
        (fun reverse n => reverse.set (n.1, upper n.2) canonical) index.reverse }

/-- `_build_index()` on the `symbols` of the configuration. -/
def buildIndex (symbols : List (Dict String String)) : Option SymbolIndex :=
  symbols.foldlM (addEntry upper) ⟨Dict.empty, Dict.empty⟩

/-- `to_canonical(native, venue)`. -/
def toCanonical (reverse : Dict (String × String) String) (native venue : String) :
    Option String :=
  reverse.get? (venue, upper native)

/-! ## What the index holds -/

/-- The table lists the pair of venue and ticker. -/
def Lists (entry : Dict String String) (key : String × String) : Prop :=
  ∃ n ∈ (nativesOf entry).entries, (n.1, upper n.2) = key

variable {upper}

/-- One table: its symbol gets its tickers, and the pairs that it lists get its symbol. -/
lemma addEntry_spec {index index' : SymbolIndex} {entry : Dict String String}
    (h : addEntry upper index entry = some index') :
    ∃ canonical, entry.get? "canonical" = some canonical ∧
      index'.byCanonical = index.byCanonical.set canonical ⟨canonical, nativesOf entry⟩ ∧
      (∀ key, Lists upper entry key → index'.reverse.get? key = some canonical) ∧
      ∀ key, ¬ Lists upper entry key → index'.reverse.get? key = index.reverse.get? key := by
  rcases Option.bind_eq_some_iff.1 h with ⟨canonical, hcanonical, hindex⟩
  have hindex' := Option.some.inj hindex
  have hnodup : ((nativesOf entry).entries.map fun n => (n.1, upper n.2)).Nodup := by
    refine List.Nodup.of_map Prod.fst ?_
    rw [List.map_map]
    exact (nativesOf entry).nodup
  have hget : ∀ key, index'.reverse.get? key =
      (((nativesOf entry).entries.find? fun n => decide ((n.1, upper n.2) = key)).map
        fun _ => canonical).or (index.reverse.get? key) := by
    intro key
    rw [← hindex']
    exact Dict.get?_foldl_set (fun n : String × String => (n.1, upper n.2)) (fun _ => canonical)
      key (nativesOf entry).entries index.reverse hnodup
  refine ⟨canonical, hcanonical, by rw [← hindex'], ?_, ?_⟩
  · rintro key ⟨n, hn, hkey⟩
    cases hfind : (nativesOf entry).entries.find? fun n => decide ((n.1, upper n.2) = key) with
    | none =>
        have hnot := List.find?_eq_none.1 hfind n hn
        exact absurd (decide_eq_true hkey) hnot
    | some m =>
        rw [hget key, hfind]
        rfl
  · intro key hnot
    have hfind : ((nativesOf entry).entries.find? fun n => decide ((n.1, upper n.2) = key)) =
        none := by
      refine List.find?_eq_none.2 ?_
      intro n hn hkey
      exact hnot ⟨n, hn, of_decide_eq_true hkey⟩
    rw [hget key, hfind]
    rfl

/-- What the remaining tables leave of the index. -/
lemma foldlM_addEntry {index' : SymbolIndex} :
    ∀ (post : List (Dict String String)) (index : SymbolIndex),
      post.foldlM (addEntry upper) index = some index' →
        (∀ canonical, (∀ later ∈ post, later.get? "canonical" ≠ some canonical) →
          index'.byCanonical.get? canonical = index.byCanonical.get? canonical) ∧
        ∀ key, ((∀ later ∈ post, ¬ Lists upper later key) ∧
            index'.reverse.get? key = index.reverse.get? key) ∨
          ∃ later ∈ post, Lists upper later key ∧
            index'.reverse.get? key = later.get? "canonical"
  | [], index, h => by
      have heq : index = index' := Option.some.inj h
      subst heq
      exact ⟨fun _ _ => rfl, fun key => Or.inl ⟨by simp, rfl⟩⟩
  | entry :: post, index, h => by
      rw [List.foldlM_cons] at h
      rcases Option.bind_eq_some_iff.1 h with ⟨mid, hmid, hrest⟩
      rcases addEntry_spec hmid with ⟨canonical, hcanonical, hforward, hlisted, hother⟩
      rcases foldlM_addEntry post mid hrest with ⟨ihForward, ihReverse⟩
      constructor
      · intro c hc
        have hne : c ≠ canonical := by
          rintro rfl
          exact hc entry List.mem_cons_self hcanonical
        rw [ihForward c fun later hlater => hc later (List.mem_cons_of_mem entry hlater), hforward,
          Dict.get?_set_ne _ _ hne]
      · intro key
        rcases ihReverse key with ⟨hnone, hkept⟩ | ⟨later, hlater, hlists, hget⟩
        · by_cases hentry : Lists upper entry key
          · refine Or.inr ⟨entry, List.mem_cons_self, hentry, ?_⟩
            rw [hkept, hlisted key hentry, hcanonical]
          · refine Or.inl ⟨?_, ?_⟩
            · intro later hlater
              rcases List.mem_cons.1 hlater with rfl | hlater
              · exact hentry
              · exact hnone later hlater
            · rw [hkept, hother key hentry]
        · exact Or.inr ⟨later, List.mem_cons_of_mem entry hlater, hlists, hget⟩

/-- The index around one table: its symbol, unless a later table has it too, and its pairs, each
unless a later table lists it too. -/
lemma buildIndex_split {index : SymbolIndex} {pre post : List (Dict String String)}
    {entry : Dict String String} (h : buildIndex upper (pre ++ entry :: post) = some index) :
    ∃ canonical, entry.get? "canonical" = some canonical ∧
      ((∀ later ∈ post, later.get? "canonical" ≠ some canonical) →
        index.byCanonical.get? canonical = some ⟨canonical, nativesOf entry⟩) ∧
      ∀ key, Lists upper entry key →
        ((∀ later ∈ post, ¬ Lists upper later key) ∧
            index.reverse.get? key = some canonical) ∨
          ∃ later ∈ post, Lists upper later key ∧
            index.reverse.get? key = later.get? "canonical" := by
  rw [buildIndex, List.foldlM_append] at h
  rcases Option.bind_eq_some_iff.1 h with ⟨start, _, hrest⟩
  rw [List.foldlM_cons] at hrest
  rcases Option.bind_eq_some_iff.1 hrest with ⟨mid, hmid, hpost⟩
  rcases addEntry_spec hmid with ⟨canonical, hcanonical, hforward, hlisted, _⟩
  rcases foldlM_addEntry post mid hpost with ⟨hkeptForward, hkeptReverse⟩
  refine ⟨canonical, hcanonical, ?_, ?_⟩
  · intro hlast
    rw [hkeptForward canonical hlast, hforward, Dict.get?_set_self]
  · intro key hkey
    rcases hkeptReverse key with ⟨hnone, hkept⟩ | hlater
    · exact Or.inl ⟨hnone, by rw [hkept, hlisted key hkey]⟩
    · exact Or.inr hlater

end Index

/-- Among the elements of a list with a property there is a last one. -/
lemma exists_last {α : Type*} (P : α → Prop) (l : List α) {x : α} (hx : x ∈ l) (hP : P x) :
    ∃ pre y post, l = pre ++ y :: post ∧ P y ∧ (∀ z ∈ post, ¬ P z) ∧ (x = y ∨ x ∈ pre) := by
  induction l using List.reverseRecOn with
  | nil => cases hx
  | append_singleton l a ih =>
      by_cases ha : P a
      · refine ⟨l, a, [], rfl, ha, by simp, ?_⟩
        rcases List.mem_append.1 hx with hx | hx
        · exact Or.inr hx
        · exact Or.inl (List.mem_singleton.1 hx)
      · have hin : x ∈ l := by
          rcases List.mem_append.1 hx with hx | hx
          · exact hx
          · rw [List.mem_singleton.1 hx] at hP
            exact absurd hP ha
        rcases ih hin with ⟨pre, y, post, rfl, hy, hpost, hmem⟩
        refine ⟨pre, y, post ++ [a], by simp, hy, ?_, hmem⟩
        intro z hz
        rcases List.mem_append.1 hz with hz | hz
        · exact hpost z hz
        · rw [List.mem_singleton.1 hz]
          exact ha

/-! ## There and back -/

section RoundTrip

variable (upper : String → String)

/-- What is listed translates to a ticker, and that back to the symbol. -/
def RoundTrips (index : SymbolIndex) (symbols : List (Dict String String)) : Prop :=
  ∀ entry ∈ symbols, ∀ canonical ∈ entry.get? "canonical", ∀ n ∈ (nativesOf entry).entries,
    ((toNative index.byCanonical canonical n.1).bind
      fun native => toCanonical upper index.reverse native n.1) = some canonical

/-- At the last table of a symbol: it lists the venues of the earlier ones, and none of its pairs is
listed again. -/
structure Settled (pre post : List (Dict String String)) (entry : Dict String String) : Prop where
  complete : ∀ earlier ∈ pre, earlier.get? "canonical" = entry.get? "canonical" →
    ∀ venue ∈ (nativesOf earlier).keys, venue ∈ (nativesOf entry).keys
  unshadowed : ∀ later ∈ post, ∀ n ∈ (nativesOf entry).entries,
    ∀ m ∈ (nativesOf later).entries, m.1 = n.1 → upper m.2 ≠ upper n.2

def Unambiguous (symbols : List (Dict String String)) : Prop :=
  ∀ pre entry post, symbols = pre ++ entry :: post →
    (∀ later ∈ post, later.get? "canonical" ≠ entry.get? "canonical") →
      Settled upper pre post entry

variable {upper}

lemma toNative_eq {index : SymbolIndex} {canonical : String} {natives : Dict String String}
    (h : index.byCanonical.get? canonical = some ⟨canonical, natives⟩) (venue : String) :
    toNative index.byCanonical canonical venue = natives.get? venue := by
  rw [toNative, h]
  rfl

/-- For every configuration that `_build_index` accepts, the translation round-trips on all it
lists exactly if the configuration is unambiguous. -/
theorem roundTrips_iff (upper : String → String) (symbols : List (Dict String String))
    (index : SymbolIndex) (hindex : buildIndex upper symbols = some index) :
    RoundTrips upper index symbols ↔ Unambiguous upper symbols := by
  constructor
  · rintro htrip pre entry post rfl hlast
    rcases buildIndex_split hindex with ⟨canonical, hcanonical, hforward, hreverse⟩
    rw [hcanonical] at hlast
    have hnative := toNative_eq (hforward hlast)
    have hentry : entry ∈ pre ++ entry :: post := List.mem_append_right pre List.mem_cons_self
    refine ⟨?_, ?_⟩
    · intro earlier hearlier hsame venue hvenue
      rcases List.mem_map.1 hvenue with ⟨n, hn, rfl⟩
      have hback := htrip earlier (List.mem_append_left _ hearlier) canonical
        (hsame.trans hcanonical) n hn
      rw [hnative] at hback
      rcases Option.bind_eq_some_iff.1 hback with ⟨native, hget, _⟩
      exact Dict.mem_keys_iff.2 ⟨native, hget⟩
    · intro later hlater n hn m hm hvenue hsame
      have hback := htrip entry hentry canonical hcanonical n hn
      rw [hnative, Dict.get?_eq_some_iff.2 hn] at hback
      have hget : index.reverse.get? (n.1, upper n.2) = some canonical := hback
      rcases hreverse (n.1, upper n.2) ⟨n, hn, rfl⟩ with ⟨hnone, _⟩ | ⟨other, hother, _, hother'⟩
      · exact hnone later hlater ⟨m, hm, by rw [hvenue, hsame]⟩
      · -- The pair belongs to another symbol by now.
        rw [hget] at hother'
        exact hlast other hother hother'.symm
  · intro hclear entry₀ hentry₀ canonical hcanonical₀ n hn
    rcases exists_last (fun t : Dict String String => t.get? "canonical" = some canonical) symbols
      hentry₀ hcanonical₀ with ⟨pre, entry, post, rfl, hcanonical, hlast, hmem⟩
    have hsettled := hclear pre entry post rfl (by rw [hcanonical]; exact hlast)
    rcases buildIndex_split hindex with ⟨canonical', hcanonical', hforward, hreverse⟩
    have hcc : canonical' = canonical := Option.some.inj (hcanonical'.symm.trans hcanonical)
    subst hcc
    have hvenue : n.1 ∈ (nativesOf entry).keys := by
      rcases hmem with rfl | hpre
      · exact Dict.mem_keys_of_mem hn
      · exact hsettled.complete entry₀ hpre (hcanonical₀.trans hcanonical.symm) n.1
          (Dict.mem_keys_of_mem hn)
    rcases Dict.mem_keys_iff.1 hvenue with ⟨native, hnative⟩
    have hlisted : (n.1, native) ∈ (nativesOf entry).entries := Dict.get?_eq_some_iff.1 hnative
    rw [toNative_eq (hforward hlast), hnative]
    rcases hreverse (n.1, upper native) ⟨_, hlisted, rfl⟩ with
      ⟨_, hget⟩ | ⟨later, hlater, hlists, _⟩
    · exact hget
    · rcases hlists with ⟨m, hm, hkey⟩
      exact absurd (Prod.mk.inj hkey).2
        (hsettled.unshadowed later hlater _ hlisted m hm (Prod.mk.inj hkey).1)

end RoundTrip

/-- A pair under two symbols at different venues. -/
theorem roundTrips_spot_and_perp :
    let symbols : List (Dict String String) :=
      [⟨[("canonical", "ETC-USDT"), ("binance", "ETCUSDT"), ("kraken", "ETCUSDT")], by decide⟩,
        ⟨[("canonical", "ETC-USDT-PERP"), ("binance_futures", "ETCUSDT"), ("bybit", "ETCUSDT")],
          by decide⟩]
    ∃ index, buildIndex String.toUpper symbols = some index ∧
      RoundTrips String.toUpper index symbols ∧ Unambiguous String.toUpper symbols := by
  intro symbols
  have hsome : (buildIndex String.toUpper symbols).isSome = true := by decide +kernel
  have htrips : ∀ index ∈ buildIndex String.toUpper symbols,
      RoundTrips String.toUpper index symbols := by
    unfold RoundTrips
    decide +kernel
  rcases Option.isSome_iff_exists.1 hsome with ⟨index, hindex⟩
  have htrip := htrips index hindex
  exact ⟨index, hindex, htrip, (roundTrips_iff String.toUpper symbols index hindex).1 htrip⟩

/-- Two tables of the shipped configuration: the ticker of the spot symbol on bybit is that of the
perpetual, which comes later. -/
theorem spot_ticker_is_labelled_perp :
    let symbols : List (Dict String String) :=
      [⟨[("canonical", "BTC-USDT"), ("binance", "BTCUSDT"), ("bybit", "BTCUSDT"),
          ("kraken", "XBTUSDT"), ("okx", "BTC-USDT"), ("bitstamp", "btcusdt"),
          ("gemini", "btcusdt"), ("bitfinex", "tBTCUST")], by decide⟩,
        ⟨[("canonical", "BTC-USDT-PERP"), ("binance_futures", "BTCUSDT"), ("bybit", "BTCUSDT")],
          by decide⟩]
    ∃ index, buildIndex String.toUpper symbols = some index ∧
      toNative index.byCanonical "BTC-USDT" "bybit" = some "BTCUSDT" ∧
      toCanonical String.toUpper index.reverse "BTCUSDT" "bybit" = some "BTC-USDT-PERP" ∧
      ¬ RoundTrips String.toUpper index symbols := by
  intro symbols
  refine ⟨_, rfl, by decide +kernel, by decide +kernel, ?_⟩
  intro htrip
  have hback := htrip _ List.mem_cons_self "BTC-USDT" (by decide) ("bybit", "BTCUSDT")
    (by decide)
  revert hback
  decide +kernel

end CryptoData
