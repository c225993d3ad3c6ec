import CryptoData.Foundation.Bucket
import Mathlib.Data.List.Dedup
import Mathlib.Data.Nat.Bitwise
import Mathlib.Data.String.Basic

/-!
# Symbols — the source registry and the venue bitmask

`venueBitmaskIndex` gives each venue one bit, by its rank in the sorted set of names, and
`orMask` is the `mask |= venues_index.get(v, 0)` loop.  A mask built from such an index holds the
bit of `v` exactly when `v` was or-ed in (`orMask_and_eq_zero_iff`).

`symbolsForVenue` lists the canonical symbols that a venue carries, each once.
-/

namespace CryptoData

open Foundation

/-! ## The registry -/

/-- Venues that carry spot trades and may contribute price to the consolidated tape. -/
def spotVenues : List String :=
  ["binance", "coinbase", "kraken", "okx", "bitstamp", "gemini", "bitfinex"]

/-- The keys of `_ADAPTERS`, in their order. -/
def allSources : List String :=
  ["binance", "binance_futures", "bybit", "coinbase", "kraken", "okx", "bitstamp", "gemini",
    "bitfinex"]

/-! ## The bit index -/

/-- `sorted(set(xs))`. -/
def sortedSet (xs : List String) : List String :=
  xs.dedup.insertionSort (· ≤ ·)

lemma mem_sortedSet {xs : List String} {v : String} : v ∈ sortedSet xs ↔ v ∈ xs := by
  simp [sortedSet]

lemma sortedSet_nodup (xs : List String) : (sortedSet xs).Nodup :=
  (List.perm_insertionSort _ _).nodup_iff.2 (List.nodup_dedup xs)

/-- `{v: 1 << i for i, v in enumerate(sorted(set(venues)))}`. -/
def venueBitmaskIndex (venues : List String) : Dict String ℕ where
  entries := (sortedSet venues).zipIdx.map fun p => (p.1, 1 <<< p.2)
  nodup := by
    have hkeys : ((sortedSet venues).zipIdx.map fun p => (p.1, 1 <<< p.2)).map Prod.fst =
        sortedSet venues := by
      simp [List.map_map, Function.comp_def]
    simpa [hkeys] using sortedSet_nodup venues

/-- The bit position of `v`. -/
def bitOf (venues : List String) (v : String) : ℕ :=
  (sortedSet venues).idxOf v

lemma bitOf_inj {venues : List String} {v w : String} (hv : v ∈ venues) :
    bitOf venues v = bitOf venues w ↔ v = w :=
  List.idxOf_inj (mem_sortedSet.2 hv)

theorem venueBitmaskIndex_getD_of_mem {venues : List String} {v : String} (hv : v ∈ venues) :
    (venueBitmaskIndex venues).getD v 0 = 2 ^ bitOf venues v := by
  have hidx : (sortedSet venues)[bitOf venues v]? = some v :=
    List.getElem?_idxOf (mem_sortedSet.2 hv)
  have hmem : (v, 1 <<< bitOf venues v) ∈ (venueBitmaskIndex venues).entries := by
    refine List.mem_map.2 ⟨(v, bitOf venues v), ?_, rfl⟩
    exact List.mem_zipIdx_iff_getElem?.2 hidx
  have hget := Dict.get?_eq_some_iff.2 hmem
  simp [Dict.getD, hget, Nat.one_shiftLeft]

theorem venueBitmaskIndex_getD_of_not_mem {venues : List String} {v : String} (hv : v ∉ venues) :
    (venueBitmaskIndex venues).getD v 0 = 0 := by
  have hkey : v ∉ (venueBitmaskIndex venues).keys := by
    intro h
    obtain ⟨⟨w, n⟩, hmem, rfl⟩ := List.mem_map.1 h
    obtain ⟨⟨u, i⟩, hu, heq⟩ := List.mem_map.1 hmem
    have huw : u = w := congrArg Prod.fst heq
    have hget := List.mem_zipIdx_iff_getElem?.1 hu
    have hin : u ∈ sortedSet venues := List.mem_of_getElem? hget
    exact hv (mem_sortedSet.1 (by simpa [huw] using hin))
  simp [Dict.getD, Dict.get?_eq_none_iff.2 hkey]

/-! ## Provenance masks -/

/-- `for v in vs: mask |= venues_index.get(v, 0)`. -/
def orMask (venuesIndex : Dict String ℕ) (vs : List String) : ℕ :=
  vs.foldl (fun mask v => mask ||| venuesIndex.getD v 0) 0

lemma testBit_foldl_or (f : String → ℕ) (n : ℕ) :
    ∀ (vs : List String) (m : ℕ),
      (vs.foldl (fun mask v => mask ||| f v) m).testBit n = true ↔
        m.testBit n = true ∨ ∃ v ∈ vs, (f v).testBit n = true
  | [], m => by simp
  | v :: vs, m => by
      have htail := testBit_foldl_or f n vs (m ||| f v)
      simp only [List.foldl_cons, htail, Nat.testBit_or, Bool.or_eq_true, List.mem_cons]
      constructor
      · intro h
        rcases h with (h | h) | ⟨w, hw, h⟩
        · exact Or.inl h
        · exact Or.inr ⟨v, Or.inl rfl, h⟩
        · exact Or.inr ⟨w, Or.inr hw, h⟩
      · intro h
        rcases h with h | ⟨w, hw | hw, h⟩
        · exact Or.inl (Or.inl h)
        · subst hw
          exact Or.inl (Or.inr h)
        · exact Or.inr ⟨w, hw, h⟩

/-- A mask only depends on which venues are or-ed in. -/
theorem orMask_eq_of_mem_iff (venuesIndex : Dict String ℕ) {vs ws : List String}
    (h : ∀ v, v ∈ vs ↔ v ∈ ws) : orMask venuesIndex vs = orMask venuesIndex ws := by
  refine Nat.eq_of_testBit_eq ?_
  intro n
  refine Bool.eq_iff_iff.2 ?_
  simp only [orMask, testBit_foldl_or, h]

/-- Fewer venues make a smaller mask. -/
theorem orMask_le_of_subset (venuesIndex : Dict String ℕ) {vs ws : List String}
    (h : ∀ v ∈ vs, v ∈ ws) : orMask venuesIndex vs ≤ orMask venuesIndex ws := by
  refine Nat.le_of_testBit ?_
  intro n hn
  rw [orMask, testBit_foldl_or] at hn ⊢
  rcases hn with hn | ⟨v, hv, hn⟩
  · exact Or.inl hn
  · exact Or.inr ⟨v, h v hv, hn⟩

/-- A mask over a bitmask index misses the bit of `v` exactly when `v` is not among its venues. -/
theorem orMask_and_eq_zero_iff {venues vs : List String} {v : String} (hv : v ∈ venues) :
    orMask (venueBitmaskIndex venues) vs &&& (venueBitmaskIndex venues).getD v 0 = 0 ↔
      v ∉ vs := by
  have hbit : (orMask (venueBitmaskIndex venues) vs).testBit (bitOf venues v) = true ↔ v ∈ vs := by
    simp only [orMask, testBit_foldl_or, Nat.zero_testBit, Bool.false_eq_true, false_or]
    constructor
    · intro h
      rcases h with ⟨w, hw, h⟩
      by_cases hmem : w ∈ venues
      · have hpos : bitOf venues w = bitOf venues v := by
          simpa [venueBitmaskIndex_getD_of_mem hmem, Nat.testBit_two_pow] using h
        simpa [(bitOf_inj hmem).1 hpos] using hw
      · simp [venueBitmaskIndex_getD_of_not_mem hmem] at h
    · intro h
      exact ⟨v, h, by simp [venueBitmaskIndex_getD_of_mem hv]⟩
  rw [venueBitmaskIndex_getD_of_mem hv, Nat.and_two_pow]
  cases htest : (orMask (venueBitmaskIndex venues) vs).testBit (bitOf venues v) with
  | false => simpa [htest] using hbit
  | true => simpa [htest] using hbit

/-! ## The canonical map -/

/-- `venue_native` maps a venue to its native ticker. -/
structure SymbolMap where
  canonical : String
  venueNative : Dict String String

def SymbolMap.nativeFor (sym : SymbolMap) (venue : String) : Option String :=
  sym.venueNative.get? venue

/-- `symbols_for_venue(venue)` over the index `by_canonical`; an empty ticker does not count. -/
def symbolsForVenue (byCanonical : Dict String SymbolMap) (venue : String) :
    List (String × String) :=
  byCanonical.entries.filterMap fun e =>
    match e.2.nativeFor venue with
    | none => none
    | some native => if native = "" then none else some (e.1, native)

/-- Each canonical symbol is listed at most once. -/
theorem symbolsForVenue_nodup (byCanonical : Dict String SymbolMap) (venue : String) :
    ((symbolsForVenue byCanonical venue).map Prod.fst).Nodup := by
  have hsub : ∀ entries : List (String × SymbolMap),
      ((entries.filterMap fun e =>
        match e.2.nativeFor venue with
        | none => none
        | some native => if native = "" then none else some (e.1, native)).map Prod.fst).Sublist
        (entries.map Prod.fst) := by
    intro entries
    induction entries with
    | nil => exact List.Sublist.refl []
    | cons e entries ih =>
        cases hnative : e.2.nativeFor venue with
        | none => simpa [hnative] using ih.cons e.1
        | some native =>
            by_cases hempty : native = ""
            · simpa [hnative, hempty] using ih.cons e.1
            · simpa [hnative, hempty] using ih
  exact byCanonical.nodup.sublist (hsub byCanonical.entries)

end CryptoData
