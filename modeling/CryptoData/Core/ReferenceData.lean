import CryptoData.Core.Corrections
import CryptoData.Core.Symbols
import CryptoData.Foundation.Period
import Mathlib.Data.Prod.Lex

/-!
# ReferenceData — the point-in-time symbol map

`seed_symbol_map` inserts an open-ended row for every pair of the configuration unless the key
(canonical, venue, effective_from_ns) is taken; `retire_mapping` ends the open-ended rows of one
pair; `symbol_map_asof` returns the rows that are in force.

The key does not stop two rows of one pair from being in force at once.  They are not, in any state
of a run, exactly if no call of `seed_symbol_map` inserts a row next to one of its pair that is not
over by then (`single_mapping_iff`).  Such a run goes by the table alone, which is what
`retire_mapping` leaves whatever becomes of the correction that it logs (`retireMapping_fst`).
-/

namespace CryptoData

open Foundation

/-! ## The table -/

/-- The primary key of `symbol_map`. -/
structure MappingKey where
  canonical : String
  venue : String
  effectiveFromNs : Int
  deriving DecidableEq, Repr

/-- The other columns. -/
structure Mapping where
  native : String
  assetClass : String
  base : String
  quote : String
  effectiveToNs : Option Int
  note : Option String
  deriving DecidableEq, Repr

abbrev MappingTable := Dict MappingKey Mapping

def MappingKey.pair (key : MappingKey) : String × String :=
  (key.canonical, key.venue)

/-- When a row is in force. -/
def validity (e : MappingKey × Mapping) : Period Int :=
  ⟨e.1.effectiveFromNs, e.2.effectiveToNs⟩

/-! ## The three functions -/

/-- `to_native(canonical, venue)`. -/
def toNative (byCanonical : Dict String SymbolMap) (canonical venue : String) : Option String :=
  (byCanonical.get? canonical).bind fun sym => sym.nativeFor venue

/-- `_asset_class(canonical)`. -/
def assetClass (canonical : String) : String :=
  if canonical.endsWith "-PERP" then "perp" else "spot"

/-- `_base_quote(canonical)`. -/
def baseQuote (canonical : String) : String × String :=
  match (canonical.replace "-PERP" "").splitOn "-" with
  | base :: quote :: _ => (base, quote)
  | _ => (canonical, "")

/-- The row for one pair of the configuration. -/
def seedRow (canonical venue native : String) (effectiveFromNs : Int) : MappingKey × Mapping :=
  (⟨canonical, venue, effectiveFromNs⟩,
    { native := native
      assetClass := assetClass canonical
      base := (baseQuote canonical).1
      quote := (baseQuote canonical).2
      effectiveToNs := none
      note := some "seeded from config/symbols.toml" })

def seedRows (byCanonical : Dict String SymbolMap) (effectiveFromNs : Int) :
    List (MappingKey × Mapping) :=
  byCanonical.entries.flatMap fun e =>
    e.2.venueNative.entries.map fun n => seedRow e.1 n.1 n.2 effectiveFromNs

/-- `seed_symbol_map(effective_from_ns)`: the new table and the number of its rows. -/
def seedSymbolMap (table : MappingTable) (byCanonical : Dict String SymbolMap)
    (effectiveFromNs : Option Int) : MappingTable × ℕ :=
  -- `0` stands for the beginning of the coverage.
  let eff := effectiveFromNs.getD 0
  -- `INSERT ... ON CONFLICT DO NOTHING`
  let seeded := (seedRows byCanonical eff).foldl Dict.insertNew table
  (seeded, seeded.entries.length)

/-- `UPDATE symbol_map SET effective_to_ns = ?, note = COALESCE(?, note) WHERE ...`. -/
def closeMapping (table : MappingTable) (canonical venue : String) (effectiveToNs : Int)
    (note : Option String) : MappingTable :=
  table.mapValues fun key row =>
    if key.canonical = canonical ∧ key.venue = venue ∧ row.effectiveToNs = none then
      { row with effectiveToNs := some effectiveToNs, note := note.or row.note }
    else row

/-- `retire_mapping(canonical, venue, effective_to_ns=..., note=...)`; the table is updated before
the correction is logged. -/
def retireMapping (w : World) (table : MappingTable) (canonical venue : String)
    (effectiveToNs : Int) (note : Option String) :
    MappingTable × Except CorrectionError (World × Int) :=
  (closeMapping table canonical venue effectiveToNs note,
    w.recordCorrection "symbol_map" "restatement" "info" (some canonical) (some venue)
      effectiveToNs effectiveToNs none (some ("mapping retired: " ++ note.getD "")))

/-- `symbol_map_asof(asof_ns)`. -/
def symbolMapAsof (table : MappingTable) (asofNs : Int) : List (MappingKey × Mapping) :=
  (table.entries.filter fun e => (validity e).covers asofNs).insertionSort
    fun a b => toLex a.1.pair ≤ toLex b.1.pair

/-- A call of one of the two functions that change the table. -/
inductive MapCall
  | seed (byCanonical : Dict String SymbolMap) (effectiveFromNs : Option Int)
  | retire (canonical venue : String) (effectiveToNs : Int) (note : Option String)

def MapCall.run (table : MappingTable) : MapCall → MappingTable
  | .seed byCanonical effectiveFromNs => (seedSymbolMap table byCanonical effectiveFromNs).1
  | .retire canonical venue effectiveToNs note =>
      closeMapping table canonical venue effectiveToNs note

/-- The table does not depend on what becomes of the correction. -/
theorem retireMapping_fst (w : World) (table : MappingTable) (canonical venue : String)
    (effectiveToNs : Int) (note : Option String) :
    (retireMapping w table canonical venue effectiveToNs note).1 =
      (MapCall.retire canonical venue effectiveToNs note).run table :=
  rfl

/-! ## What the functions do to the rows -/

section Rows

variable {table : MappingTable}

lemma mem_symbolMapAsof_iff {asofNs : Int} {e : MappingKey × Mapping} :
    e ∈ symbolMapAsof table asofNs ↔ e ∈ table.entries ∧ (validity e).covers asofNs = true := by
  rw [symbolMapAsof, List.mem_insertionSort, List.mem_filter]

/-- There is a row for each pair of the configuration, with its ticker. -/
lemma mem_seedRows_iff {byCanonical : Dict String SymbolMap} {eff : Int}
    {e : MappingKey × Mapping} :
    e ∈ seedRows byCanonical eff ↔ ∃ canonical venue native,
      toNative byCanonical canonical venue = some native ∧
        e = seedRow canonical venue native eff := by
  simp only [seedRows, List.mem_flatMap, List.mem_map, Prod.exists, toNative, SymbolMap.nativeFor,
    Option.bind_eq_some_iff, ← Dict.get?_eq_some_iff]
  constructor
  · rintro ⟨canonical, sym, hsym, venue, native, hnative, rfl⟩
    exact ⟨canonical, venue, native, ⟨sym, hsym, hnative⟩, rfl⟩
  · rintro ⟨canonical, venue, native, ⟨sym, hsym, hnative⟩, rfl⟩
    exact ⟨canonical, sym, hsym, venue, native, hnative, rfl⟩

/-- One call seeds every key once. -/
lemma seedRows_nodup (byCanonical : Dict String SymbolMap) (eff : Int) :
    ((seedRows byCanonical eff).map Prod.fst).Nodup := by
  rw [seedRows, List.map_flatMap, List.nodup_flatMap]
  constructor
  · intro e _
    have hvenues : ((e.2.venueNative.entries.map fun n => seedRow e.1 n.1 n.2 eff).map Prod.fst) =
        e.2.venueNative.keys.map fun venue => ⟨e.1, venue, eff⟩ := by
      simp [seedRow, Dict.keys, Function.comp_def]
    rw [hvenues]
    refine e.2.venueNative.keys_nodup.map ?_
    intro venue venue' heq
    exact congrArg MappingKey.venue heq
  · refine (List.pairwise_map.1 byCanonical.nodup).imp ?_
    intro e e' hne
    refine List.disjoint_left.2 ?_
    intro key hkey hkey'
    rcases List.mem_map.1 hkey with ⟨_, hrow, rfl⟩
    rcases List.mem_map.1 hrow with ⟨n, _, rfl⟩
    rcases List.mem_map.1 hkey' with ⟨_, hrow', heq⟩
    rcases List.mem_map.1 hrow' with ⟨n', _, rfl⟩
    exact hne (congrArg MappingKey.canonical heq).symm

theorem mem_seedSymbolMap_iff {byCanonical : Dict String SymbolMap} {effectiveFromNs : Option Int}
    {e : MappingKey × Mapping} :
    e ∈ (seedSymbolMap table byCanonical effectiveFromNs).1.entries ↔
      e ∈ table.entries ∨
        e ∈ seedRows byCanonical (effectiveFromNs.getD 0) ∧ e.1 ∉ table.keys :=
  Dict.mem_foldl_insertNew_iff (seedRows_nodup byCanonical _)

/-- Closing keeps every key; the rows of the pair end, the others stay as they are. -/
lemma mem_closeMapping_iff {canonical venue : String} {effectiveToNs : Int} {note : Option String}
    {e : MappingKey × Mapping} :
    e ∈ (closeMapping table canonical venue effectiveToNs note).entries ↔
      ∃ row, (e.1, row) ∈ table.entries ∧ e.2 =
        if e.1.canonical = canonical ∧ e.1.venue = venue ∧ row.effectiveToNs = none then
          { row with effectiveToNs := some effectiveToNs, note := note.or row.note }
        else row := by
  constructor
  · intro he
    rcases List.mem_map.1 he with ⟨⟨key, row⟩, hrow, rfl⟩
    exact ⟨row, hrow, rfl⟩
  · rintro ⟨row, hrow, heq⟩
    exact List.mem_map.2 ⟨(e.1, row), hrow, Prod.ext rfl heq.symm⟩

/-- A row is in force at no more instants after closing than before. -/
lemma covers_of_mem_closeMapping {canonical venue : String} {effectiveToNs : Int}
    {note : Option String} {e : MappingKey × Mapping}
    (he : e ∈ (closeMapping table canonical venue effectiveToNs note).entries) :
    ∃ row, (e.1, row) ∈ table.entries ∧
      ∀ t, (validity e).covers t = true → (validity (e.1, row)).covers t = true := by
  rcases mem_closeMapping_iff.1 he with ⟨row, hrow, heq⟩
  refine ⟨row, hrow, ?_⟩
  intro t ht
  split_ifs at heq with hclosed
  · have hstop : validity e = (validity (e.1, row)).close effectiveToNs := by
      simp only [validity, heq, Period.close, hclosed.2.2, Option.getD_none]
    rw [hstop] at ht
    exact Period.covers_of_covers_close ht
  · simpa only [validity, heq] using ht

end Rows

/-! ## Overlaps -/

/-- No two rows of one pair are in force at once. -/
def NonOverlapping (table : MappingTable) : Prop :=
  ∀ e ∈ table.entries, ∀ e' ∈ table.entries, e.1 ≠ e'.1 → e.1.pair = e'.1.pair →
    (validity e).Apart (validity e')

/-- The condition on a call: no pair of the configuration gets a new row while one of its rows is
open-ended or ends after both have started. -/
def SeedsApart (table : MappingTable) : MapCall → Prop
  | .seed byCanonical effectiveFromNs => ∀ row ∈ seedRows byCanonical (effectiveFromNs.getD 0),
      row.1 ∈ table.keys ∨ ∀ e ∈ table.entries, e.1.pair = row.1.pair →
        ∃ stop ∈ e.2.effectiveToNs, stop ≤ max (effectiveFromNs.getD 0) e.1.effectiveFromNs
  | .retire _ _ _ _ => True

/-- Every call of the run meets the condition in the table it is made on. -/
def RunsApart : MappingTable → List MapCall → Prop
  | _, [] => True
  | table, call :: calls => SeedsApart table call ∧ RunsApart (call.run table) calls

section Overlap

variable {table : MappingTable}

/-- The table has no overlaps exactly if no reading of it has a pair twice. -/
theorem nonOverlapping_iff :
    NonOverlapping table ↔
      ∀ t, ((symbolMapAsof table t).map fun e => e.1.pair).Nodup := by
  have hnodup : ∀ t, (symbolMapAsof table t).Nodup := fun t =>
    (List.perm_insertionSort _ _).nodup_iff.2 (table.nodup.of_map.filter _)
  constructor
  · intro h t
    refine (List.nodup_map_iff_inj_on (hnodup t)).2 ?_
    intro e he e' he' hpair
    rw [mem_symbolMapAsof_iff] at he he'
    by_contra hne
    have hkey : e.1 ≠ e'.1 := fun heq => hne (List.inj_on_of_nodup_map table.nodup he.1 he'.1 heq)
    exact h e he.1 e' he'.1 hkey hpair t ⟨he.2, he'.2⟩
  · rintro h e he e' he' hkey hpair t ⟨hcovers, hcovers'⟩
    have heq := (List.nodup_map_iff_inj_on (hnodup t)).1 (h t) e
      (mem_symbolMapAsof_iff.2 ⟨he, hcovers⟩) e' (mem_symbolMapAsof_iff.2 ⟨he', hcovers'⟩) hpair
    exact hkey (congrArg Prod.fst heq)

lemma nonOverlapping_closeMapping (h : NonOverlapping table) (canonical venue : String)
    (effectiveToNs : Int) (note : Option String) :
    NonOverlapping (closeMapping table canonical venue effectiveToNs note) := by
  intro e he e' he' hkey hpair
  rcases covers_of_mem_closeMapping he with ⟨row, hrow, hcovers⟩
  rcases covers_of_mem_closeMapping he' with ⟨row', hrow', hcovers'⟩
  exact (h (e.1, row) hrow (e'.1, row') hrow' hkey hpair).mono hcovers hcovers'

/-- A new row is open-ended from the instant of the call on. -/
lemma validity_of_mem_seedRows {byCanonical : Dict String SymbolMap} {eff : Int}
    {e : MappingKey × Mapping} (he : e ∈ seedRows byCanonical eff) : validity e = ⟨eff, none⟩ := by
  rcases mem_seedRows_iff.1 he with ⟨canonical, venue, native, _, rfl⟩
  rfl

lemma nonOverlapping_seed_iff (h : NonOverlapping table) (byCanonical : Dict String SymbolMap)
    (effectiveFromNs : Option Int) :
    NonOverlapping (seedSymbolMap table byCanonical effectiveFromNs).1 ↔
      SeedsApart table (.seed byCanonical effectiveFromNs) := by
  constructor
  · intro hafter row hrow
    by_cases hkey : row.1 ∈ table.keys
    · exact Or.inl hkey
    · refine Or.inr ?_
      intro e he hpair
      have hne : e.1 ≠ row.1 := fun heq => hkey (heq ▸ List.mem_map.2 ⟨e, he, rfl⟩)
      have hapart := hafter e (mem_seedSymbolMap_iff.2 (Or.inl he)) row
        (mem_seedSymbolMap_iff.2 (Or.inr ⟨hrow, hkey⟩)) hne hpair
      rw [validity_of_mem_seedRows hrow] at hapart
      exact Period.apart_openEnded_iff.1 hapart
  · intro hseeds
    have hnew : ∀ e ∈ table.entries, ∀ row ∈ seedRows byCanonical (effectiveFromNs.getD 0),
        row.1 ∉ table.keys → e.1.pair = row.1.pair → (validity e).Apart (validity row) := by
      intro e he row hrow hkey hpair
      rw [validity_of_mem_seedRows hrow]
      exact Period.apart_openEnded_iff.2 ((hseeds row hrow).resolve_left hkey e he hpair)
    intro e he e' he' hne hpair
    rcases mem_seedSymbolMap_iff.1 he with hold | ⟨hrow, hkey⟩
    · rcases mem_seedSymbolMap_iff.1 he' with hold' | ⟨hrow', hkey'⟩
      · exact h e hold e' hold' hne hpair
      · exact hnew e hold e' hrow' hkey' hpair
    · rcases mem_seedSymbolMap_iff.1 he' with hold' | ⟨hrow', hkey'⟩
      · exact (hnew e' hold' e hrow hkey hpair.symm).symm
      -- Two rows of one pair that start at one instant have one key.
      · rcases mem_seedRows_iff.1 hrow with ⟨canonical, venue, _, _, rfl⟩
        rcases mem_seedRows_iff.1 hrow' with ⟨canonical', venue', _, _, rfl⟩
        refine absurd ?_ hne
        have hpairs : (canonical, venue) = (canonical', venue') := hpair
        cases hpairs
        rfl

/-- One call keeps the rows apart exactly if it meets the condition. -/
lemma nonOverlapping_run_iff (h : NonOverlapping table) (call : MapCall) :
    NonOverlapping (call.run table) ↔ SeedsApart table call := by
  cases call with
  | seed byCanonical effectiveFromNs => exact nonOverlapping_seed_iff h byCanonical effectiveFromNs
  | retire canonical venue effectiveToNs note =>
      exact iff_of_true (nonOverlapping_closeMapping h canonical venue effectiveToNs note) trivial

/-- A whole run, from any table without overlaps. -/
lemma nonOverlapping_foldl_iff :
    ∀ (calls : List MapCall) {table : MappingTable}, NonOverlapping table →
      ((∀ k, NonOverlapping ((calls.take k).foldl MapCall.run table)) ↔ RunsApart table calls)
  | [], table, h => by
      refine iff_of_true ?_ trivial
      intro k
      rw [List.take_nil]
      exact h
  | call :: calls, table, h => by
      constructor
      · intro hall
        have hcall : NonOverlapping (call.run table) := hall 1
        refine ⟨(nonOverlapping_run_iff h call).1 hcall, ?_⟩
        exact (nonOverlapping_foldl_iff calls hcall).1 fun k => hall (k + 1)
      · rintro ⟨hseeds, hruns⟩ k
        cases k with
        | zero => exact h
        | succ k =>
            exact (nonOverlapping_foldl_iff calls ((nonOverlapping_run_iff h call).2 hseeds)).2
              hruns k

end Overlap

/-- No state of a run has a pair in force twice at any instant exactly if every call of the run
meets the condition. -/
theorem single_mapping_iff (calls : List MapCall) :
    (∀ k t, ((symbolMapAsof ((calls.take k).foldl MapCall.run Dict.empty) t).map
        fun e => e.1.pair).Nodup) ↔
      RunsApart Dict.empty calls := by
  have hempty : NonOverlapping (Dict.empty : MappingTable) := by
    intro e he
    cases he
  rw [← nonOverlapping_foldl_iff calls hempty]
  refine forall_congr' ?_
  intro k
  exact nonOverlapping_iff.symm

/-- One symbol on one venue. -/
def sampleConfig : Dict String SymbolMap :=
  Dict.empty.set "BTC-USD" ⟨"BTC-USD", Dict.empty.set "kraken" "XBTUSD"⟩

/-- Seeding twice with two instants puts two rows of one pair in force. -/
theorem seeding_twice_overlaps :
    ¬ ∀ (calls : List MapCall) (t : Int),
      ((symbolMapAsof (calls.foldl MapCall.run Dict.empty) t).map fun e => e.1.pair).Nodup := by
  intro h
  have hnodup := h [.seed sampleConfig none, .seed sampleConfig (some 5)] 5
  revert hnodup
  decide +kernel

end CryptoData
