import CryptoData.Core.ReferenceData

/-!
# TickerRename — retire, edit the configuration, seed again

The documented way to record a ticker rename ends with a call of `seed_symbol_map` without an
instant, so the new row starts at 0 and not where the old one ends.  If the pair was seeded that
way in the first place, the key is taken and the new ticker is not recorded at all.

The procedure does what it is for exactly if the old row ends at 0 and started before, no other row
of the pair starts by then, and every other pair of the configuration has a row from 0 on
(`rename_works_iff`).
-/

namespace CryptoData

open Foundation

/-! ## The procedure -/

/-- Another ticker for one venue of one symbol. -/
def editNative (byCanonical : Dict String SymbolMap) (canonical venue native : String) :
    Dict String SymbolMap :=
  match byCanonical.get? canonical with
  | none => byCanonical
  | some sym =>
      byCanonical.set canonical { sym with venueNative := sym.venueNative.set venue native }

/-- `retire_mapping(...)`, the edit, and `seed_symbol_map()`. -/
def renameTicker (table : MappingTable) (byCanonical : Dict String SymbolMap)
    (canonical venue native : String) (effectiveToNs : Int) (note : Option String) :
    MappingTable :=
  (seedSymbolMap (closeMapping table canonical venue effectiveToNs note)
    (editNative byCanonical canonical venue native) none).1

/-- A table that is reached by seeding. -/
def seeded (calls : List (Dict String SymbolMap × Option Int)) : MappingTable :=
  calls.foldl (fun table call => (seedSymbolMap table call.1 call.2).1) Dict.empty

/-- The tickers of a pair in a reading of the table. -/
def nativesAt (table : MappingTable) (pair : String × String) (asofNs : Int) : List String :=
  ((symbolMapAsof table asofNs).filter fun e => decide (e.1.pair = pair)).map fun e => e.2.native

/-- What a rename at `effectiveToNs` is for. -/
structure Renamed (table after : MappingTable) (pair : String × String)
    (effectiveFromNs effectiveToNs : Int) (old new : String) : Prop where
  before : ∀ t, effectiveFromNs ≤ t → t < effectiveToNs → nativesAt after pair t = [old]
  since : ∀ t, effectiveToNs ≤ t → nativesAt after pair t = [new]
  others : ∀ t e, e.1.pair ≠ pair → (e ∈ symbolMapAsof after t ↔ e ∈ symbolMapAsof table t)

/-! ## What the steps leave -/

/-- A list without repetitions is a singleton if it has one member. -/
lemma eq_singleton_iff_of_nodup {α : Type*} {l : List α} (h : l.Nodup) (a : α) :
    l = [a] ↔ ∀ x, x ∈ l ↔ x = a := by
  constructor
  · rintro rfl x
    exact List.mem_singleton
  · intro hmem
    refine List.perm_singleton.1 ((List.perm_ext_iff_of_nodup h (List.nodup_singleton a)).2 ?_)
    intro x
    rw [hmem x, List.mem_singleton]

/-- One ticker in force is one row in force. -/
lemma nativesAt_eq_singleton_iff {table : MappingTable} {pair : String × String} {t : Int}
    {native : String} :
    nativesAt table pair t = [native] ↔ ∃ e, e.2.native = native ∧
      ∀ x, (x ∈ table.entries ∧ (validity x).covers t = true) ∧ x.1.pair = pair ↔ x = e := by
  have hnodup : ((symbolMapAsof table t).filter fun e => decide (e.1.pair = pair)).Nodup :=
    ((List.perm_insertionSort _ _).nodup_iff.2 (table.nodup.of_map.filter _)).filter _
  have hmem : ∀ x, x ∈ (symbolMapAsof table t).filter (fun e => decide (e.1.pair = pair)) ↔
      (x ∈ table.entries ∧ (validity x).covers t = true) ∧ x.1.pair = pair := by
    intro x
    rw [List.mem_filter, mem_symbolMapAsof_iff, decide_eq_true_eq]
  rw [nativesAt, List.map_eq_singleton_iff]
  constructor
  · rintro ⟨e, he, hnative⟩
    refine ⟨e, hnative, ?_⟩
    intro x
    rw [← hmem]
    exact (eq_singleton_iff_of_nodup hnodup e).1 he x
  · rintro ⟨e, hnative, he⟩
    refine ⟨e, (eq_singleton_iff_of_nodup hnodup e).2 ?_, hnative⟩
    intro x
    rw [hmem]
    exact he x

/-- Seeding leaves every row open-ended. -/
lemma effectiveToNs_of_mem_seeded (calls : List (Dict String SymbolMap × Option Int)) :
    ∀ e ∈ (seeded calls).entries, e.2.effectiveToNs = none := by
  have hfold : ∀ (calls : List (Dict String SymbolMap × Option Int)) (table : MappingTable),
      (∀ e ∈ table.entries, e.2.effectiveToNs = none) →
      ∀ e ∈ (calls.foldl (fun table call =>
        (seedSymbolMap table call.1 call.2).1) table).entries, e.2.effectiveToNs = none := by
    intro calls
    induction calls with
    | nil =>
        intro table h
        exact h
    | cons call calls ih =>
        intro table h
        refine ih _ ?_
        intro e he
        rcases mem_seedSymbolMap_iff.1 he with hold | ⟨hrow, _⟩
        · exact h e hold
        · exact congrArg Period.stop (validity_of_mem_seedRows hrow)
  refine hfold calls Dict.empty ?_
  intro e he
  cases he

section Steps

variable {table : MappingTable} {byCanonical : Dict String SymbolMap} {sym : SymbolMap}
  {canonical venue native : String} {effectiveToNs : Int} {note : Option String}

/-- The edit changes the ticker of one pair. -/
lemma toNative_editNative (hsym : byCanonical.get? canonical = some sym)
    (canonical' venue' : String) :
    toNative (editNative byCanonical canonical venue native) canonical' venue' =
      if (canonical', venue') = (canonical, venue) then some native
      else toNative byCanonical canonical' venue' := by
  simp only [toNative, editNative, hsym, SymbolMap.nativeFor, Prod.mk.injEq]
  by_cases hcanonical : canonical' = canonical
  · subst hcanonical
    rw [Dict.get?_set_self, hsym, Option.bind_some, Option.bind_some]
    by_cases hvenue : venue' = venue
    · subst hvenue
      simp
    · simp [hvenue, Dict.get?_set_ne]
  · simp [hcanonical, Dict.get?_set_ne]

lemma mem_seedRows_editNative_self (hsym : byCanonical.get? canonical = some sym) {eff : Int}
    {e : MappingKey × Mapping} (hpair : e.1.pair = (canonical, venue)) :
    e ∈ seedRows (editNative byCanonical canonical venue native) eff ↔
      e = seedRow canonical venue native eff := by
  rw [mem_seedRows_iff]
  constructor
  · rintro ⟨canonical', venue', native', hnative, rfl⟩
    have hpairs : (canonical', venue') = (canonical, venue) := hpair
    rw [toNative_editNative hsym, if_pos hpairs] at hnative
    cases hpairs
    cases hnative
    rfl
  · rintro rfl
    exact ⟨canonical, venue, native, by rw [toNative_editNative hsym, if_pos rfl], rfl⟩

lemma mem_seedRows_editNative_ne (hsym : byCanonical.get? canonical = some sym) {eff : Int}
    {e : MappingKey × Mapping} (hpair : e.1.pair ≠ (canonical, venue)) :
    e ∈ seedRows (editNative byCanonical canonical venue native) eff ↔
      e ∈ seedRows byCanonical eff := by
  rw [mem_seedRows_iff, mem_seedRows_iff]
  refine exists_congr fun canonical' => exists_congr fun venue' => exists_congr fun native' => ?_
  refine and_congr_left ?_
  rintro rfl
  have hpairs : (canonical', venue') ≠ (canonical, venue) := hpair
  rw [toNative_editNative hsym, if_neg hpairs]

/-- Closing ends the rows of the pair. -/
lemma mem_closeMapping_self (hopen : ∀ e ∈ table.entries, e.2.effectiveToNs = none)
    {e : MappingKey × Mapping} (hpair : e.1.pair = (canonical, venue)) :
    e ∈ (closeMapping table canonical venue effectiveToNs note).entries ↔
      ∃ row, (e.1, row) ∈ table.entries ∧
        e.2 = { row with effectiveToNs := some effectiveToNs, note := note.or row.note } := by
  have hcanonical : e.1.canonical = canonical := congrArg Prod.fst hpair
  have hvenue : e.1.venue = venue := congrArg Prod.snd hpair
  rw [mem_closeMapping_iff]
  refine exists_congr ?_
  intro row
  refine and_congr_right ?_
  intro hrow
  rw [if_pos ⟨hcanonical, hvenue, hopen _ hrow⟩]

/-- Closing leaves the rows of the other pairs alone. -/
lemma mem_closeMapping_ne {e : MappingKey × Mapping} (hpair : e.1.pair ≠ (canonical, venue)) :
    e ∈ (closeMapping table canonical venue effectiveToNs note).entries ↔ e ∈ table.entries := by
  have hno : ∀ row : Mapping, ¬ (e.1.canonical = canonical ∧ e.1.venue = venue ∧
      row.effectiveToNs = none) := by
    intro row h
    exact hpair (Prod.ext h.1 h.2.1)
  rw [mem_closeMapping_iff]
  constructor
  · rintro ⟨row, hrow, heq⟩
    rw [if_neg (hno row)] at heq
    rw [← heq] at hrow
    exact hrow
  · intro he
    exact ⟨e.2, he, by rw [if_neg (hno e.2)]⟩

lemma keys_closeMapping :
    (closeMapping table canonical venue effectiveToNs note).keys = table.keys := by
  simp [closeMapping, Dict.mapValues, Dict.keys, Function.comp_def]

/-- The rows of the pair after the procedure: the ended ones, and the new one if its key is not
in use. -/
lemma mem_renameTicker_self (hopen : ∀ e ∈ table.entries, e.2.effectiveToNs = none)
    (hsym : byCanonical.get? canonical = some sym) {e : MappingKey × Mapping}
    (hpair : e.1.pair = (canonical, venue)) :
    e ∈ (renameTicker table byCanonical canonical venue native effectiveToNs note).entries ↔
      (∃ row, (e.1, row) ∈ table.entries ∧
        e.2 = { row with effectiveToNs := some effectiveToNs, note := note.or row.note }) ∨
      e = seedRow canonical venue native 0 ∧ ⟨canonical, venue, 0⟩ ∉ table.keys := by
  rw [renameTicker, mem_seedSymbolMap_iff, mem_closeMapping_self hopen hpair, Option.getD_none,
    mem_seedRows_editNative_self hsym hpair, keys_closeMapping]
  refine or_congr_right (and_congr_right ?_)
  rintro rfl
  rfl

/-- The rows of the other pairs: the old ones, and the rows of the configuration that are new. -/
lemma mem_renameTicker_ne (hsym : byCanonical.get? canonical = some sym)
    {e : MappingKey × Mapping} (hpair : e.1.pair ≠ (canonical, venue)) :
    e ∈ (renameTicker table byCanonical canonical venue native effectiveToNs note).entries ↔
      e ∈ table.entries ∨ e ∈ seedRows byCanonical 0 ∧ e.1 ∉ table.keys := by
  rw [renameTicker, mem_seedSymbolMap_iff, mem_closeMapping_ne hpair, Option.getD_none,
    mem_seedRows_editNative_ne hsym hpair, keys_closeMapping]

end Steps

/-! ## When the procedure works -/

/-- The condition: the rename is at 0, the old row is the only one of the pair that has started by
then, and seeding from 0 on is not new for any other pair. -/
structure RenamesAtZero (table : MappingTable) (byCanonical : Dict String SymbolMap)
    (pair : String × String) (effectiveFromNs effectiveToNs : Int) : Prop where
  zero : effectiveToNs = 0
  alone : ∀ e ∈ table.entries, e.1.pair = pair → e.1.effectiveFromNs ≤ 0 →
    e.1.effectiveFromNs = effectiveFromNs
  others : ∀ row ∈ seedRows byCanonical 0, row.1.pair ≠ pair → row.1 ∈ table.keys

section Rename

variable {table : MappingTable} {byCanonical : Dict String SymbolMap} {sym : SymbolMap}
  {canonical venue new : String} {effectiveFromNs effectiveToNs : Int} {note : Option String}
  {row : Mapping}

/-- At the instant of the rename only a new row is in force. -/
lemma fresh_of_since (hopen : ∀ e ∈ table.entries, e.2.effectiveToNs = none)
    (hsym : byCanonical.get? canonical = some sym)
    (h : nativesAt (renameTicker table byCanonical canonical venue new effectiveToNs note)
      (canonical, venue) effectiveToNs = [new]) :
    ⟨canonical, venue, 0⟩ ∉ table.keys ∧ 0 ≤ effectiveToNs := by
  rcases nativesAt_eq_singleton_iff.1 h with ⟨e, _, he⟩
  rcases (he e).2 rfl with ⟨⟨hmem, hcovers⟩, hpair⟩
  rw [Period.covers_iff] at hcovers
  rcases (mem_renameTicker_self hopen hsym hpair).1 hmem with ⟨row, _, hrow⟩ | ⟨rfl, hkey⟩
  · have hstop : effectiveToNs ∈ (validity e).stop := by
      simp only [validity, hrow]
      rfl
    exact absurd (hcovers.2 effectiveToNs hstop) (lt_irrefl _)
  · exact ⟨hkey, hcovers.1⟩

/-- The old row after the procedure, which ends at the rename. -/
def endedRow (row : Mapping) (effectiveToNs : Int) (note : Option String) : Mapping :=
  { row with effectiveToNs := some effectiveToNs, note := note.or row.note }

lemma covers_endedRow {key : MappingKey} {t : Int} :
    (validity (key, endedRow row effectiveToNs note)).covers t = true ↔
      key.effectiveFromNs ≤ t ∧ t < effectiveToNs := by
  simp [validity, endedRow]

lemma covers_seedRow {native : String} {eff t : Int} :
    (validity (seedRow canonical venue native eff)).covers t = true ↔ eff ≤ t := by
  simp [validity, seedRow]

/-- With one ticker in force, two rows of the pair in force are one. -/
lemma eq_of_nativesAt {pair : String × String} {t : Int} {native : String}
    (h : nativesAt table pair t = [native]) {e e' : MappingKey × Mapping}
    (he : e ∈ table.entries) (hpair : e.1.pair = pair) (hcovers : (validity e).covers t = true)
    (he' : e' ∈ table.entries) (hpair' : e'.1.pair = pair)
    (hcovers' : (validity e').covers t = true) : e.1 = e'.1 := by
  rcases nativesAt_eq_singleton_iff.1 h with ⟨x, _, hx⟩
  rw [(hx e).1 ⟨⟨he, hcovers⟩, hpair⟩, (hx e').1 ⟨⟨he', hcovers'⟩, hpair'⟩]

/-- If the procedure works, the condition holds. -/
lemma renamesAtZero_of_renamed (hopen : ∀ e ∈ table.entries, e.2.effectiveToNs = none)
    (hsym : byCanonical.get? canonical = some sym)
    (hrow : (⟨canonical, venue, effectiveFromNs⟩, row) ∈ table.entries)
    (hlt : effectiveFromNs < effectiveToNs) {old : String}
    (h : Renamed table (renameTicker table byCanonical canonical venue new effectiveToNs note)
      (canonical, venue) effectiveFromNs effectiveToNs old new) :
    RenamesAtZero table byCanonical (canonical, venue) effectiveFromNs effectiveToNs := by
  rcases fresh_of_since hopen hsym (h.since effectiveToNs (le_refl _)) with ⟨hkey, hnonneg⟩
  have hseed : seedRow canonical venue new 0 ∈
      (renameTicker table byCanonical canonical venue new effectiveToNs note).entries :=
    (mem_renameTicker_self hopen hsym rfl).2 (Or.inr ⟨rfl, hkey⟩)
  have hended : ∀ {eff row}, (⟨canonical, venue, eff⟩, row) ∈ table.entries →
      (⟨canonical, venue, eff⟩, endedRow row effectiveToNs note) ∈
        (renameTicker table byCanonical canonical venue new effectiveToNs note).entries :=
    fun hmem => (mem_renameTicker_self hopen hsym rfl).2 (Or.inl ⟨_, hmem, rfl⟩)
  have hne : ∀ {eff row}, (⟨canonical, venue, eff⟩, row) ∈ table.entries → eff ≠ 0 := by
    rintro eff row hmem rfl
    exact hkey (Dict.mem_keys_of_mem hmem)
  have hzero : effectiveToNs = 0 := by
    by_contra hpos
    have hpos : 0 < effectiveToNs := lt_of_le_of_ne hnonneg (Ne.symm hpos)
    -- From 0 on, and before the rename, the old row and the new one are both in force.
    have hkeys := eq_of_nativesAt
      (h.before (max effectiveFromNs 0) (le_max_left _ _) (max_lt hlt hpos))
      (hended hrow) rfl (covers_endedRow.2 ⟨le_max_left _ _, max_lt hlt hpos⟩)
      hseed rfl (covers_seedRow.2 (le_max_right _ _))
    exact hne hrow (congrArg MappingKey.effectiveFromNs hkeys)
  refine ⟨hzero, ?_, ?_⟩
  · rintro ⟨⟨canonical', venue', eff⟩, row'⟩ he hpair hle
    have hpairs : (canonical', venue') = (canonical, venue) := hpair
    cases hpairs
    have hbefore : eff < effectiveToNs := by
      rw [hzero]
      exact lt_of_le_of_ne hle (hne he)
    -- From the later of the two starts on, both rows are in force.
    have hkeys := eq_of_nativesAt
      (h.before (max effectiveFromNs eff) (le_max_left _ _) (max_lt hlt hbefore))
      (hended he) rfl (covers_endedRow.2 ⟨le_max_right _ _, max_lt hlt hbefore⟩)
      (hended hrow) rfl (covers_endedRow.2 ⟨le_max_left _ _, max_lt hlt hbefore⟩)
    exact congrArg MappingKey.effectiveFromNs hkeys
  · intro e he hpair
    by_contra hnew
    -- A row that the re-seed adds for another pair is in force at 0.
    have hin : e ∈ symbolMapAsof
        (renameTicker table byCanonical canonical venue new effectiveToNs note) 0 := by
      refine mem_symbolMapAsof_iff.2 ⟨(mem_renameTicker_ne hsym hpair).2 (Or.inr ⟨he, hnew⟩), ?_⟩
      rw [validity_of_mem_seedRows he]
      simp
    have hout := mem_symbolMapAsof_iff.1 ((h.others 0 e hpair).1 hin)
    exact hnew (List.mem_map.2 ⟨e, hout.1, rfl⟩)

/-- Before 0 the ended row is in force. -/
lemma nativesAt_before (hopen : ∀ e ∈ table.entries, e.2.effectiveToNs = none)
    (hsym : byCanonical.get? canonical = some sym)
    (hrow : (⟨canonical, venue, effectiveFromNs⟩, row) ∈ table.entries)
    (halone : ∀ e ∈ table.entries, e.1.pair = (canonical, venue) → e.1.effectiveFromNs ≤ 0 →
      e.1.effectiveFromNs = effectiveFromNs) {t : Int} (hfrom : effectiveFromNs ≤ t) (hto : t < 0) :
    nativesAt (renameTicker table byCanonical canonical venue new 0 note) (canonical, venue) t =
      [row.native] := by
  refine nativesAt_eq_singleton_iff.2
    ⟨(⟨canonical, venue, effectiveFromNs⟩, endedRow row 0 note), rfl, ?_⟩
  rintro ⟨key, row'⟩
  constructor
  · rintro ⟨⟨hmem, hcovers⟩, hpair⟩
    rcases (mem_renameTicker_self hopen hsym hpair).1 hmem with ⟨row₀, hrow₀, heq⟩ | ⟨heq, _⟩
    · have hstart : key.effectiveFromNs = effectiveFromNs := by
        refine halone (key, row₀) hrow₀ hpair ?_
        exact le_trans (Period.covers_iff.1 hcovers).1 hto.le
      have hkeys : key = ⟨canonical, venue, effectiveFromNs⟩ := by
        rcases key with ⟨canonical', venue', eff⟩
        have hpairs : (canonical', venue') = (canonical, venue) := hpair
        cases hpairs
        cases hstart
        rfl
      subst hkeys
      have hrows : row₀ = row := Dict.eq_of_mem_of_mem hrow₀ hrow
      subst hrows
      exact Prod.ext rfl heq
    -- The new row has not started.
    · rw [heq, covers_seedRow] at hcovers
      exact absurd hto (not_lt.2 hcovers)
  · intro heq
    rw [heq]
    exact ⟨⟨(mem_renameTicker_self hopen hsym rfl).2 (Or.inl ⟨row, hrow, rfl⟩),
      covers_endedRow.2 ⟨hfrom, hto⟩⟩, rfl⟩

/-- From 0 on the new row is in force. -/
lemma nativesAt_since (hopen : ∀ e ∈ table.entries, e.2.effectiveToNs = none)
    (hsym : byCanonical.get? canonical = some sym)
    (hkey : ⟨canonical, venue, 0⟩ ∉ table.keys) {t : Int} (ht : 0 ≤ t) :
    nativesAt (renameTicker table byCanonical canonical venue new 0 note) (canonical, venue) t =
      [new] := by
  refine nativesAt_eq_singleton_iff.2 ⟨seedRow canonical venue new 0, rfl, ?_⟩
  rintro ⟨key, row'⟩
  constructor
  · rintro ⟨⟨hmem, hcovers⟩, hpair⟩
    rcases (mem_renameTicker_self hopen hsym hpair).1 hmem with ⟨row₀, _, heq⟩ | ⟨heq, _⟩
    · have hrow' : row' = endedRow row₀ 0 note := heq
      rw [hrow', covers_endedRow] at hcovers
      exact absurd hcovers.2 (not_lt.2 ht)
    · exact heq
  · intro heq
    rw [heq]
    exact ⟨⟨(mem_renameTicker_self hopen hsym rfl).2 (Or.inr ⟨rfl, hkey⟩),
      covers_seedRow.2 ht⟩, rfl⟩

/-- If the condition holds, the procedure works. -/
lemma renamed_of_renamesAtZero (hopen : ∀ e ∈ table.entries, e.2.effectiveToNs = none)
    (hsym : byCanonical.get? canonical = some sym)
    (hrow : (⟨canonical, venue, effectiveFromNs⟩, row) ∈ table.entries)
    (hlt : effectiveFromNs < effectiveToNs)
    (h : RenamesAtZero table byCanonical (canonical, venue) effectiveFromNs effectiveToNs) :
    Renamed table (renameTicker table byCanonical canonical venue new effectiveToNs note)
      (canonical, venue) effectiveFromNs effectiveToNs row.native new := by
  have hzero := h.zero
  subst hzero
  have hkey : ⟨canonical, venue, 0⟩ ∉ table.keys := by
    intro hkey
    rcases Dict.mem_keys_iff.1 hkey with ⟨row', hget⟩
    have hstart : 0 = effectiveFromNs := h.alone _ (Dict.get?_eq_some_iff.1 hget) rfl (le_refl 0)
    exact absurd hstart hlt.ne'
  refine ⟨?_, ?_, ?_⟩
  · intro t hfrom hto
    exact nativesAt_before hopen hsym hrow h.alone hfrom hto
  · intro t ht
    exact nativesAt_since hopen hsym hkey ht
  · intro t e hpair
    rw [mem_symbolMapAsof_iff, mem_symbolMapAsof_iff, mem_renameTicker_ne hsym hpair]
    refine and_congr_left ?_
    intro _
    constructor
    · rintro (hold | ⟨hseed, hnew⟩)
      · exact hold
      · exact absurd (h.others e hseed hpair) hnew
    · exact Or.inl

end Rename

/-- When retiring a mapping, editing the configuration and seeding again records a rename. -/
theorem rename_works_iff (calls : List (Dict String SymbolMap × Option Int))
    (byCanonical : Dict String SymbolMap) {sym : SymbolMap} {canonical venue new : String}
    {effectiveFromNs effectiveToNs : Int} {note : Option String} {row : Mapping}
    (hsym : byCanonical.get? canonical = some sym)
    (hrow : (⟨canonical, venue, effectiveFromNs⟩, row) ∈ (seeded calls).entries)
    (hlt : effectiveFromNs < effectiveToNs) :
    Renamed (seeded calls)
        (renameTicker (seeded calls) byCanonical canonical venue new effectiveToNs note)
        (canonical, venue) effectiveFromNs effectiveToNs row.native new ↔
      RenamesAtZero (seeded calls) byCanonical (canonical, venue) effectiveFromNs
        effectiveToNs := by
  have hopen := effectiveToNs_of_mem_seeded calls
  exact ⟨renamesAtZero_of_renamed hopen hsym hrow hlt, renamed_of_renamesAtZero hopen hsym hrow hlt⟩

/-- A pair seeded from -5 on and renamed at 0. -/
theorem rename_at_zero_works :
    Renamed (seeded [(sampleConfig, some (-5))])
      (renameTicker (seeded [(sampleConfig, some (-5))]) sampleConfig "BTC-USD" "kraken" "BTCUSD" 0
        none)
      ("BTC-USD", "kraken") (-5) 0 (seedRow "BTC-USD" "kraken" "XBTUSD" (-5)).2.native
      "BTCUSD" := by
  have hsym : sampleConfig.get? "BTC-USD" =
      some ⟨"BTC-USD", Dict.empty.set "kraken" "XBTUSD"⟩ := rfl
  have hrow : (⟨"BTC-USD", "kraken", -5⟩, (seedRow "BTC-USD" "kraken" "XBTUSD" (-5)).2) ∈
      (seeded [(sampleConfig, some (-5))]).entries := List.mem_singleton.2 rfl
  exact (rename_works_iff [(sampleConfig, some (-5))] sampleConfig hsym hrow (by decide)).2
    ⟨rfl, by decide +kernel, by decide +kernel⟩

/-- Seeded by default, retired at 100 and seeded again: from 100 on the pair has no ticker. -/
theorem rename_not_recorded :
    ¬ ∀ (calls : List (Dict String SymbolMap × Option Int)) (byCanonical : Dict String SymbolMap)
      (eff : Option Int) (canonical venue old new : String) (effectiveFromNs effectiveToNs : Int)
      (row : Mapping), toNative byCanonical canonical venue = some old →
        (⟨canonical, venue, effectiveFromNs⟩, row) ∈
          (seeded (calls ++ [(byCanonical, eff)])).entries →
        row.native = old → effectiveFromNs < effectiveToNs →
        Renamed (seeded (calls ++ [(byCanonical, eff)]))
          (renameTicker (seeded (calls ++ [(byCanonical, eff)])) byCanonical canonical venue new
            effectiveToNs none)
          (canonical, venue) effectiveFromNs effectiveToNs old new := by
  intro h
  have hrenamed := h [] sampleConfig none "BTC-USD" "kraken" "XBTUSD" "BTCUSD" 0 100
    (seedRow "BTC-USD" "kraken" "XBTUSD" 0).2 rfl (List.mem_singleton.2 rfl) rfl (by decide)
  have hsince := hrenamed.since 100 (le_refl 100)
  revert hsince
  decide +kernel

end CryptoData
