import CryptoData.Storage.CompactOrder
import CryptoData.Storage.Writer
import Mathlib.Data.List.Induction

/-!
# PartNames — which part files a sequence of writes creates

`_flush_key` names its file by the hour of the day and a clock reading, `write_dataframe` by a clock
reading alone.  The texts of two such names are the same only if the names are (`render_injective`),
so a write replaces the file of an earlier one exactly if both go to one directory, by the same
function (and hour), and read the same time.  A sequence of writes overwrites nothing exactly if no
two of them do (`writes_create_new_files_iff`).
-/

namespace CryptoData

open Foundation

/-! ## The calls -/

section Calls

variable {ρ : Type} [Row ρ]

/-- A call that may write a part: `_flush_key(key)`, with the buffer that it pops, or
`write_dataframe(table, rows, ...)`. -/
inductive WriteCall (ρ : Type)
  | flushKey (key : Key) (popped : Option (Buffer ρ))
  | writeDataframe (table : String) (rows : List ρ) (symbol venue date : String)

/-- The file that the call writes if its clock reading is `suffix`. -/
def WriteCall.file (suffix : Int) : WriteCall ρ → Option (PartPath × List ρ)
  | .flushKey _ none => none
  | .flushKey key (some buf) =>
      match buf.rows with
      -- `if buf is None or not buf.rows: return`, before the clock is read.
      | [] => none
      | first :: rest =>
          -- `schema_for` raises before anything is written.
          if key.table ∈ schemaTables then some (partFile key first suffix, first :: rest) else none
  | .writeDataframe table rows symbol venue date =>
      if table ∈ schemaTables then some (⟨⟨table, symbol, venue, date⟩, .part suffix⟩, rows)
      else none

/-- A call and its reading of the clock. -/
abbrev TimedCall (ρ : Type) := WriteCall ρ × Int

def TimedCall.file (c : TimedCall ρ) : Option (PartPath × List ρ) :=
  c.1.file c.2

/-- The rows that the call writes. -/
def TimedCall.rows (c : TimedCall ρ) : List ρ :=
  c.file.elim [] Prod.snd

/-- The files after one call. -/
def perform (s : Store ρ) (c : TimedCall ρ) : Store ρ :=
  c.file.elim s fun file => s.write file.1 file.2

/-- The files after all calls. -/
def afterCalls (s : Store ρ) (calls : List (TimedCall ρ)) : Store ρ :=
  calls.foldl perform s

/-- A file in the directory has that name. -/
def Taken (s : Store ρ) (path : PartPath) : Prop :=
  ∃ name ∈ namesIn s path.partition, name.render = path.name.render

/-- Each call creates a file name that is not in its directory yet. -/
def CreatesNew (s : Store ρ) (calls : List (TimedCall ρ)) : Prop :=
  ∀ earlier c later, calls = earlier ++ c :: later →
    ∀ path rows, c.file = some (path, rows) → ¬ Taken (afterCalls s earlier) path

/-- And the rows of all earlier parts stay readable. -/
structure OverwritesNothing (s : Store ρ) (calls : List (TimedCall ρ)) : Prop where
  createsNew : CreatesNew s calls
  readable : ∀ earlier, earlier <+: calls →
    (afterCalls s earlier).allRows = s.allRows ++ earlier.flatMap TimedCall.rows

/-- Where a call writes, and by which scheme: `_flush_key` by an hour of the day, `write_dataframe`
by none. -/
def WriteCall.scheme : WriteCall ρ → Option (Partition × Option Int)
  | .flushKey _ none => none
  | .flushKey key (some buf) =>
      match buf.rows with
      | [] => none
      | first :: _ =>
          if key.table ∈ schemaTables then
            some (⟨key.table, key.symbol, key.venue, dateStr (Row.tsNs first)⟩, some (key.hour % 24))
          else none
  | .writeDataframe table _ symbol venue date =>
      if table ∈ schemaTables then some (⟨table, symbol, venue, date⟩, none) else none

/-- No two calls that write to one directory by one scheme read the same time. -/
def DistinctReadings (calls : List (TimedCall ρ)) : Prop :=
  calls.Pairwise fun c d => ∀ scheme, c.1.scheme = some scheme → d.1.scheme = some scheme →
    c.2 ≠ d.2

/-- No name that a call creates was there before the calls. -/
def NewTo (s : Store ρ) (calls : List (TimedCall ρ)) : Prop :=
  ∀ c ∈ calls, ∀ path rows, c.file = some (path, rows) → ¬ Taken s path

end Calls

/-! ## The texts of the names -/

namespace PartName

/-- The names that the two functions create. -/
def Written : PartName → Prop
  | hourPart hour _ => 0 ≤ hour ∧ hour < 24
  | part _ => True
  | compacted _ => False

lemma length_zeroPad_hour {hour : Int} (h0 : 0 ≤ hour) (h24 : hour < 24) :
    (zeroPad 2 hour).toList.length = 2 := by
  have hall : ∀ n ∈ List.range 24, (zeroPad 2 (n : ℕ)).toList.length = 2 := by decide +kernel
  lift hour to ℕ using h0
  exact hall hour (List.mem_range.2 (by exact_mod_cast h24))

/-- The two digits of an hour can be read back. -/
lemma ofDigitChars_zeroPad_hour {hour : Int} (h0 : 0 ≤ hour) (h24 : hour < 24) :
    (Nat.ofDigitChars 10 (zeroPad 2 hour).toList 0 : Int) = hour := by
  have hall : ∀ n ∈ List.range 24, Nat.ofDigitChars 10 (zeroPad 2 (n : ℕ)).toList 0 = n := by
    decide +kernel
  lift hour to ℕ using h0
  exact congrArg Nat.cast (hall hour (List.mem_range.2 (by exact_mod_cast h24)))

lemma toString_ne_h_cons (n : Int) (us cs : List Char) :
    (toString n).toList ++ us ≠ 'h' :: cs := by
  rcases toString_eq_cons n with ⟨c, ds, hds, hc⟩
  rw [hds, List.cons_append]
  intro h
  have hh : c = 'h' := (List.cons.inj h).1
  subst hh
  exact absurd hc (by decide)

/-- Two written names with one text are one name. -/
theorem render_injective {m n : PartName} (hm : m.Written) (hn : n.Written)
    (h : m.render = n.render) : m = n := by
  have hlist : m.render.toList = n.render.toList := congrArg String.toList h
  have hnumeral : ∀ {s t : Int}, (toString s).toList = (toString t).toList → s = t :=
    fun heq => toString_injective (String.toList_injective heq)
  cases m with
  | hourPart hour suffix =>
      cases n with
      | hourPart hour' suffix' =>
          simp only [render, String.toList_append, List.append_assoc] at hlist
          -- The hour takes two digits, so the texts are cut at the same place.
          have hlength : (zeroPad 2 hour).toList.length = (zeroPad 2 hour').toList.length := by
            rw [length_zeroPad_hour hm.1 hm.2, length_zeroPad_hour hn.1 hn.2]
          rcases List.append_inj (List.append_cancel_left hlist) hlength with ⟨hpad, hrest⟩
          have hhour : hour = hour' := by
            rw [← ofDigitChars_zeroPad_hour hm.1 hm.2, ← ofDigitChars_zeroPad_hour hn.1 hn.2, hpad]
          have hsuffix := hnumeral (List.append_cancel_right (List.append_cancel_left hrest))
          rw [hhour, hsuffix]
      | part suffix' =>
          simp only [render, String.toList_append, List.append_assoc] at hlist
          -- After `part-`, the one goes on with an `h` and the other with a numeral.
          change "part-".toList ++ _ = "part-".toList ++ _ at hlist
          exact absurd (List.append_cancel_left hlist.symm) (toString_ne_h_cons suffix' _ _)
      | compacted suffix' => exact absurd hn id
  | part suffix =>
      cases n with
      | hourPart hour' suffix' =>
          simp only [render, String.toList_append, List.append_assoc] at hlist
          change "part-".toList ++ _ = "part-".toList ++ _ at hlist
          exact absurd (List.append_cancel_left hlist) (toString_ne_h_cons suffix _ _)
      | part suffix' =>
          simp only [render, String.toList_append, List.append_assoc] at hlist
          rw [hnumeral (List.append_cancel_right (List.append_cancel_left hlist))]
      | compacted suffix' => exact absurd hn id
  | compacted suffix => exact absurd hm id

end PartName

/-! ## Runs -/

section Runs

variable {ρ : Type} [Row ρ] {s : Store ρ} {calls : List (TimedCall ρ)}

/-- The name that a call creates is one of its directory, scheme and reading. -/
lemma file_eq_some (c : TimedCall ρ) {path : PartPath} {rows : List ρ}
    (h : c.file = some (path, rows)) :
    path.name.Written ∧ ∃ scheme, c.1.scheme = some scheme ∧
      path = ⟨scheme.1, scheme.2.elim (.part c.2) fun hour => .hourPart hour c.2⟩ := by
  rcases c with ⟨call, now⟩
  cases call with
  | flushKey key popped =>
      cases popped with
      | none => cases h
      | some buf =>
          rcases buf with ⟨rows', opened, hour⟩
          cases rows' with
          | nil => cases h
          | cons first rest =>
              by_cases hknown : key.table ∈ schemaTables
              · cases (if_pos hknown).symm.trans h
                have hhour : (partFile key first now).name.Written :=
                  ⟨Int.emod_nonneg _ (by decide), Int.emod_lt_of_pos _ (by decide)⟩
                exact ⟨hhour, _, if_pos hknown, rfl⟩
              · cases (if_neg hknown).symm.trans h
  | writeDataframe table rows' symbol venue date =>
      by_cases hknown : table ∈ schemaTables
      · cases (if_pos hknown).symm.trans h
        exact ⟨trivial, _, if_pos hknown, rfl⟩
      · cases (if_neg hknown).symm.trans h

/-- A call with a scheme writes a file. -/
lemma exists_file (c : TimedCall ρ) {scheme : Partition × Option Int}
    (h : c.1.scheme = some scheme) : ∃ path rows, c.file = some (path, rows) := by
  rcases c with ⟨call, now⟩
  cases call with
  | flushKey key popped =>
      cases popped with
      | none => cases h
      | some buf =>
          rcases buf with ⟨rows', opened, hour⟩
          cases rows' with
          | nil => cases h
          | cons first rest =>
              by_cases hknown : key.table ∈ schemaTables
              · exact ⟨_, _, if_pos hknown⟩
              · cases (if_neg hknown).symm.trans h
  | writeDataframe table rows' symbol venue date =>
      by_cases hknown : table ∈ schemaTables
      · exact ⟨_, _, if_pos hknown⟩
      · cases (if_neg hknown).symm.trans h

omit [Row ρ] in
lemma taken_iff {path : PartPath} :
    Taken s path ↔ ∃ old ∈ s.keys, old.partition = path.partition ∧
      old.name.render = path.name.render := by
  simp only [Taken, namesIn, List.mem_map, List.mem_filter, decide_eq_true_eq]
  constructor
  · intro h
    rcases h with ⟨name, ⟨old, ⟨hold, hdir⟩, rfl⟩, hname⟩
    exact ⟨old, hold, hdir, hname⟩
  · intro h
    rcases h with ⟨old, hold, hdir, hname⟩
    exact ⟨old.name, ⟨old, ⟨hold, hdir⟩, rfl⟩, hname⟩

/-- One call takes the name of its file. -/
lemma taken_perform_iff (s : Store ρ) (c : TimedCall ρ) (path : PartPath) :
    Taken (perform s c) path ↔ Taken s path ∨ ∃ new rows, c.file = some (new, rows) ∧
      new.partition = path.partition ∧ new.name.render = path.name.render := by
  cases hfile : c.file with
  | none =>
      have hsame : perform s c = s := by
        rw [perform, hfile]
        rfl
      rw [hsame]
      refine (or_iff_left ?_).symm
      intro h
      rcases h with ⟨new, rows, hnew, _⟩
      cases hnew
  | some file =>
      have hwrite : perform s c = s.write file.1 file.2 := by
        rw [perform, hfile]
        rfl
      rw [hwrite, taken_iff, taken_iff]
      constructor
      · intro h
        rcases h with ⟨old, hold, hsame⟩
        rcases Dict.mem_keys_set.1 hold with rfl | hmem
        · exact Or.inr ⟨file.1, file.2, rfl, hsame⟩
        · exact Or.inl ⟨old, hmem, hsame⟩
      · intro h
        rcases h with ⟨old, hold, hsame⟩ | ⟨new, rows, hnew, hsame⟩
        · exact ⟨old, Dict.mem_keys_set.2 (Or.inr hold), hsame⟩
        · refine ⟨new, Dict.mem_keys_set.2 (Or.inl ?_), hsame⟩
          rw [Option.some.inj hnew]

lemma taken_afterCalls_iff (path : PartPath) :
    ∀ (calls : List (TimedCall ρ)) (s : Store ρ),
      Taken (afterCalls s calls) path ↔ Taken s path ∨ ∃ c ∈ calls, ∃ new rows,
        c.file = some (new, rows) ∧ new.partition = path.partition ∧
          new.name.render = path.name.render
  | [], s => by
      refine (or_iff_left ?_).symm
      intro h
      rcases h with ⟨c, hc, _⟩
      cases hc
  | c :: calls, s => by
      have hrest := taken_afterCalls_iff path calls (perform s c)
      change Taken (afterCalls (perform s c) calls) path ↔ _
      rw [hrest, taken_perform_iff, List.exists_mem_cons_iff, or_assoc]

/-- Two calls create one name exactly if they have one directory, one scheme and one reading. -/
lemma same_name_iff {c d : TimedCall ρ} {path path' : PartPath} {rows rows' : List ρ}
    (hc : c.file = some (path, rows)) (hd : d.file = some (path', rows')) :
    (path.partition = path'.partition ∧ path.name.render = path'.name.render) ↔
      (∃ scheme, c.1.scheme = some scheme ∧ d.1.scheme = some scheme) ∧ c.2 = d.2 := by
  rcases file_eq_some c hc with ⟨hwritten, ⟨dir, hour⟩, hscheme, rfl⟩
  rcases file_eq_some d hd with ⟨hwritten', ⟨dir', hour'⟩, hscheme', rfl⟩
  rw [hscheme, hscheme']
  constructor
  · intro h
    rcases h with ⟨hdir, hrender⟩
    have hdir' : dir = dir' := hdir
    have hname := PartName.render_injective hwritten hwritten' hrender
    subst hdir'
    cases hour with
    | none =>
        cases hour' with
        | none => exact ⟨⟨_, rfl, rfl⟩, PartName.part.inj hname⟩
        | some h' => cases hname
    | some h =>
        cases hour' with
        | none => cases hname
        | some h' =>
            rcases PartName.hourPart.inj hname with ⟨rfl, hreading⟩
            exact ⟨⟨_, rfl, rfl⟩, hreading⟩
  · intro h
    rcases h with ⟨⟨scheme, hs, hs'⟩, hreading⟩
    cases Option.some.inj (hs.trans hs'.symm)
    rw [hreading]
    exact ⟨rfl, rfl⟩

/-- What holds of each element and those before it. -/
lemma pairwise_iff_split {α : Type} {r : α → α → Prop} (xs : List α) :
    xs.Pairwise r ↔ ∀ before x after, xs = before ++ x :: after → ∀ y ∈ before, r y x := by
  constructor
  · intro h before x after hsplit y hy
    rw [hsplit] at h
    exact (List.pairwise_append.1 h).2.2 y hy x List.mem_cons_self
  · intro h
    induction xs using List.reverseRecOn with
    | nil => exact List.Pairwise.nil
    | append_singleton xs z ih =>
        -- A split of `xs` is one of the longer list; the split at `z` itself gives the rest.
        refine List.pairwise_append.2 ⟨ih ?_, List.pairwise_singleton r z, ?_⟩
        · intro before x after hsplit
          refine h before x (after ++ [z]) ?_
          rw [hsplit, List.append_assoc]
          rfl
        · intro y hy z' hz'
          rw [List.mem_singleton.1 hz']
          exact h xs z [] rfl y hy

/-- Each call creates a new name exactly if no reading repeats and no name was there before. -/
theorem createsNew_iff :
    CreatesNew s calls ↔ DistinctReadings calls ∧ NewTo s calls := by
  unfold DistinctReadings
  rw [pairwise_iff_split]
  constructor
  · intro h
    constructor
    · intro earlier c later hsplit d hd scheme hd' hc' hreading
      rcases exists_file c hc' with ⟨path, rows, hfile⟩
      rcases exists_file d hd' with ⟨path', rows', hfile'⟩
      refine h earlier c later hsplit path rows hfile ((taken_afterCalls_iff path earlier s).2 ?_)
      -- The earlier call has taken the name.
      have hsame := (same_name_iff hfile' hfile).2 ⟨⟨scheme, hd', hc'⟩, hreading⟩
      exact Or.inr ⟨d, hd, path', rows', hfile', hsame⟩
    · intro c hc path rows hfile htaken
      rcases List.append_of_mem hc with ⟨earlier, later, hsplit⟩
      exact h earlier c later hsplit path rows hfile
        ((taken_afterCalls_iff path earlier s).2 (Or.inl htaken))
  · intro h earlier c later hsplit path rows hfile htaken
    have hmem : c ∈ calls := hsplit ▸ List.mem_append_right _ List.mem_cons_self
    rcases (taken_afterCalls_iff path earlier s).1 htaken with
      hold | ⟨d, hd, path', rows', hfile', hsame⟩
    · exact h.2 c hmem path rows hfile hold
    · rcases (same_name_iff hfile' hfile).1 hsame with ⟨⟨scheme, hd', hc'⟩, hreading⟩
      exact h.1 earlier c later hsplit d hd scheme hd' hc' hreading

/-- New names append their rows to what is read. -/
lemma CreatesNew.allRows (calls : List (TimedCall ρ)) (h : CreatesNew s calls) :
    (afterCalls s calls).allRows = s.allRows ++ calls.flatMap TimedCall.rows := by
  induction calls using List.reverseRecOn with
  | nil => exact (List.append_nil _).symm
  | append_singleton calls c ih =>
      have hearlier : CreatesNew s calls := by
        intro earlier d later hsplit
        refine h earlier d (later ++ [c]) ?_
        rw [hsplit, List.append_assoc]
        rfl
      -- The last call writes to what the calls before it have left.
      have hlast : afterCalls s (calls ++ [c]) = perform (afterCalls s calls) c :=
        List.foldl_concat _ _ _ _
      rw [hlast, List.flatMap_append, List.flatMap_singleton, ← List.append_assoc, ← ih hearlier]
      cases hfile : c.file with
      | none =>
          rw [perform, TimedCall.rows, hfile]
          exact (List.append_nil _).symm
      | some file =>
          have hfresh : file.1 ∉ (afterCalls s calls).keys := by
            intro hmem
            exact h calls c [] rfl file.1 file.2 hfile (taken_iff.2 ⟨file.1, hmem, rfl, rfl⟩)
          rw [perform, TimedCall.rows, hfile]
          exact Store.allRows_write hfresh file.2

/-- A sequence of writes overwrites nothing exactly if no two of its calls write to one directory,
by one function and hour, at one reading of the clock, and no name was there before. -/
theorem writes_create_new_files_iff (s : Store ρ) (calls : List (TimedCall ρ)) :
    OverwritesNothing s calls ↔ DistinctReadings calls ∧ NewTo s calls := by
  rw [← createsNew_iff]
  constructor
  · intro h
    exact h.createsNew
  · intro h
    refine ⟨h, ?_⟩
    intro earlier hprefix
    rcases hprefix with ⟨rest, hrest⟩
    refine CreatesNew.allRows earlier ?_
    intro before c after hsplit
    refine h before c (after ++ rest) ?_
    rw [← hrest, hsplit, List.append_assoc]
    rfl

end Runs

/-- Two batches of one day, written at one reading. -/
def sameReading : List (TimedCall Trade) :=
  [(.writeDataframe "trades" [{ tsNs := 1000, price := 1, size := some 1 }] "X-USD" "okx"
      "1970-01-01", 7),
    (.writeDataframe "trades" [{ tsNs := 2000, price := 2, size := some 1 }] "X-USD" "okx"
      "1970-01-01", 7)]

/-- The first batch is gone. -/
theorem same_reading_loses_batch :
    ¬ OverwritesNothing Dict.empty sameReading ∧
      ((afterCalls Dict.empty sameReading).allRows.map Trade.tsNs) = [2000] := by
  constructor
  · intro h
    -- Two rows should be readable, and one is.
    have hall := congrArg List.length (h.readable sameReading (List.prefix_refl _))
    revert hall
    decide +kernel
  · decide +kernel

end CryptoData
