import CryptoData.Core.Symbols
import CryptoData.Storage.Parquet

/-!
# Corrections — the append-only log

`recordCorrection` checks the kind and the severity against two fixed sets, then inserts one row
under a clock reading.  Over a timely world these checks are the only ones that can fail
(`recordCorrection_isOk_iff`), and a call that passes them adds one row (`recordCorrection_spec`).
-/

namespace CryptoData

open Foundation

/-- The text of a list of strings, as an f-string renders it. -/
def renderList (xs : List String) : String :=
  "[" ++ ", ".intercalate (xs.map fun x => "'" ++ x ++ "'") ++ "]"

def correctionSeverities : List String :=
  ["info", "minor", "major", "critical"]

def correctionKinds : List String :=
  ["backfill", "restatement", "bad_range", "gap", "note"]

/-- Why `record_correction` raises; `correction_id` is the primary key of the log. -/
inductive CorrectionError
  | valueError (message : String)
  | duplicateKey (correctionId : Int)
  deriving DecidableEq, Repr

/-- The text of both `ValueError`s. -/
def mustBeOneOf (field : String) (allowed : List String) (got : String) : String :=
  field ++ " must be one of " ++ renderList (sortedSet allowed) ++ ", got '" ++ got ++ "'"

namespace World

/-- `INSERT INTO corrections ...`, one clock reading later. -/
def addCorrection (w : World) (c : Correction) : World :=
  { w.tock with corrections := w.corrections ++ [c] }

/-- `record_correction(...)`: the world with the new row, and its id. -/
def recordCorrection (w : World) (tableName kind severity : String) (symbol venue : Option String)
    (effectiveFromNs effectiveToNs : Int) (rowsAffected : Option ℕ) (note : Option String) :
    Except CorrectionError (World × Int) :=
  if kind ∉ correctionKinds then
    .error (.valueError (mustBeOneOf "kind" correctionKinds kind))
  else if severity ∉ correctionSeverities then
    .error (.valueError (mustBeOneOf "severity" correctionSeverities severity))
  -- The id is taken after the checks.
  else if w.corrections.any fun c => decide (c.correctionId = w.now) then
    .error (.duplicateKey w.now)
  else
    .ok
      (w.addCorrection
        { correctionId := w.now
          recordedAtNs := w.now
          effectiveFromNs := effectiveFromNs
          effectiveToNs := effectiveToNs
          tableName := tableName
          symbol := symbol
          venue := venue
          kind := kind
          severity := severity
          rowsAffected := rowsAffected
          note := note },
        w.now)

variable {w : World} {tableName kind severity : String} {symbol venue : Option String}
  {effectiveFromNs effectiveToNs : Int} {rowsAffected : Option ℕ} {note : Option String}

/-- A clock reading is a new id. -/
lemma Timely.fresh_correction (h : w.Timely) :
    (w.corrections.any fun c => decide (c.correctionId = w.now)) = false := by
  refine List.any_eq_false.2 ?_
  intro c hc
  simpa using (h.corrections c hc).ne

theorem Timely.addCorrection (h : w.Timely) {c : Correction} (hid : c.correctionId = w.now) :
    (w.addCorrection c).Timely where
  increasing := h.increasing
  trades := h.tock.trades
  bars := h.tock.bars
  corrections := by
    intro c' hc'
    rcases List.mem_append.1 hc' with hold | hnew
    · exact h.tock.corrections c' hold
    · rw [List.mem_singleton.1 hnew, hid]
      exact h.now_lt_tock

/-- A call with a known kind and severity adds one row and nothing else. -/
theorem recordCorrection_spec (h : w.Timely) (hkind : kind ∈ correctionKinds)
    (hseverity : severity ∈ correctionSeverities) :
    w.recordCorrection tableName kind severity symbol venue effectiveFromNs effectiveToNs
        rowsAffected note =
      .ok (w.addCorrection ⟨w.now, w.now, effectiveFromNs, effectiveToNs, tableName, symbol, venue,
        kind, severity, rowsAffected, note⟩, w.now) := by
  unfold recordCorrection
  rw [if_neg (not_not.2 hkind), if_neg (not_not.2 hseverity), h.fresh_correction,
    if_neg Bool.false_ne_true]

/-- Only a kind or a severity outside its set is refused. -/
theorem recordCorrection_isOk_iff (h : w.Timely) :
    (∃ out, w.recordCorrection tableName kind severity symbol venue effectiveFromNs effectiveToNs
        rowsAffected note = .ok out) ↔
      kind ∈ correctionKinds ∧ severity ∈ correctionSeverities := by
  constructor
  · intro hok
    rcases hok with ⟨out, hout⟩
    unfold recordCorrection at hout
    by_cases hkind : kind ∈ correctionKinds
    · rw [if_neg (not_not.2 hkind)] at hout
      by_cases hseverity : severity ∈ correctionSeverities
      · exact ⟨hkind, hseverity⟩
      · rw [if_pos hseverity] at hout
        cases hout
    · rw [if_pos hkind] at hout
      cases hout
  · intro hsets
    exact ⟨_, recordCorrection_spec h hsets.1 hsets.2⟩

end World

end CryptoData
