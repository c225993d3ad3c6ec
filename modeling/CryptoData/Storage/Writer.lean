import CryptoData.Storage.Parquet
import Mathlib.Algebra.Order.Group.Multiset

/-!
# Writer — the batched partitioned writer

Rows are buffered under (table, symbol, venue, hour).  The two sections that run under the lock,
and the name of the file that a popped buffer is written to, are functions of their own here; what
happens between them is the subject of `Interleaving` and `FlushFailure`.

`buffered` and `filed` count rows together with the table they were appended to.  `Keyed` says that
every buffered row sits under its own key, and such rows are filed in the right place
(`filedRight_partFile`): an hour bucket determines the UTC date, so the date of the first row is
the date of all.
-/

namespace CryptoData

open Foundation

/-! ## Keys and buffers -/

/-- What the writer reads of a row. -/
class Row (ρ : Type*) where
  tsNs : ρ → Int
  symbol : ρ → String
  venue : ρ → String

instance : Row Trade where
  tsNs := Trade.tsNs
  symbol := Trade.symbol
  venue := Trade.venueName

structure Key where
  table : String
  symbol : String
  venue : String
  hour : Int
  deriving DecidableEq, Repr

structure Buffer (ρ : Type*) where
  rows : List ρ
  openedAtNs : Int
  hour : Int
  deriving DecidableEq, Repr

/-- The attribute `_buffers`. -/
abbrev Buffers (ρ : Type*) := Dict Key (Buffer ρ)

structure WriterConfig where
  batchRows : Int := 50000
  batchSeconds : Int := 60

variable {ρ : Type*} [Row ρ]

def keyOf (table : String) (row : ρ) : Key where
  table := table
  symbol := Row.symbol row
  venue := Row.venue row
  hour := hourBucket (Row.tsNs row)

/-- The locked section of `append`: the new buffers, and whether the caller should flush.  The
clock is read for a buffer that is created, and for the age of the buffer. -/
def lockedAppend (cfg : WriterConfig) (buffers : Buffers ρ) (table : String) (row : ρ)
    (openedNs checkedNs : Int) : Buffers ρ × Bool :=
  let key := keyOf table row
  let buf := (buffers.get? key).getD ⟨[], openedNs, key.hour⟩
  let rows := buf.rows ++ [row]
  (buffers.set key { buf with rows := rows },
    decide (cfg.batchRows ≤ rows.length) ||
      decide (cfg.batchSeconds * 1000000000 ≤ checkedNs - buf.openedAtNs))

/-- `self._buffers.pop(key, None)`. -/
def lockedPop (buffers : Buffers ρ) (key : Key) : Buffers ρ × Option (Buffer ρ) :=
  (buffers.erase key, buffers.get? key)

/-- `part_dir / f"part-h{hour % 24:02d}-{suffix}.parquet"`, with the date of the first row. -/
def partFile (key : Key) (first : ρ) (suffixNs : Int) : PartPath where
  partition := ⟨key.table, key.symbol, key.venue, dateStr (Row.tsNs first)⟩
  name := .hourPart (key.hour % 24) suffixNs

/-! ## Counting rows -/

section Count

omit [Row ρ]

/-- Rows together with their table. -/
def tagged (table : String) (rows : List ρ) : Multiset (String × ρ) :=
  rows.map fun r => (table, r)

lemma tagged_append (table : String) (rows rows' : List ρ) :
    tagged table (rows ++ rows') = tagged table rows + tagged table rows' := by
  simp [tagged]

/-- The rows in all buffers. -/
def buffered (buffers : Buffers ρ) : Multiset (String × ρ) :=
  buffers.measure fun key buf => tagged key.table buf.rows

/-- The rows in all part files. -/
def filed (files : Store ρ) : Multiset (String × ρ) :=
  files.measure fun path rows => tagged path.partition.table rows

/-- A pop takes the popped rows out of the buffers. -/
theorem buffered_lockedPop (buffers : Buffers ρ) (key : Key) :
    buffered buffers = (lockedPop buffers key).2.elim 0 (fun buf => tagged key.table buf.rows) +
      buffered (lockedPop buffers key).1 :=
  Dict.measure_erase buffers key _

/-- A write under a new name adds its rows to the files. -/
theorem filed_write {files : Store ρ} {path : PartPath} (hfresh : path ∉ files.keys)
    (rows : List ρ) :
    filed (files.write path rows) = tagged path.partition.table rows + filed files := by
  have hset := Dict.measure_set files path rows fun path (rows : List ρ) =>
    tagged path.partition.table rows
  rw [Dict.get?_eq_none_iff.2 hfresh] at hset
  simpa [filed, Store.write] using hset

lemma mem_filed {files : Store ρ} {path : PartPath} {rows : List ρ} {r : ρ}
    (hget : files.get? path = some rows) (hr : r ∈ rows) :
    (path.partition.table, r) ∈ filed files := by
  rw [filed, Dict.measure_erase files path, hget]
  refine Multiset.mem_add.2 (Or.inl ?_)
  exact Multiset.mem_coe.2 (List.mem_map.2 ⟨r, hr, rfl⟩)

lemma buffered_of_keys_nil {buffers : Buffers ρ} (h : buffers.keys = []) :
    buffered buffers = 0 := by
  have hentries : buffers.entries = [] := List.map_eq_nil_iff.1 h
  simp [buffered, Dict.measure, hentries]

end Count

/-- An append adds its row to the buffers. -/
theorem buffered_lockedAppend (cfg : WriterConfig) (buffers : Buffers ρ) (table : String) (row : ρ)
    (openedNs checkedNs : Int) :
    buffered (lockedAppend cfg buffers table row openedNs checkedNs).1 =
      buffered buffers + {(table, row)} := by
  let key := keyOf table row
  let buf := (buffers.get? key).getD ⟨[], openedNs, key.hour⟩
  have hset := Dict.measure_set buffers key { buf with rows := buf.rows ++ [row] }
    fun key (buf : Buffer ρ) => tagged key.table buf.rows
  -- A buffer that has just been created holds nothing yet.
  have hold : (buffers.get? key).elim 0 (fun buf => tagged key.table buf.rows) =
      tagged key.table buf.rows := by
    cases hget : buffers.get? key with
    | none => simp [buf, hget, tagged]
    | some b => simp [buf, hget]
  have hnew : tagged key.table (buf.rows ++ [row]) = tagged key.table buf.rows + {(table, row)} :=
    tagged_append key.table buf.rows [row]
  rw [hold, hnew] at hset
  apply add_right_cancel (b := tagged key.table buf.rows)
  calc
    buffered (lockedAppend cfg buffers table row openedNs checkedNs).1 + tagged key.table buf.rows
        = tagged key.table buf.rows + {(table, row)} + buffered buffers := hset
    _ = buffered buffers + {(table, row)} + tagged key.table buf.rows := by
        rw [add_comm (tagged key.table buf.rows), add_comm ({(table, row)} + _), add_assoc]

/-! ## Where rows are filed -/

/-- Every buffered row sits under its own key. -/
def Keyed (buffers : Buffers ρ) : Prop :=
  ∀ key buf, buffers.get? key = some buf → ∀ r ∈ buf.rows, keyOf key.table r = key

/-- The file holds rows of the row's symbol, venue, UTC date and hour of day. -/
structure FiledRight (path : PartPath) (r : ρ) : Prop where
  symbol : path.partition.symbol = Row.symbol r
  venue : path.partition.venue = Row.venue r
  date : path.partition.date = dateStr (Row.tsNs r)
  hour : ∃ suffixNs, path.name = .hourPart (gmtimeHour (Row.tsNs r / nsPerSec)) suffixNs

/-- The file of a popped buffer is the right place for each of its rows. -/
theorem filedRight_partFile {key : Key} {first : ρ} {rest : List ρ} (suffixNs : Int)
    (hkeyed : ∀ r ∈ first :: rest, keyOf key.table r = key) :
    ∀ r ∈ first :: rest, FiledRight (partFile key first suffixNs) r := by
  intro r hr
  have hkey := hkeyed r hr
  have hhour : hourBucket (Row.tsNs r) = key.hour := congrArg Key.hour hkey
  have hfirst : hourBucket (Row.tsNs first) = key.hour :=
    congrArg Key.hour (hkeyed first List.mem_cons_self)
  refine ⟨(congrArg Key.symbol hkey).symm, (congrArg Key.venue hkey).symm, ?_, suffixNs, ?_⟩
  · exact dateStr_eq_of_hourBucket_eq (hfirst.trans hhour.symm)
  · rw [← hourBucket_emod_eq_gmtimeHour, hhour]
    rfl

lemma keyed_lockedAppend (cfg : WriterConfig) {buffers : Buffers ρ} (h : Keyed buffers)
    (table : String) (row : ρ) (openedNs checkedNs : Int) :
    Keyed (lockedAppend cfg buffers table row openedNs checkedNs).1 := by
  intro key buf hget r hr
  by_cases hkey : key = keyOf table row
  · subst hkey
    have hbuf := Option.some.inj ((Dict.get?_set_self buffers _ _).symm.trans hget)
    subst hbuf
    rcases List.mem_append.1 hr with hold | hnew
    -- An old row of the buffer was keyed before; a new buffer has no old row.
    · cases hprev : buffers.get? (keyOf table row) with
      | none => simp [hprev] at hold
      | some b =>
          rw [hprev] at hold
          exact h (keyOf table row) b hprev r hold
    · rw [List.mem_singleton.1 hnew]
      rfl
  · exact h key buf ((Dict.get?_set_ne buffers _ hkey).symm.trans hget) r hr

lemma keyed_lockedPop {buffers : Buffers ρ} (h : Keyed buffers) (key : Key) :
    Keyed (lockedPop buffers key).1 := by
  intro key' buf hget
  have hmem := Dict.mem_erase_iff.1 (Dict.get?_eq_some_iff.1 hget)
  exact h key' buf (Dict.get?_eq_some_iff.2 hmem.2)

end CryptoData
