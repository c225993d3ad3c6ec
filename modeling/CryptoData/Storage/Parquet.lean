import CryptoData.Core.Trade
import CryptoData.Foundation.Dict
import Mathlib.Algebra.Order.Group.Multiset

/-!
# Parquet — partitions, part files and the one-shot writer

A table is a tree of partition directories, each holding part files.  A `Store` is the content of
such a tree: the rows of every file, by path.  Readers see the rows of all files
(`Store.allRows`), so a write is an append exactly when its path is new (`Store.allRows_write`).

`World` is what the batch jobs share: the raw trades, the derived bars, the corrections log and the
clock.  Part names carry a clock reading; `World.Timely` says that readings increase and that no
stored name lies in the future, which is what makes every write an append.
-/

namespace CryptoData

open Foundation

/-! ## Paths -/

/-- The keys of `SCHEMAS`. -/
def schemaTables : List String :=
  ["trades", "quotes", "book_l2_snapshot", "funding", "open_interest", "bars_1s", "bars_ref"]

/-- A file name inside a partition directory. -/
inductive PartName
  | hourPart (hour suffix : Int)
  | part (suffix : Int)
  | compacted (suffix : Int)
  deriving DecidableEq, Repr

namespace PartName

def render : PartName → String
  | hourPart hour suffix => "part-h" ++ zeroPad 2 hour ++ "-" ++ toString suffix ++ ".parquet"
  | part suffix => "part-" ++ toString suffix ++ ".parquet"
  | compacted suffix => "compacted-" ++ toString suffix ++ ".parquet"

/-- The clock reading in the name. -/
def suffix : PartName → Int
  | hourPart _ suffix => suffix
  | part suffix => suffix
  | compacted suffix => suffix

/-- The glob `part-*.parquet`. -/
def isPart : PartName → Bool
  -- A compacted file does not match the glob, so it is not merged again.
  | compacted _ => false
  | _ => true

end PartName

/-- The arguments of `partition_path`. -/
structure Partition where
  table : String
  symbol : String
  venue : String
  date : String
  deriving DecidableEq, Repr

/-- A file of a table, by directory and name. -/
structure PartPath where
  partition : Partition
  name : PartName
  deriving DecidableEq, Repr

/-! ## Stores -/

/-- The files of a table and their rows. -/
abbrev Store (ρ : Type*) := Dict PartPath (List ρ)

namespace Store

variable {ρ : Type*}

/-- The rows of every file under the tree. -/
def allRows (s : Store ρ) : List ρ :=
  s.entries.flatMap Prod.snd

/-- `pq.write_table(rows, path)`: a file of that name is replaced. -/
def write (s : Store ρ) (path : PartPath) (rows : List ρ) : Store ρ :=
  s.set path rows

/-- `sorted(part_dir.glob(...))`: the names that satisfy `p`, in the order of their text. -/
def sortedNames (s : Store ρ) (partition : Partition) (p : PartName → Bool) : List PartName :=
  ((s.keys.filter fun path => decide (path.partition = partition) && p path.name).map
    PartPath.name).insertionSort fun m n => m.render ≤ n.render

/-- The concatenation of the named files. -/
def readNames (s : Store ρ) (partition : Partition) (names : List PartName) : List ρ :=
  names.flatMap fun name => s.getD ⟨partition, name⟩ []

/-- A write under a new name appends its rows. -/
theorem allRows_write {s : Store ρ} {path : PartPath} (hfresh : path ∉ s.keys) (rows : List ρ) :
    (s.write path rows).allRows = s.allRows ++ rows := by
  simp [allRows, write, Dict.set, hfresh]

/-- The rows of every file, each with the directory it lies in. -/
def located (s : Store ρ) : Multiset (Partition × ρ) :=
  s.measure fun path rows => (rows.map fun r => (path.partition, r) : Multiset (Partition × ρ))

theorem located_write {s : Store ρ} {path : PartPath} (hfresh : path ∉ s.keys) (rows : List ρ) :
    (s.write path rows).located =
      (rows.map fun r => (path.partition, r) : Multiset (Partition × ρ)) + s.located := by
  have hset := Dict.measure_set s path rows fun path (rows : List ρ) =>
    (rows.map fun r => (path.partition, r) : Multiset (Partition × ρ))
  rw [Dict.get?_eq_none_iff.2 hfresh] at hset
  simpa [located, write] using hset

lemma mem_located_iff {s : Store ρ} {partition : Partition} {r : ρ} :
    (partition, r) ∈ s.located ↔
      ∃ name rows, s.get? ⟨partition, name⟩ = some rows ∧ r ∈ rows := by
  have hmem : (partition, r) ∈ s.located ↔
      ∃ e ∈ s.entries, (partition, r) ∈ (e.2.map fun r => (e.1.partition, r)) := by
    unfold located Dict.measure
    induction s.entries with
    | nil => simp
    | cons e es ih => simp [ih]
  rw [hmem]
  constructor
  · intro h
    rcases h with ⟨⟨⟨dir, name⟩, rows⟩, he, hr⟩
    rcases List.mem_map.1 hr with ⟨r', hr', heq⟩
    cases heq
    exact ⟨name, rows, Dict.get?_eq_some_iff.2 he, hr'⟩
  · intro h
    rcases h with ⟨name, rows, hget, hr⟩
    exact ⟨(⟨partition, name⟩, rows), Dict.get?_eq_some_iff.1 hget,
      List.mem_map.2 ⟨r, hr, rfl⟩⟩

/-- The rows in some of the directories are those of the files there. -/
lemma filter_located (s : Store ρ) (p : Partition → Prop) [DecidablePred p] :
    (s.located.filter fun row => p row.1) =
      ((s.entries.filter fun e => decide (p e.1.partition)).map fun e =>
        (e.2.map fun r => (e.1.partition, r) : Multiset (Partition × ρ))).sum := by
  unfold located Dict.measure
  induction s.entries with
  | nil => rfl
  | cons e es ih =>
      have hmem : ∀ row ∈ (e.2.map fun r => (e.1.partition, r) : Multiset (Partition × ρ)),
          row.1 = e.1.partition := by
        intro row hrow
        rcases List.mem_map.1 (Multiset.mem_coe.1 hrow) with ⟨r, _, rfl⟩
        rfl
      rw [List.map_cons, List.sum_cons, Multiset.filter_add, ih]
      by_cases he : p e.1.partition
      · have hall : ∀ row ∈ (e.2.map fun r => (e.1.partition, r) : Multiset (Partition × ρ)),
            p row.1 := fun row hrow => (hmem row hrow).symm ▸ he
        rw [Multiset.filter_eq_self.2 hall, List.filter_cons_of_pos (by simpa using he),
          List.map_cons, List.sum_cons]
      · have hnone : ∀ row ∈ (e.2.map fun r => (e.1.partition, r) : Multiset (Partition × ρ)),
            ¬ p row.1 := fun row hrow => (hmem row hrow).symm ▸ he
        rw [Multiset.filter_eq_nil.2 hnone, List.filter_cons_of_neg (by simpa using he), zero_add]

lemma coe_allRows (s : Store ρ) : (s.allRows : Multiset ρ) = s.located.map Prod.snd := by
  unfold allRows located Dict.measure
  induction s.entries with
  | nil => rfl
  | cons e es ih => simp [← ih, Function.comp_def]

end Store

/-! ## The shared world -/

/-- A row of the `corrections` log. -/
structure Correction where
  correctionId : Int
  recordedAtNs : Int
  effectiveFromNs : Int
  effectiveToNs : Int
  tableName : String
  symbol : Option String
  venue : Option String
  kind : String
  severity : String
  rowsAffected : Option ℕ
  note : Option String
  deriving DecidableEq, Repr

/-- `clock i` is what the `i`-th call of `time.time_ns()` returns; `tick` calls have been made. -/
structure World where
  clock : ℕ → Int
  tick : ℕ
  trades : Store Trade
  bars : Store Bar
  corrections : List Correction

namespace World

/-- The next clock reading. -/
def now (w : World) : Int :=
  w.clock w.tick

/-- The world after a clock reading was taken. -/
def tock (w : World) : World :=
  { w with tick := w.tick + 1 }

/-- `write_dataframe("trades", rows, symbol=..., venue=..., date=...)`. -/
def writeTrades (w : World) (rows : List Trade) (symbol venue date : String) : World :=
  { w.tock with trades := w.trades.write ⟨⟨"trades", symbol, venue, date⟩, .part w.now⟩ rows }

/-- `write_dataframe("bars_1s", rows, symbol=..., venue=..., date=...)`. -/
def writeBars (w : World) (rows : List Bar) (symbol venue date : String) : World :=
  { w.tock with bars := w.bars.write ⟨⟨"bars_1s", symbol, venue, date⟩, .part w.now⟩ rows }

/-- Clock readings increase, and every stored name and id carries an earlier one. -/
structure Timely (w : World) : Prop where
  increasing : ∀ i j, i < j → w.clock i < w.clock j
  trades : ∀ path ∈ w.trades.keys, path.name.suffix < w.now
  bars : ∀ path ∈ w.bars.keys, path.name.suffix < w.now
  corrections : ∀ c ∈ w.corrections, c.correctionId < w.now

lemma Timely.now_lt_tock {w : World} (h : w.Timely) : w.now < w.tock.now :=
  h.increasing w.tick (w.tick + 1) (Nat.lt_succ_self _)

theorem Timely.tock {w : World} (h : w.Timely) : w.tock.Timely where
  increasing := h.increasing
  trades := fun path hpath => lt_trans (h.trades path hpath) h.now_lt_tock
  bars := fun path hpath => lt_trans (h.bars path hpath) h.now_lt_tock
  corrections := fun c hc => lt_trans (h.corrections c hc) h.now_lt_tock

/-- A fresh process over one file of trades, named before the first reading. -/
lemma Timely.single {clock : ℕ → Int} (hclock : ∀ i j, i < j → clock i < clock j)
    {path : PartPath} (hpath : path.name.suffix < clock 0) (rows : List Trade) :
    (World.mk clock 0 (Dict.empty.set path rows) Dict.empty []).Timely where
  increasing := hclock
  trades := by
    intro path' hmem
    rcases Dict.mem_keys_set.1 hmem with rfl | hold
    · exact hpath
    · cases hold
  bars := by
    intro path' hmem
    cases hmem
  corrections := by
    intro c hc
    cases hc

/-- A name that carries the next reading is not in use. -/
lemma Timely.fresh_trades {w : World} (h : w.Timely) {path : PartPath}
    (hpath : path.name.suffix = w.now) : path ∉ w.trades.keys := by
  intro hmem
  exact absurd (h.trades path hmem) (by rw [hpath]; exact lt_irrefl _)

lemma Timely.fresh_bars {w : World} (h : w.Timely) {path : PartPath}
    (hpath : path.name.suffix = w.now) : path ∉ w.bars.keys := by
  intro hmem
  exact absurd (h.bars path hmem) (by rw [hpath]; exact lt_irrefl _)

theorem Timely.writeTrades {w : World} (h : w.Timely) (rows : List Trade)
    (symbol venue date : String) : (w.writeTrades rows symbol venue date).Timely where
  increasing := h.increasing
  trades := by
    intro path hpath
    rcases Dict.mem_keys_set.1 hpath with rfl | hold
    · exact h.now_lt_tock
    · exact h.tock.trades path hold
  bars := h.tock.bars
  corrections := h.tock.corrections

theorem Timely.writeBars {w : World} (h : w.Timely) (rows : List Bar)
    (symbol venue date : String) : (w.writeBars rows symbol venue date).Timely where
  increasing := h.increasing
  trades := h.tock.trades
  bars := by
    intro path hpath
    rcases Dict.mem_keys_set.1 hpath with rfl | hold
    · exact h.now_lt_tock
    · exact h.tock.bars path hold
  corrections := h.tock.corrections

theorem allRows_writeBars {w : World} (h : w.Timely) (rows : List Bar)
    (symbol venue date : String) :
    (w.writeBars rows symbol venue date).bars.allRows = w.bars.allRows ++ rows :=
  Store.allRows_write (h.fresh_bars rfl) rows

end World

end CryptoData
