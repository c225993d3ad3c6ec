import CryptoData.Query.Raw
import CryptoData.Storage.CompactAll

/-!
# Coverage — the matrix of what is stored

`cda-coverage` groups the rows of every table by symbol, venue and date.  The groups go to the
metadata table `coverage` and to `coverage.json`, with their totals, and are laid out as a matrix of
symbols and venues in `coverage.md`.

No row is counted twice or left out: the lines are those of the directories that have rows, and all
totals, of the report, of its tables and of the cells of its matrix, are the number of stored rows
(`coverage_accounts`).  The matrix depends on the tree only through the rows in its directories
(`content_congr`), so the nightly compaction does not show.

A line names its day by ten characters, which is the whole name of a directory that a writer has
made (`length_dateStr`); the results are about trees without longer ones.

A report over an empty tree writes its file but leaves the table as it is, so that the two agree
throughout a run exactly if no such report comes after one that has found rows
(`coverage_mirrored_run_iff`).
-/

namespace CryptoData

open Foundation

/-! ## What the report reads -/

/-- What the view of each table shows of its rows, and what the files of a directory take up, in a
tree of which `connect` gets its views: a table with directories has a file. -/
structure DataTree where
  rows : String → List (Partition × Int)
  bytes : Partition → ℕ
  table_eq : ∀ table, ∀ row ∈ rows table, row.1.table = table

/-- `_DERIVED_TABLES`. -/
def derivedTables : List String :=
  ["bars_1s", "bars_ref"]

/-- The files under `data/raw` and `data/derived`. -/
structure Roots (ρ : Type) where
  raw : Store ρ
  derived : Store ρ

namespace Roots

variable {ρ : Type}

/-- The root of a view. -/
def viewed (roots : Roots ρ) (table : String) : Store ρ :=
  if table ∈ derivedTables then roots.derived else roots.raw

/-- `_partition_bytes(table, symbol, venue, date)`. -/
def partitionBytes (roots : Roots ρ) (size : PartPath → ℕ) (dir : Partition) : ℕ :=
  let root := if "bars".toList.isPrefixOf dir.table.toList then roots.derived else roots.raw
  ((root.keys.filter fun path => decide (path.partition = dir)).map size).sum

/-- What the report reads of the two roots; `size path` is `f.stat().st_size`. -/
def tree [Row ρ] (roots : Roots ρ) (size : PartPath → ℕ) : DataTree where
  rows := fun table => (viewRows (roots.viewed table) table).map fun row =>
    (row.1, Row.tsNs row.2)
  bytes := roots.partitionBytes size
  table_eq := by
    intro table row hrow
    rcases List.mem_map.1 hrow with ⟨row', hrow', rfl⟩
    rcases List.mem_flatMap.1 hrow' with ⟨e, he, hin⟩
    rcases List.mem_map.1 hin with ⟨r, _, rfl⟩
    exact of_decide_eq_true (List.mem_filter.1 he).2

end Roots

/-! ## The matrix -/

/-- A row of `coverage`. -/
structure CoverageRow where
  tableName : String
  symbol : String
  venue : String
  date : String
  rows : ℕ
  firstTsNs : Int
  lastTsNs : Int
  spanSeconds : Int
  bytesOnDisk : ℕ
  computedAtNs : Int
  deriving DecidableEq, Repr

/-- The primary key. -/
def CoverageRow.dir (r : CoverageRow) : Partition :=
  ⟨r.tableName, r.symbol, r.venue, r.date⟩

/-- `ORDER BY symbol, venue, date`. -/
def groupKey (dir : Partition) : String ×ₗ (String ×ₗ String) :=
  toLex (dir.symbol, toLex (dir.venue, dir.date))

/-- The times of the rows in a directory. -/
def timesIn (rows : List (Partition × Int)) (dir : Partition) : List Int :=
  (rows.filter fun row => decide (row.1 = dir)).map Prod.snd

/-- `str(date)[:10]`. -/
def dayOf (date : String) : String :=
  String.ofList (date.toList.take 10)

/-- The dictionary of a group; a group has a row, so it has a first and a last time. -/
def coverageLine (t : DataTree) (nowNs : Int) (table : String) (dir : Partition) : CoverageRow :=
  let times := timesIn (t.rows table) dir
  let lo := times.min?.getD 0
  let hi := times.max?.getD 0
  { tableName := table
    symbol := dir.symbol
    venue := dir.venue
    date := dayOf dir.date
    rows := times.length
    firstTsNs := lo
    lastTsNs := hi
    spanSeconds := (hi - lo) / nsPerSec
    bytesOnDisk := t.bytes ⟨table, dir.symbol, dir.venue, dayOf dir.date⟩
    computedAtNs := nowNs }

/-- `SELECT ... GROUP BY symbol, venue, date ORDER BY symbol, venue, date`: in the view of one table
these three tell the directory. -/
def tableCoverage (t : DataTree) (nowNs : Int) (table : String) : List CoverageRow :=
  (((t.rows table).map Prod.fst).dedup.insertionSort fun a b => groupKey a ≤ groupKey b).map
    (coverageLine t nowNs table)

/-- `_TS_TABLES`. -/
def tsTables : List String :=
  ["trades", "quotes", "funding", "open_interest", "book_l2_snapshot", "bars_1s", "bars_ref"]

/-- The data frame of `build_coverage()`; a table without a view has no rows. -/
def coverageFrame (t : DataTree) (nowNs : Int) : List CoverageRow :=
  (schemaTables.filter fun table => decide (table ∈ tsTables)).flatMap (tableCoverage t nowNs)

/-! ## The summary -/

/-- An element of `by_table`. -/
structure TableSummary where
  tableName : String
  partitions : ℕ
  rows : ℕ
  bytes : ℕ
  symbols : ℕ
  venues : ℕ
  firstDate : String
  lastDate : String
  deriving DecidableEq, Repr

structure CoverageSummary where
  partitions : ℕ
  totalRows : ℕ
  totalBytes : ℕ
  symbols : List String
  venues : List String
  dates : List String
  byTable : List TableSummary
  computedAtNs : Int
  deriving DecidableEq, Repr

/-- `df[df["table_name"] == table]`. -/
def ofTable (df : List CoverageRow) (table : String) : List CoverageRow :=
  df.filter fun r => decide (r.tableName = table)

def tableSummary (df : List CoverageRow) (table : String) : TableSummary :=
  let sub := ofTable df table
  { tableName := table
    partitions := sub.length
    rows := (sub.map CoverageRow.rows).sum
    bytes := (sub.map CoverageRow.bytesOnDisk).sum
    symbols := (sub.map CoverageRow.symbol).dedup.length
    venues := (sub.map CoverageRow.venue).dedup.length
    firstDate := (sub.map CoverageRow.date).min?.getD ""
    lastDate := (sub.map CoverageRow.date).max?.getD "" }

/-- `_summary(df)`; `none` is the `{"partitions": 0}` of an empty frame. -/
def coverageSummary (df : List CoverageRow) (nowNs : Int) : Option CoverageSummary :=
  if df.isEmpty then none
  else
    some
      { partitions := df.length
        totalRows := (df.map CoverageRow.rows).sum
        totalBytes := (df.map CoverageRow.bytesOnDisk).sum
        symbols := sortedSet (df.map CoverageRow.symbol)
        venues := sortedSet (df.map CoverageRow.venue)
        dates := sortedSet (df.map CoverageRow.date)
        byTable := (sortedSet (df.map CoverageRow.tableName)).map (tableSummary df)
        computedAtNs := nowNs }

/-- A section of `coverage.md`. -/
structure MatrixSection where
  tableName : String
  rows : ℕ
  bytes : ℕ
  firstDate : String
  lastDate : String
  venues : List String
  lines : List (String × List (Option ℕ))
  deriving DecidableEq, Repr

/-- A cell of the matrix: the rows of all dates, or the dot of no partition. -/
def matrixCell (sub : List CoverageRow) (sym v : String) : Option ℕ :=
  let cell := sub.filter fun r => decide (r.symbol = sym) && decide (r.venue = v)
  if cell.isEmpty then none else some (cell.map CoverageRow.rows).sum

def matrixSection (df : List CoverageRow) (table : String) : MatrixSection :=
  let sub := ofTable df table
  let venues := sortedSet (sub.map CoverageRow.venue)
  { tableName := table
    rows := (sub.map CoverageRow.rows).sum
    bytes := (sub.map CoverageRow.bytesOnDisk).sum
    firstDate := (sub.map CoverageRow.date).min?.getD ""
    lastDate := (sub.map CoverageRow.date).max?.getD ""
    venues := venues
    lines := (sortedSet (sub.map CoverageRow.symbol)).map fun sym =>
      (sym, venues.map (matrixCell sub sym)) }

/-- `_markdown_matrix(df)`, as what it lays out. -/
def markdownMatrix (df : List CoverageRow) : List MatrixSection :=
  (sortedSet (df.map CoverageRow.tableName)).map (matrixSection df)

/-! ## The report -/

/-- The metadata table, and what the two files tell. -/
structure CoverageState where
  coverage : List CoverageRow
  json : Option (Option CoverageSummary × List CoverageRow)
  markdown : Option (List MatrixSection)

/-- The directories of the days of a table are named by ten characters at most, as the writers name
them. -/
def DataTree.ShortDates (t : DataTree) (table : String) : Prop :=
  ∀ row ∈ t.rows table, row.1.date.length ≤ 10

/-- What a call of `main()` finds, and the readings of the clock. -/
structure CoverageCall where
  tree : DataTree
  builtNs : Int
  summarisedNs : Int
  short : ∀ table, tree.ShortDates table

/-- The data frame of a call. -/
def CoverageCall.frame (c : CoverageCall) : List CoverageRow :=
  coverageFrame c.tree c.builtNs

/-- `build_coverage()`; `none` is a primary key that is there already, which two directories whose
names share ten characters would lead to. -/
def buildCoverage (t : DataTree) (nowNs : Int) (s : CoverageState) :
    Option (CoverageState × List CoverageRow) :=
  let df := coverageFrame t nowNs
  if df.isEmpty then some (s, df)
  else if (df.map CoverageRow.dir).Nodup then some ({ s with coverage := df }, df)
  else none

/-- `main()`. -/
def coverageMain (c : CoverageCall) (s : CoverageState) : Option CoverageState := do
  let (s', df) ← buildCoverage c.tree c.builtNs s
  some
    { s' with
      json := some (coverageSummary df c.summarisedNs, df)
      markdown := some (markdownMatrix df) }

/-! ## What is counted -/

section Counted

variable {t : DataTree} {nowNs : Int} {table : String}

lemma mem_timesIn {rows : List (Partition × Int)} {dir : Partition} {ts : Int} :
    ts ∈ timesIn rows dir ↔ (dir, ts) ∈ rows := by
  simp only [timesIn, List.mem_map, List.mem_filter, decide_eq_true_eq]
  constructor
  · rintro ⟨row, ⟨hrow, rfl⟩, rfl⟩
    exact hrow
  · intro hrow
    exact ⟨(dir, ts), ⟨hrow, rfl⟩, rfl⟩

/-- The directories of a table that have rows. -/
def dirsOf (t : DataTree) (table : String) : List Partition :=
  ((t.rows table).map Prod.fst).dedup.insertionSort fun a b => groupKey a ≤ groupKey b

lemma dirsOf_nodup (t : DataTree) (table : String) : (dirsOf t table).Nodup :=
  (List.perm_insertionSort _ _).nodup_iff.2 (List.nodup_dedup _)

lemma mem_dirsOf {dir : Partition} : dir ∈ dirsOf t table ↔ ∃ ts, (dir, ts) ∈ t.rows table := by
  rw [dirsOf, List.mem_insertionSort, List.mem_dedup, List.mem_map]
  constructor
  · rintro ⟨row, hrow, rfl⟩
    exact ⟨row.2, hrow⟩
  · rintro ⟨ts, hts⟩
    exact ⟨(dir, ts), hts, rfl⟩

lemma dayOf_of_short {date : String} (h : date.length ≤ 10) : dayOf date = date := by
  have hlen : date.toList.length ≤ 10 := by
    rw [String.length_toList]
    exact h
  rw [dayOf, List.take_of_length_le hlen, String.ofList_toList]

/-- A line names the directory that it counts. -/
lemma dir_coverageLine (hshort : t.ShortDates table) (nowNs : Int) {dir : Partition}
    (hdir : dir ∈ dirsOf t table) : (coverageLine t nowNs table dir).dir = dir := by
  rcases mem_dirsOf.1 hdir with ⟨ts, hts⟩
  have htable : dir.table = table := t.table_eq table (dir, ts) hts
  have hday : dayOf dir.date = dir.date := dayOf_of_short (hshort (dir, ts) hts)
  subst htable
  simp only [CoverageRow.dir, coverageLine, hday]

lemma map_dir_tableCoverage (hshort : t.ShortDates table) (nowNs : Int) :
    (tableCoverage t nowNs table).map CoverageRow.dir = dirsOf t table := by
  rw [tableCoverage, List.map_map]
  refine (List.map_congr_left ?_).trans (List.map_id' _)
  intro dir hdir
  exact dir_coverageLine hshort nowNs hdir

/-- Every table of the schemas is summarised. -/
lemma coverageFrame_eq (t : DataTree) (nowNs : Int) :
    coverageFrame t nowNs = schemaTables.flatMap (tableCoverage t nowNs) := by
  have hall : (schemaTables.filter fun table => decide (table ∈ tsTables)) = schemaTables := by
    decide
  rw [coverageFrame, hall]

lemma tableName_of_mem {r : CoverageRow} (hr : r ∈ tableCoverage t nowNs table) :
    r.tableName = table := by
  rcases List.mem_map.1 hr with ⟨dir, _, rfl⟩
  rfl

lemma schemaTables_nodup : schemaTables.Nodup := by decide

lemma ofTable_coverageFrame (hknown : table ∈ schemaTables) :
    ofTable (coverageFrame t nowNs) table = tableCoverage t nowNs table := by
  rw [ofTable, coverageFrame_eq]
  exact filter_flatMap_key (fun _ _ hr => tableName_of_mem hr) schemaTables_nodup hknown

/-- The lines of a table count all of its rows. -/
lemma sum_rows_tableCoverage (t : DataTree) (nowNs : Int) (table : String) :
    ((tableCoverage t nowNs table).map CoverageRow.rows).sum = (t.rows table).length := by
  have hgroups := sum_groups Prod.fst (fun _ => 1) (t.rows table) (dirsOf_nodup t table)
    fun row hrow => mem_dirsOf.2 ⟨row.2, hrow⟩
  have hlines : (tableCoverage t nowNs table).map CoverageRow.rows =
      (dirsOf t table).map fun dir =>
        (((t.rows table).filter fun row => decide (row.1 = dir)).map fun _ => 1).sum := by
    rw [tableCoverage, List.map_map]
    refine List.map_congr_left ?_
    intro dir _
    simp [coverageLine, timesIn]
  rw [hlines, hgroups]
  simp

/-- What a line tells of its directory. -/
structure Tells (t : DataTree) (nowNs : Int) (r : CoverageRow) : Prop where
  rows : r.rows = (timesIn (t.rows r.tableName) r.dir).length
  first : r.firstTsNs ∈ timesIn (t.rows r.tableName) r.dir
  last : r.lastTsNs ∈ timesIn (t.rows r.tableName) r.dir
  between : ∀ ts ∈ timesIn (t.rows r.tableName) r.dir, r.firstTsNs ≤ ts ∧ ts ≤ r.lastTsNs
  span : r.spanSeconds = (r.lastTsNs - r.firstTsNs) / nsPerSec
  bytes : r.bytesOnDisk = t.bytes r.dir
  computed : r.computedAtNs = nowNs

lemma tells_coverageLine (hshort : t.ShortDates table) {dir : Partition}
    (hdir : dir ∈ dirsOf t table) : Tells t nowNs (coverageLine t nowNs table dir) := by
  have hname := dir_coverageLine hshort nowNs hdir
  rcases mem_dirsOf.1 hdir with ⟨ts, hts⟩
  have hne : timesIn (t.rows table) dir ≠ [] := List.ne_nil_of_mem (mem_timesIn.2 hts)
  obtain ⟨lo, hlo⟩ := Option.isSome_iff_exists.1 (List.isSome_min?_of_ne_nil hne)
  obtain ⟨hi, hhi⟩ := Option.isSome_iff_exists.1 (List.isSome_max?_of_ne_nil hne)
  have hlow := List.min?_eq_some_iff.1 hlo
  have hhigh := List.max?_eq_some_iff.1 hhi
  have hfirst : (coverageLine t nowNs table dir).firstTsNs = lo := by
    simp [coverageLine, hlo]
  have hlast : (coverageLine t nowNs table dir).lastTsNs = hi := by
    simp [coverageLine, hhi]
  refine ⟨?_, ?_, ?_, ?_, rfl, rfl, rfl⟩
  · rw [hname]
    rfl
  · rw [hname, hfirst]
    exact hlow.1
  · rw [hname, hlast]
    exact hhigh.1
  · rw [hname, hfirst, hlast]
    exact fun ts hts => ⟨hlow.2 ts hts, hhigh.2 ts hts⟩

/-! ## The totals -/

lemma getD_matrixCell (sub : List CoverageRow) (sym v : String) :
    (matrixCell sub sym v).getD 0 =
      ((((sub.filter fun r => decide (r.symbol = sym)).filter fun r => decide (r.venue = v))).map
        CoverageRow.rows).sum := by
  have hcell : (sub.filter fun r => decide (r.symbol = sym) && decide (r.venue = v)) =
      ((sub.filter fun r => decide (r.symbol = sym)).filter fun r => decide (r.venue = v)) := by
    rw [List.filter_filter]
    refine List.filter_congr ?_
    intro r _
    exact Bool.and_comm _ _
  rw [matrixCell, hcell]
  cases hempty : ((sub.filter fun r => decide (r.symbol = sym)).filter
      fun r => decide (r.venue = v)) with
  | nil => rfl
  | cons r rest => rfl

/-- All cells of a section. -/
def MatrixSection.cells (m : MatrixSection) : List ℕ :=
  m.lines.flatMap fun line => line.2.map fun cell => cell.getD 0

/-- The cells of a section add up to the rows of its header. -/
lemma sum_cells_matrixSection (df : List CoverageRow) (table : String) :
    (matrixSection df table).cells.sum = (matrixSection df table).rows := by
  let sub := ofTable df table
  let symbols := sortedSet (sub.map CoverageRow.symbol)
  let venues := sortedSet (sub.map CoverageRow.venue)
  have hline : ∀ sym : String,
      (venues.map fun v => (matrixCell sub sym v).getD 0).sum =
        ((sub.filter fun r => decide (r.symbol = sym)).map CoverageRow.rows).sum := by
    intro sym
    simp only [getD_matrixCell]
    refine sum_groups CoverageRow.venue CoverageRow.rows _ (sortedSet_nodup _) ?_
    intro r hr
    exact mem_sortedSet.2 (List.mem_map_of_mem (List.mem_of_mem_filter hr))
  have hall := sum_groups CoverageRow.symbol CoverageRow.rows sub
    (show symbols.Nodup from sortedSet_nodup _) fun r hr => mem_sortedSet.2 (List.mem_map_of_mem hr)
  refine Eq.trans ?_ hall
  have hcells : (matrixSection df table).cells =
      symbols.flatMap fun sym => venues.map fun v => (matrixCell sub sym v).getD 0 := by
    simp only [MatrixSection.cells, matrixSection, List.flatMap_map, List.map_map]
    rfl
  rw [hcells]
  induction symbols with
  | nil => rfl
  | cons sym symbols ih =>
      rw [List.flatMap_cons, List.sum_append, ih, hline, List.map_cons, List.sum_cons]

/-- How many rows the tables of the schemas have. -/
def treeRows (t : DataTree) : ℕ :=
  (schemaTables.map fun table => (t.rows table).length).sum

lemma sum_rows_coverageFrame (t : DataTree) (nowNs : Int) :
    ((coverageFrame t nowNs).map CoverageRow.rows).sum = treeRows t := by
  rw [coverageFrame_eq, treeRows]
  induction schemaTables with
  | nil => rfl
  | cons table tables ih =>
      rw [List.flatMap_cons, List.map_append, List.sum_append, ih, sum_rows_tableCoverage,
        List.map_cons, List.sum_cons]

/-- What is summed up table by table is summed up over all lines. -/
lemma sum_ofTable (df : List CoverageRow) (f : CoverageRow → ℕ) :
    ((sortedSet (df.map CoverageRow.tableName)).map fun table =>
      ((ofTable df table).map f).sum).sum = (df.map f).sum :=
  sum_groups CoverageRow.tableName f df (sortedSet_nodup _) fun _ hr =>
    mem_sortedSet.2 (List.mem_map_of_mem hr)

lemma map_dir_coverageFrame (hshort : ∀ table, t.ShortDates table) (nowNs : Int) :
    (coverageFrame t nowNs).map CoverageRow.dir = schemaTables.flatMap (dirsOf t) := by
  rw [coverageFrame_eq, List.map_flatMap]
  exact List.flatMap_congr fun table _ => map_dir_tableCoverage (hshort table) nowNs

lemma mem_map_dir_iff (hshort : ∀ table, t.ShortDates table) {dir : Partition} :
    dir ∈ (coverageFrame t nowNs).map CoverageRow.dir ↔
      dir.table ∈ schemaTables ∧ ∃ ts, (dir, ts) ∈ t.rows dir.table := by
  rw [map_dir_coverageFrame hshort, List.mem_flatMap]
  constructor
  · rintro ⟨table, hknown, hdir⟩
    rcases mem_dirsOf.1 hdir with ⟨ts, hts⟩
    have htable : dir.table = table := t.table_eq table (dir, ts) hts
    subst htable
    exact ⟨hknown, ts, hts⟩
  · rintro ⟨hknown, hrow⟩
    exact ⟨dir.table, hknown, mem_dirsOf.2 hrow⟩

/-- No directory has two lines. -/
lemma map_dir_nodup (hshort : ∀ table, t.ShortDates table) (nowNs : Int) :
    ((coverageFrame t nowNs).map CoverageRow.dir).Nodup := by
  rw [map_dir_coverageFrame hshort, List.nodup_flatMap]
  refine ⟨fun table _ => dirsOf_nodup t table, ?_⟩
  refine schemaTables_nodup.imp ?_
  intro table table' hne dir hdir hdir'
  rcases mem_dirsOf.1 hdir with ⟨ts, hts⟩
  rcases mem_dirsOf.1 hdir' with ⟨ts', hts'⟩
  exact hne ((t.table_eq table (dir, ts) hts).symm.trans (t.table_eq table' (dir, ts') hts'))

lemma mem_tableCoverage {r : CoverageRow} (hr : r ∈ coverageFrame t nowNs) :
    r.tableName ∈ schemaTables ∧ r ∈ tableCoverage t nowNs r.tableName := by
  rw [coverageFrame_eq] at hr
  rcases List.mem_flatMap.1 hr with ⟨table, hknown, hline⟩
  rw [tableName_of_mem hline]
  exact ⟨hknown, hline⟩

lemma tells_of_mem {r : CoverageRow} (hshort : t.ShortDates r.tableName)
    (hr : r ∈ coverageFrame t nowNs) : Tells t nowNs r := by
  rcases List.mem_map.1 (mem_tableCoverage hr).2 with ⟨dir, hdir, hline⟩
  rw [← hline]
  exact tells_coverageLine hshort hdir

/-- The tables with a section are known. -/
lemma known_of_mem_tableNames
    (h : table ∈ sortedSet ((coverageFrame t nowNs).map CoverageRow.tableName)) :
    table ∈ schemaTables := by
  rcases List.mem_map.1 (mem_sortedSet.1 h) with ⟨r, hr, rfl⟩
  exact (mem_tableCoverage hr).1

/-- A section is about all rows of its table. -/
lemma sum_rows_ofTable
    (h : table ∈ sortedSet ((coverageFrame t nowNs).map CoverageRow.tableName)) :
    ((ofTable (coverageFrame t nowNs) table).map CoverageRow.rows).sum =
      (t.rows table).length := by
  rw [ofTable_coverageFrame (known_of_mem_tableNames h), sum_rows_tableCoverage]

end Counted

/-- No primary key is refused. -/
lemma buildCoverage_eq {t : DataTree} (hshort : ∀ table, t.ShortDates table) (nowNs : Int)
    (s : CoverageState) :
    buildCoverage t nowNs s = some
      ({ s with coverage :=
          if coverageFrame t nowNs = [] then s.coverage else coverageFrame t nowNs },
        coverageFrame t nowNs) := by
  have hnodup := map_dir_nodup hshort nowNs
  by_cases hempty : coverageFrame t nowNs = []
  · simp [buildCoverage, hempty]
  · simp [buildCoverage, hempty, hnodup]

/-- A report writes both files, and the table unless it has found nothing. -/
lemma coverageMain_eq (c : CoverageCall) (s : CoverageState) :
    coverageMain c s = some
      { coverage := if c.frame = [] then s.coverage else c.frame
        json := some (coverageSummary c.frame c.summarisedNs, c.frame)
        markdown := some (markdownMatrix c.frame) } := by
  rw [coverageMain, buildCoverage_eq c.short]
  rfl

lemma totalRows_of_mem {df : List CoverageRow} {nowNs : Int} {summary : CoverageSummary}
    (h : summary ∈ coverageSummary df nowNs) :
    summary.totalRows = (df.map CoverageRow.rows).sum := by
  cases df with
  | nil => cases h
  | cons r rest =>
      cases h
      rfl

/-- The lines, the summary and the matrix of a report account for every stored row once. -/
structure Accounts (t : DataTree) (nowNs : Int) (df : List CoverageRow)
    (summary : Option CoverageSummary) (sections : List MatrixSection) : Prop where
  nodup : (df.map CoverageRow.dir).Nodup
  listed : ∀ dir, dir ∈ df.map CoverageRow.dir ↔
    dir.table ∈ schemaTables ∧ ∃ ts, (dir, ts) ∈ t.rows dir.table
  lines : ∀ r ∈ df, Tells t nowNs r
  summary_isSome : summary.isSome ↔ df ≠ []
  totals : ∀ s ∈ summary, s.totalRows = treeRows t ∧ s.partitions = df.length ∧
    (s.byTable.map TableSummary.rows).sum = s.totalRows ∧
    (s.byTable.map TableSummary.partitions).sum = s.partitions ∧
    (s.byTable.map TableSummary.bytes).sum = s.totalBytes ∧
    ∀ entry ∈ s.byTable, entry.rows = (t.rows entry.tableName).length
  titles : sections.map MatrixSection.tableName = sortedSet (df.map CoverageRow.tableName)
  cells : ∀ m ∈ sections, m.rows = (t.rows m.tableName).length ∧ m.cells.sum = m.rows

/-- A report never fails, and whatever lies in the tree, every stored row is counted exactly once:
in its line, in the totals of all and of its table, and in the matrix.  The table takes the lines
unless there are none. -/
theorem coverage_accounts (c : CoverageCall) (s : CoverageState) :
    ∃ df summary sections, coverageMain c s =
        some ⟨if df = [] then s.coverage else df, some (summary, df), some sections⟩ ∧
      Accounts c.tree c.builtNs df summary sections := by
  refine ⟨c.frame, coverageSummary c.frame c.summarisedNs, markdownMatrix c.frame,
    coverageMain_eq c s, map_dir_nodup c.short _, fun _ => mem_map_dir_iff c.short,
    fun _ hr => tells_of_mem (c.short _) hr, ?_, ?_, ?_, ?_⟩
  · cases hframe : c.frame with
    | nil => simp [coverageSummary]
    | cons r rest => simp [coverageSummary]
  · intro summary hsummary
    by_cases hempty : c.frame = []
    · simp [coverageSummary, hempty] at hsummary
    · have hne : c.frame.isEmpty = false := by simpa using hempty
      simp only [coverageSummary, hne, Bool.false_eq_true, if_false, Option.mem_def,
        Option.some.injEq] at hsummary
      subst hsummary
      have hlength := sum_ofTable c.frame fun _ => 1
      refine ⟨sum_rows_coverageFrame _ _, rfl, ?_, ?_, ?_, ?_⟩
      · rw [List.map_map]
        exact sum_ofTable c.frame CoverageRow.rows
      · rw [List.map_map]
        simpa [tableSummary, Function.comp_def] using hlength
      · rw [List.map_map]
        exact sum_ofTable c.frame CoverageRow.bytesOnDisk
      · intro entry hentry
        rcases List.mem_map.1 hentry with ⟨table, htable, rfl⟩
        exact sum_rows_ofTable htable
  · rw [markdownMatrix, List.map_map]
    exact List.map_id' _
  · intro m hm
    rcases List.mem_map.1 hm with ⟨table, htable, rfl⟩
    exact ⟨sum_rows_ofTable htable, sum_cells_matrixSection _ _⟩

/-! ## What does not show -/

section Content

/-- A line without the size of its files and the clock. -/
def CoverageRow.content (r : CoverageRow) : Partition × ℕ × Int × Int × Int :=
  (r.dir, r.rows, r.firstTsNs, r.lastTsNs, r.spanSeconds)

lemma min?_of_perm {l l' : List Int} (h : l'.Perm l) : l'.min? = l.min? := by
  cases hl : l.min? with
  | none =>
      rw [List.min?_eq_none_iff.1 hl] at h
      rw [List.perm_nil.1 h]
      rfl
  | some lo =>
      have hlow := List.min?_eq_some_iff.1 hl
      exact List.min?_eq_some_iff.2 ⟨h.mem_iff.2 hlow.1, fun b hb => hlow.2 b (h.mem_iff.1 hb)⟩

lemma max?_of_perm {l l' : List Int} (h : l'.Perm l) : l'.max? = l.max? := by
  cases hl : l.max? with
  | none =>
      rw [List.max?_eq_none_iff.1 hl] at h
      rw [List.perm_nil.1 h]
      rfl
  | some hi =>
      have hhigh := List.max?_eq_some_iff.1 hl
      exact List.max?_eq_some_iff.2 ⟨h.mem_iff.2 hhigh.1, fun b hb => hhigh.2 b (h.mem_iff.1 hb)⟩

variable {t t' : DataTree} {table : String}

lemma dirsOf_congr (h : (t'.rows table).Perm (t.rows table)) :
    dirsOf t' table = dirsOf t table := by
  have hperm : (dirsOf t' table).Perm (dirsOf t table) :=
    (List.perm_insertionSort _ _).trans
      (((h.map Prod.fst).dedup).trans (List.perm_insertionSort _ _).symm)
  have hsorted : ∀ t : DataTree,
      (dirsOf t table).Pairwise fun a b => groupKey a ≤ groupKey b :=
    fun t => List.pairwise_insertionSort _ _
  refine hperm.eq_of_pairwise ?_ (hsorted t') (hsorted t)
  intro a b ha hb hab hba
  rcases mem_dirsOf.1 ha with ⟨ts, hts⟩
  rcases mem_dirsOf.1 hb with ⟨ts', hts'⟩
  have htable : a.table = b.table :=
    (t'.table_eq table (a, ts) hts).trans (t.table_eq table (b, ts') hts').symm
  have hkey : groupKey a = groupKey b := le_antisymm hab hba
  cases a
  cases b
  simp_all [groupKey]

/-- Trees with the same rows in each directory have the same matrix. -/
theorem content_congr (h : ∀ table ∈ schemaTables, (t'.rows table).Perm (t.rows table))
    (nowNs nowNs' : Int) :
    (coverageFrame t' nowNs').map CoverageRow.content =
      (coverageFrame t nowNs).map CoverageRow.content := by
  rw [coverageFrame_eq, coverageFrame_eq, List.map_flatMap, List.map_flatMap]
  refine List.flatMap_congr ?_
  intro table htable
  have hrows := h table htable
  have hdirs : dirsOf t' table = dirsOf t table := dirsOf_congr hrows
  have hlines : ∀ (t : DataTree) (nowNs : Int), (tableCoverage t nowNs table).map
      CoverageRow.content = (dirsOf t table).map fun dir =>
        (coverageLine t nowNs table dir).content := fun t nowNs => List.map_map ..
  rw [hlines, hlines, hdirs]
  refine List.map_congr_left ?_
  intro dir _
  have htimes : (timesIn (t'.rows table) dir).Perm (timesIn (t.rows table) dir) :=
    (hrows.filter _).map _
  simp only [CoverageRow.content, coverageLine, CoverageRow.dir, htimes.length_eq,
    min?_of_perm htimes, max?_of_perm htimes]

/-- Two collections of which one contains the other are the same if they agree directory by
directory. -/
lemma eq_of_le_of_countP {α : Type} {rows stored : Multiset (Partition × α)} (hle : rows ≤ stored)
    (h : ∀ row ∈ stored, (rows.countP fun row' => row'.1 = row.1) =
      stored.countP fun row' => row'.1 = row.1) : rows = stored := by
  rcases Multiset.le_iff_exists_add.1 hle with ⟨lost, rfl⟩
  have hnone : lost = 0 := by
    refine Multiset.eq_zero_iff_forall_notMem.2 ?_
    intro row hrow
    have hcount := h row (Multiset.mem_add.2 (Or.inr hrow))
    have hpos : 0 < lost.countP fun row' => row'.1 = row.1 :=
      Multiset.countP_pos.2 ⟨row, hrow, rfl⟩
    rw [Multiset.countP_add] at hcount
    omega
  rw [hnone, add_zero]

variable {ρ : Type} [Row ρ]

/-- The view of a table shows what is located in its directories. -/
lemma coe_rows_tree (roots : Roots ρ) (size : PartPath → ℕ) (table : String) :
    ((roots.tree size).rows table : Multiset (Partition × Int)) =
      ((roots.viewed table).located.filter fun row => row.1.table = table).map fun row =>
        (row.1, Row.tsNs row.2) := by
  rw [← coe_viewRows]
  rfl

/-- The nightly compaction changes nothing in the report but sizes and the time of the report. -/
theorem coverage_settled (roots : Roots ρ) (size size' : PartPath → ℕ)
    (rawVisits derivedVisits : Visits) (hraw : Finds roots.raw rawVisits)
    (hderived : Finds roots.derived derivedVisits) (nowNs nowNs' : Int) :
    let out := compactAll roots.raw roots.derived rawVisits derivedVisits
    (coverageFrame (Roots.tree ⟨out.raw, out.derived⟩ size') nowNs').map CoverageRow.content =
      (coverageFrame (roots.tree size) nowNs).map CoverageRow.content := by
  intro out
  have hsettledRaw := compactRoot_spec rawVisits roots.raw hraw.nodup hraw.fresh
  have hsettledDerived := compactRoot_spec derivedVisits roots.derived hderived.nodup hderived.fresh
  refine content_congr ?_ nowNs nowNs'
  intro table _
  have hlocated : (Roots.viewed ⟨out.raw, out.derived⟩ table).located =
      (roots.viewed table).located := by
    unfold Roots.viewed
    by_cases hin : table ∈ derivedTables
    · rw [if_pos hin, if_pos hin]
      exact hsettledDerived.1.located
    · rw [if_neg hin, if_neg hin]
      exact hsettledRaw.1.located
  rw [← Multiset.coe_eq_coe, coe_rows_tree, coe_rows_tree, hlocated]

/-- `_RAW_TABLES`. -/
def rawTables : List String :=
  ["trades", "quotes", "book_l2_snapshot", "funding", "open_interest"]

/-- The number of rows that the report gives for a directory. -/
def rowsAt (df : List CoverageRow) (dir : Partition) : ℕ :=
  (df.find? fun r => decide (r.dir = dir)).elim 0 CoverageRow.rows

lemma rowsAt_coverageFrame {t : DataTree} (nowNs : Int) {dir : Partition}
    (hshort : t.ShortDates dir.table) (hknown : dir.table ∈ schemaTables) :
    rowsAt (coverageFrame t nowNs) dir = (timesIn (t.rows dir.table) dir).length := by
  rw [rowsAt]
  cases hfind : (coverageFrame t nowNs).find? fun r => decide (r.dir = dir) with
  | none =>
      have hnone : timesIn (t.rows dir.table) dir = [] := by
        refine List.eq_nil_iff_forall_not_mem.2 ?_
        intro ts hts
        have hline : coverageLine t nowNs dir.table dir ∈ coverageFrame t nowNs := by
          rw [coverageFrame_eq]
          exact List.mem_flatMap.2 ⟨dir.table, hknown,
            List.mem_map_of_mem (mem_dirsOf.2 ⟨ts, mem_timesIn.1 hts⟩)⟩
        have hdir := dir_coverageLine hshort nowNs (mem_dirsOf.2 ⟨ts, mem_timesIn.1 hts⟩)
        exact List.find?_eq_none.1 hfind _ hline (decide_eq_true hdir)
      rw [hnone]
      rfl
  | some r =>
      have hfound := List.find?_some (p := fun r : CoverageRow => decide (r.dir = dir)) hfind
      have hdir : r.dir = dir := of_decide_eq_true hfound
      subst hdir
      exact (tells_of_mem hshort (List.mem_of_find?_eq_some hfind)).rows

/-- The report counts what is located in a directory. -/
lemma rowsAt_tree (roots : Roots ρ) (size : PartPath → ℕ) (nowNs : Int) {dir : Partition}
    (hshort : (roots.tree size).ShortDates dir.table) (hknown : dir.table ∈ schemaTables) :
    rowsAt (coverageFrame (roots.tree size) nowNs) dir =
      (roots.viewed dir.table).located.countP fun row => row.1 = dir := by
  have htimes : (timesIn ((roots.tree size).rows dir.table) dir).length =
      Multiset.countP (fun row => row.1 = dir)
        ((roots.tree size).rows dir.table : Multiset (Partition × Int)) := by
    rw [timesIn, List.length_map, ← List.countP_eq_length_filter, Multiset.coe_countP]
  rw [rowsAt_coverageFrame _ hshort hknown, htimes, coe_rows_tree, Multiset.countP_map,
    Multiset.filter_filter, Multiset.countP_eq_card_filter]
  refine congrArg Multiset.card (Multiset.filter_congr ?_)
  intro row _
  exact ⟨fun h => h.1, fun h => ⟨h, congrArg Partition.table h⟩⟩

lemma raw_known {table : String} (h : table ∈ rawTables) :
    table ∈ schemaTables ∧ table ∉ derivedTables := by
  have hall : ∀ table ∈ rawTables, table ∈ schemaTables ∧ table ∉ derivedTables := by decide
  exact hall table h

/-- The days of the report are named as the directories of what is located. -/
lemma shortDates_tree {roots : Roots ρ} {size : PartPath → ℕ} {table : String}
    (h : ∀ row ∈ (roots.viewed table).located, row.1.date.length ≤ 10) :
    (roots.tree size).ShortDates table := by
  intro row hrow
  have hmem : row ∈ ((roots.tree size).rows table : Multiset (Partition × Int)) := hrow
  rw [coe_rows_tree] at hmem
  rcases Multiset.mem_map.1 hmem with ⟨row', hrow', rfl⟩
  exact h row' (Multiset.mem_filter.1 hrow').1

/-- After any appends, flushes, one-shot writes and compactions and a `flush_all`, the report gives
the number of rows that were stored in each directory, if and only if no flush has failed. -/
theorem coverage_complete_iff (env : WriteEnv) (cfg : WriterConfig)
    (events : List (StorageEvent ρ)) (hreadings : (readingsIn events).Nodup)
    (htables : ∀ row ∈ storedBy events, row.1.table ∈ rawTables)
    (hdates : ∀ row ∈ storedBy events, row.1.date.length ≤ 10) (derived : Store ρ)
    (size : PartPath → ℕ) (nowNs : Int) :
    (∀ dir : Partition, dir.table ∈ rawTables →
        rowsAt (coverageFrame (Roots.tree
          ⟨(runStorage env cfg (events ++ [.call .flushAll])).files, derived⟩ size) nowNs) dir =
          (storedBy events).countP fun row => row.1 = dir) ↔
      ∀ n, n < (runStorage env cfg (events ++ [.call .flushAll])).attempts →
        env.failure n = none := by
  let files := (runStorage env cfg (events ++ [.call .flushAll])).files
  have hle : files.located ≤ storedBy events := by
    have hsame : storedBy (events ++ [.call .flushAll]) = storedBy events := by
      simp [storedBy, callsIn, writtenIn, accepted, acceptedBy, StorageEvent.call?,
        StorageEvent.written]
    have hquiet : readingsIn (events ++ [.call .flushAll]) = readingsIn events :=
      List.filterMap_append.trans (List.append_nil _)
    rw [← hsame]
    refine located_le_storedBy env cfg _ ?_
    rw [hquiet]
    exact hreadings
  have hrows : ∀ dir : Partition, dir.table ∈ rawTables →
      rowsAt (coverageFrame (Roots.tree ⟨files, derived⟩ size) nowNs) dir =
        files.located.countP fun row => row.1 = dir := by
    intro dir hraw
    have hknown := raw_known hraw
    have hviewed : Roots.viewed ⟨files, derived⟩ dir.table = files := if_neg hknown.2
    have hshort : (Roots.tree ⟨files, derived⟩ size).ShortDates dir.table := by
      refine shortDates_tree fun row hrow => hdates row ?_
      rw [hviewed] at hrow
      exact Multiset.mem_of_le hle hrow
    rw [rowsAt_tree _ _ _ hshort hknown.1, hviewed]
  have hiff := located_after_flush_iff env cfg events hreadings
  constructor
  · intro hcounts n hn
    refine hiff.1 (eq_of_le_of_countP hle ?_) n (Nat.zero_le n) hn
    intro row hrow
    rw [← hcounts row.1 (htables row hrow), ← hrows row.1 (htables row hrow)]
  · intro hok dir hraw
    rw [hrows dir hraw]
    exact congrArg (Multiset.countP fun row => row.1 = dir) (hiff.2 fun n _ hn => hok n hn)

end Content

/-- Two days of trades, of which one has two parts. -/
def storedDays : Store Trade :=
  let trade (ns : Int) : Trade := { tsNs := ns, symbol := "ETH-USD", venue := some "okx", price := 9 }
  ((Dict.empty.set ⟨⟨"trades", "ETH-USD", "okx", "1970-01-01"⟩, .part 1⟩ [trade 7]).set
    ⟨⟨"trades", "ETH-USD", "okx", "1970-01-01"⟩, .part 2⟩ [trade 5]).set
    ⟨⟨"trades", "ETH-USD", "okx", "1970-01-02"⟩, .part 3⟩ [trade 86400000000001]

def storedVisits : Visits :=
  [(⟨"trades", "ETH-USD", "okx", "1970-01-01"⟩, 8), (⟨"trades", "ETH-USD", "okx", "1970-01-02"⟩, 9)]

/-- A compaction changes neither the days nor their counts. -/
theorem coverage_settled_two_days :
    (coverageFrame (Roots.tree ⟨(compactAll storedDays Dict.empty storedVisits []).raw, Dict.empty⟩
        fun _ => 20) 2).map CoverageRow.content =
      (coverageFrame (Roots.tree ⟨storedDays, Dict.empty⟩ fun _ => 12) 1).map
        CoverageRow.content :=
  coverage_settled ⟨storedDays, Dict.empty⟩ (fun _ => 12) (fun _ => 20) storedVisits []
    ⟨by decide +kernel, by decide +kernel, by decide +kernel⟩
    ⟨List.nodup_nil, fun _ hpath => absurd hpath List.not_mem_nil,
      fun _ hvisit => absurd hvisit List.not_mem_nil⟩ 1 2

/-- The three trades of a history lie in one directory. -/
theorem coverage_complete_trades :
    rowsAt (coverageFrame (Roots.tree
        ⟨(runStorage quietDisk {} (tradeHistory ++ [.call .flushAll])).files, Dict.empty⟩
          fun _ => 10) 0) ⟨"trades", "BTC-USD", "kraken", "1970-01-01"⟩ = 3 := by
  have hcount := (coverage_complete_iff quietDisk {} tradeHistory (by decide) (by decide +kernel)
    (by decide +kernel) Dict.empty (fun _ => 10) 0).2 (fun _ _ => rfl)
      ⟨"trades", "BTC-USD", "kraken", "1970-01-01"⟩ (by decide)
  exact hcount.trans (by decide +kernel)

/-! ## A run of reports -/

section Run

/-- No table row and no file. -/
def CoverageState.fresh : CoverageState :=
  ⟨[], none, none⟩

def afterReport (s : CoverageState) (c : CoverageCall) : CoverageState :=
  (coverageMain c s).getD s

/-- The file lists what the table lists. -/
def CoverageMirrored (s : CoverageState) : Prop :=
  ∀ json ∈ s.json, json.2 = s.coverage

lemma frame_eq_nil_iff (c : CoverageCall) : c.frame = [] ↔ treeRows c.tree = 0 := by
  have hsum : (c.frame.map CoverageRow.rows).sum = treeRows c.tree := sum_rows_coverageFrame _ _
  constructor
  · intro hnil
    rw [← hsum, hnil]
    rfl
  · intro hzero
    refine List.eq_nil_iff_forall_not_mem.2 ?_
    intro r hr
    have hlen := (tells_of_mem (c.short _) hr).rows
    have hpos := List.length_pos_of_mem (tells_of_mem (c.short _) hr).first
    have hnone := List.sum_eq_zero_iff_forall_eq_nat.1 (hsum.trans hzero) r.rows
      (List.mem_map_of_mem hr)
    omega

/-- A report keeps table and file together unless it finds nothing where the table has rows. -/
lemma coverageMirrored_afterReport_iff (s : CoverageState) (c : CoverageCall) :
    CoverageMirrored (afterReport s c) ↔ (c.frame = [] → s.coverage = []) := by
  rw [afterReport, coverageMain_eq, Option.getD_some]
  constructor
  · intro hmirror hempty
    have heq := hmirror _ rfl
    rw [if_pos hempty] at heq
    exact heq.symm.trans hempty
  · rintro hkeep _ ⟨⟩
    by_cases hempty : c.frame = []
    · rw [if_pos hempty, hempty, hkeep hempty]
    · rw [if_neg hempty]

lemma coverageMirrored_scanl_iff :
    ∀ (calls : List CoverageCall) (s : CoverageState), CoverageMirrored s →
      ((∀ s' ∈ calls.scanl afterReport s, CoverageMirrored s') ↔
        (s.coverage ≠ [] → ∀ c ∈ calls, c.frame ≠ []) ∧
          calls.Pairwise fun a b => a.frame ≠ [] → b.frame ≠ [])
  | [], s, hs => by simp [hs]
  | c :: calls, s, hs => by
      have hstep := coverageMirrored_afterReport_iff s c
      have hrest := coverageMirrored_scanl_iff calls (afterReport s c)
      have hafter : (afterReport s c).coverage ≠ [] ↔ s.coverage ≠ [] ∨ c.frame ≠ [] := by
        rw [afterReport, coverageMain_eq, Option.getD_some]
        by_cases hempty : c.frame = []
        · simp [hempty]
        · simp [hempty]
      rw [List.scanl_cons, List.forall_mem_cons, List.forall_mem_cons, List.pairwise_cons]
      constructor
      · rintro ⟨_, hall⟩
        have hfirst : CoverageMirrored (afterReport s c) := hall _ (by cases calls <;> simp)
        rcases (hrest hfirst).1 hall with ⟨hlater, hpairs⟩
        refine ⟨?_, ?_, hpairs⟩
        · intro hrows
          exact ⟨fun hempty => hrows (hstep.1 hfirst hempty), hlater (hafter.2 (Or.inl hrows))⟩
        · intro d hd hfound
          exact hlater (hafter.2 (Or.inr hfound)) d hd
      · rintro ⟨hkeep, hhead, hpairs⟩
        have hfirst : CoverageMirrored (afterReport s c) := by
          refine hstep.2 ?_
          intro hempty
          by_contra hrows
          exact (hkeep hrows).1 hempty
        refine ⟨hs, (hrest hfirst).2 ⟨?_, hpairs⟩⟩
        intro hrows d hd
        rcases hafter.1 hrows with hbefore | hfound
        · exact (hkeep hbefore).2 d hd
        · exact hhead d hd hfound

/-- In a run of reports the table and the file list the same partitions after every report if and
only if no report that finds no rows comes after one that does. -/
theorem coverage_mirrored_run_iff (calls : List CoverageCall) :
    (∀ s ∈ calls.scanl afterReport CoverageState.fresh, CoverageMirrored s) ↔
      calls.Pairwise fun a b => 0 < treeRows a.tree → 0 < treeRows b.tree := by
  have hfresh : CoverageMirrored CoverageState.fresh := by
    rintro _ ⟨⟩
  rw [coverageMirrored_scanl_iff calls CoverageState.fresh hfresh]
  have hfound : ∀ c : CoverageCall, c.frame ≠ [] ↔ 0 < treeRows c.tree := by
    intro c
    rw [Ne, frame_eq_nil_iff, Nat.pos_iff_ne_zero]
  simp only [hfound]
  exact and_iff_right fun hrows => absurd rfl hrows

end Run

end CryptoData
