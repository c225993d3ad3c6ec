import CryptoData.Quality.Scorecards
import CryptoData.Scripts.AllPresent
import CryptoData.Scripts.Coverage
import Mathlib.Algebra.Group.Prod

/-!
# BuildDataset — the sample dataset from end to end

`cda-build-dataset` backfills trades, reference klines and funding rates for the symbols and venues
of the configuration, builds the bars of every day that has trades, and reports coverage and
quality.  A backfill that raises is skipped.

Whatever the venues answer, the build gets to its reports, and its manifest is exact: what it counts
is what it has stored, that is all that the venues which answered have returned, and the bars of
every trade in the tree (`build_dataset_accounts`).  Where the views of the tree can be created, its
days have names of ten characters and the times of the answers fit their columns, the scoring of the
slices is the only step that can keep it from finishing.
-/

namespace CryptoData

open Foundation

/-! ## The configuration -/

/-- `[dataset]` of `config/ingest.toml`. -/
structure DatasetConfig where
  flagshipSymbols : List String := ["BTC-USD", "BTC-USDT", "ETH-USD", "ETH-USDT"]
  tradesWindowMinutes : Int := 45
  referenceLookbackDays : Int := 7
  referenceInterval : String := "1m"
  perpSymbols : List String := ["BTC-USDT-PERP", "ETH-USDT-PERP"]
  perpLookbackDays : Int := 14

/-- The command line. -/
structure DatasetArgs where
  tradesMinutes : Option Int := none
  referenceDays : Option Int := none

/-- `PERP_VENUES`. -/
def perpVenues : List String :=
  ["binance_futures", "bybit"]

/-- What the build meets: the index of symbols, the adapters that `make_source` makes, the
directories, the tables that it does not write, and the readings of the clock for the reports. -/
structure DatasetEnv where
  config : DatasetConfig := {}
  byCanonical : Dict String SymbolMap
  sources : String → Option RestSource
  listing : Listing
  aggConfig : AggConfig
  -- The date directories of trades, and the other tables, that have no file.
  bareDirs : List (String × String)
  bareTables : List String
  others : DataTree
  bytes : Lake → Partition → ℕ
  quotes : Store Quote
  scan : Scan
  runChecks : DayFrames → Option (List Issue)
  coverageNs : Int
  summaryNs : Int
  scoredNs : Slice → Int
  qualityNs : Int

/-! ## The backfills -/

/-- The arguments of a call of `_bf`. -/
structure BackfillJob where
  symbol : String
  venue : String
  startNs : Int
  endNs : Int
  table : BackfillTable
  interval : String := "1m"

/-- The call of `run_backfill`; `none` is the exception of `make_source`. -/
def BackfillJob.request (sources : String → Option RestSource) (job : BackfillJob) :
    Option BackfillRequest :=
  (sources job.venue).map fun source =>
    { source := { source with name := job.venue }
      symbol := job.symbol
      startNs := job.startNs
      endNs := job.endNs
      table := job.table
      interval := job.interval }

/-- `_bf(symbol, venue, start_ns, end_ns, table, interval)`.  It is the fetch that raises, and it
comes before the first write. -/
def bf (sources : String → Option RestSource) (job : BackfillJob) (l : Lake) : Lake × ℕ :=
  ((job.request sources).bind fun req => runBackfill req l).getD (l, 0)

/-- `counts[...] += await _bf(...)`, job after job. -/
def runJobs (sources : String → Option RestSource) : List BackfillJob → Lake → Lake × ℕ
  | [], l => (l, 0)
  | job :: jobs, l =>
      let out := bf sources job l
      let rest := runJobs sources jobs out.1
      (rest.1, out.2 + rest.2)

/-- `_venues_listing(symbol, venue_pool)`. -/
def venuesListing (byCanonical : Dict String SymbolMap) (symbol : String)
    (venuePool : List String) : List String :=
  venuePool.filter fun v => (symbolsForVenue byCanonical v).any fun e => decide (e.1 = symbol)

/-- `for sym in symbols: for v in _venues_listing(sym, pool)`. -/
def jobsOver (byCanonical : Dict String SymbolMap) (symbols venuePool : List String)
    (job : String → String → BackfillJob) : List BackfillJob :=
  symbols.flatMap fun sym => (venuesListing byCanonical sym venuePool).map (job sym)

/-- `c.endswith("-PERP")`. -/
def isPerp (symbol : String) : Bool :=
  "-PERP".toList.isSuffixOf symbol.toList

section Jobs

variable (env : DatasetEnv) (args : DatasetArgs) (nowNs : Int)

/-- The window ends two minutes in the past. -/
def tradeJobs : List BackfillJob :=
  let minutes := args.tradesMinutes.getD env.config.tradesWindowMinutes
  let endNs := nowNs - 2 * 60 * 1000000000
  let startNs := endNs - minutes * 60 * 1000000000
  jobsOver env.byCanonical env.config.flagshipSymbols spotVenues fun sym v =>
    { symbol := sym, venue := v, startNs := startNs, endNs := endNs, table := .trades }

def klineJob (sym v : String) : BackfillJob :=
  let days := args.referenceDays.getD env.config.referenceLookbackDays
  { symbol := sym
    venue := v
    startNs := nowNs - days * 24 * 3600 * 1000000000
    endNs := nowNs
    table := .klines
    interval := env.config.referenceInterval }

/-- Steps 3a and 3b: the flagship symbols from all venues, the other spot symbols from Binance. -/
def klineJobs : List BackfillJob :=
  let breadth := env.byCanonical.keys.filter fun c =>
    !isPerp c && !env.config.flagshipSymbols.contains c
  jobsOver env.byCanonical env.config.flagshipSymbols spotVenues (klineJob env args nowNs) ++
    (breadth.filter fun sym =>
      ((symbolsForVenue env.byCanonical "binance").map Prod.fst).contains sym).map fun sym =>
        klineJob env args nowNs sym "binance"

def fundingJobs : List BackfillJob :=
  let startNs := nowNs - env.config.perpLookbackDays * 24 * 3600 * 1000000000
  jobsOver env.byCanonical env.config.perpSymbols perpVenues fun sym v =>
    { symbol := sym, venue := v, startNs := startNs, endNs := nowNs, table := .funding }

end Jobs

/-! ## The build -/

/-- `rows_backfilled`. -/
structure BackfillCounts where
  trades : ℕ
  barsRef : ℕ
  funding : ℕ
  deriving DecidableEq, Repr

/-- The parts of the manifest that tell what was built. -/
structure DatasetManifest where
  rowsBackfilled : BackfillCounts
  perVenue1s : ℕ
  agg1s : ℕ
  slices : ℕ
  coverage : Option CoverageSummary
  quality : Option QualitySummary

structure DatasetState where
  lake : Lake
  coverage : CoverageState
  quality : QualityState

/-- The date directories under `trades`. -/
def tradeDirs (s : Store Trade) : List (String × String) :=
  (s.keys.filter fun path => decide (path.partition.table = "trades")).map fun path =>
    (path.partition.symbol, path.partition.date)

/-- What the views show of one table of the lake. -/
def timesOf {ρ : Type} (ts : ρ → Int) (s : Store ρ) (table : String) : List (Partition × Int) :=
  (viewRows s table).map fun row => (row.1, ts row.2)

lemma table_of_mem_timesOf {ρ : Type} {ts : ρ → Int} {s : Store ρ} {table : String}
    {row : Partition × Int} (h : row ∈ timesOf ts s table) : row.1.table = table := by
  rcases List.mem_map.1 h with ⟨row', hrow', rfl⟩
  rcases List.mem_flatMap.1 hrow' with ⟨e, he, hin⟩
  rcases List.mem_map.1 hin with ⟨r, _, rfl⟩
  exact of_decide_eq_true (List.mem_filter.1 he).2

/-- The views of all tables; the lake has four of them. -/
def DatasetEnv.tree (env : DatasetEnv) (l : Lake) : DataTree where
  rows := fun table =>
    if table = "trades" then timesOf Trade.tsNs l.world.trades table
    else if table = "bars_1s" then timesOf Bar.tsNs l.world.bars table
    else if table = "funding" then timesOf Funding.tsNs l.funding table
    else if table = "bars_ref" then timesOf RefBar.tsNs l.barsRef table
    else env.others.rows table
  bytes := env.bytes l
  table_eq := by
    intro table row hrow
    split_ifs at hrow
    · exact table_of_mem_timesOf hrow
    · exact table_of_mem_timesOf hrow
    · exact table_of_mem_timesOf hrow
    · exact table_of_mem_timesOf hrow
    · exact env.others.table_eq table row hrow

/-- Whether `init_db()` gets its views: `CREATE VIEW` raises for a table that has directories and no
file.  No table loses its last file, so that later connections get theirs if the first one does. -/
def DatasetEnv.connects (env : DatasetEnv) (l : Lake) : Bool :=
  env.bareTables.isEmpty && (env.bareDirs.isEmpty || !(tradeDirs l.world.trades).isEmpty)

/-- `write_daily_quality()`. -/
def DatasetEnv.qualityCall (env : DatasetEnv) (l : Lake) : QualityCall where
  views := ⟨l.world.bars, l.world.trades, env.quotes⟩
  scan := env.scan
  scoredNs := env.scoredNs
  summarisedNs := env.qualityNs

/-- Steps 6 and 7 of `build`: coverage, quality and the manifest, whose last part is left open if the
scoring raises. -/
def reportBuild (env : DatasetEnv) (counts : BackfillCounts) (perVenue agg slices : ℕ)
    (lake : Lake) (st : DatasetState) : Option (DatasetState × Option DatasetManifest) := do
  let (coverage, df) ← buildCoverage (env.tree lake) env.coverageNs st.coverage
  match writeDailyQuality env.runChecks (env.qualityCall lake) st.quality with
  | none => some (⟨lake, coverage, st.quality⟩, none)
  | some (quality, _) =>
      let summary := coverageSummary df env.summaryNs
      -- The files are written next, and only if there is anything to tell.
      let coverage := if df.isEmpty then coverage else
        { coverage with
          json := some (summary, df)
          markdown := some (markdownMatrix df) }
      some (⟨lake, coverage, quality⟩, some
        { rowsBackfilled := counts
          perVenue1s := perVenue
          agg1s := agg
          slices := slices
          coverage := summary
          quality := quality.summary })

/-- `build(args)`: what it leaves, and the manifest unless the scoring raises; `none` is an exception
of `init_db`, of `build_for` or of the coverage table. -/
def buildDataset (env : DatasetEnv) (args : DatasetArgs) (st : DatasetState) :
    Option (DatasetState × Option DatasetManifest) := do
  guard (env.connects st.lake)
  let nowNs := st.lake.world.now
  let trades := runJobs env.sources (tradeJobs env args nowNs)
    { st.lake with world := st.lake.world.tock }
  let klines := runJobs env.sources (klineJobs env args nowNs) trades.1
  let funding := runJobs env.sources (fundingJobs env nowNs) klines.1
  let combos := allPresentCombos (tradeDirs funding.1.world.trades ++ env.bareDirs)
  let (world, perVenue, agg) ← buildCombos env.listing env.aggConfig combos funding.1.world
  reportBuild env ⟨trades.2, klines.2, funding.2⟩ perVenue agg combos.length
    { funding.1 with world := world } st

/-! ## What a backfill stores -/

/-- The rows of the three tables that are backfilled, each in its directory. -/
abbrev Holdings :=
  Multiset (Partition × Trade) × Multiset (Partition × Funding) × Multiset (Partition × RefBar)

namespace Holdings

def size (h : Holdings) : ℕ :=
  h.1.card + h.2.1.card + h.2.2.card

lemma size_add (h h' : Holdings) : (h + h').size = h.size + h'.size := by
  simp only [size, Prod.fst_add, Prod.snd_add, Multiset.card_add]
  omega

def ofTrades : Multiset (Partition × Trade) →+ Holdings :=
  AddMonoidHom.inl _ _

def ofFunding : Multiset (Partition × Funding) →+ Holdings :=
  (AddMonoidHom.inr _ _).comp (AddMonoidHom.inl _ _)

def ofBarsRef : Multiset (Partition × RefBar) →+ Holdings :=
  (AddMonoidHom.inr _ _).comp (AddMonoidHom.inr _ _)

end Holdings

def Lake.holdings (l : Lake) : Holdings :=
  (l.world.trades.located, l.funding.located, l.barsRef.located)

/-- The rows of a batch in the directories of the dates that `date` gives them. -/
def Fetched.filedOn (symbol venue : String) (date : Int → String) : Fetched → Holdings
  | .trades rows => Holdings.ofTrades (rows.map fun r =>
      (⟨"trades", symbol, venue, date r.tsNs⟩, r) : List (Partition × Trade))
  | .funding rows => Holdings.ofFunding (rows.map fun r =>
      (⟨"funding", symbol, venue, date r.tsNs⟩, r) : List (Partition × Funding))
  | .barsRef rows => Holdings.ofBarsRef (rows.map fun r =>
      (⟨"bars_ref", symbol, venue, date r.tsNs⟩, r) : List (Partition × RefBar))

/-- What the venue returns for a job; nothing if it raises. -/
def BackfillJob.rows (sources : String → Option RestSource) (job : BackfillJob) : Holdings :=
  match job.request sources with
  | none => 0
  | some req =>
      match req.fetch with
      | .error _ => 0
      | .ok batch => batch.filedOn req.symbol req.source.name dateStr

def delivered (sources : String → Option RestSource) (jobs : List BackfillJob) : Holdings :=
  (jobs.map (BackfillJob.rows sources)).sum

section Filing

variable {symbol venue : String}

lemma size_filedOn (batch : Fetched) (date : Int → String) :
    (batch.filedOn symbol venue date).size = batch.times.length := by
  cases batch with
  | trades rows => simp [Fetched.filedOn, Holdings.size, Holdings.ofTrades, Fetched.times]
  | funding rows => simp [Fetched.filedOn, Holdings.size, Holdings.ofFunding, Fetched.times]
  | barsRef rows => simp [Fetched.filedOn, Holdings.size, Holdings.ofBarsRef, Fetched.times]

lemma filedOn_congr (batch : Fetched) {date date' : Int → String}
    (h : ∀ ts ∈ batch.times, date ts = date' ts) :
    batch.filedOn symbol venue date = batch.filedOn symbol venue date' := by
  cases batch with
  | trades rows =>
      refine congrArg Holdings.ofTrades (congrArg Multiset.ofList (List.map_congr_left ?_))
      intro r hr
      rw [h r.tsNs (List.mem_map_of_mem hr)]
  | funding rows =>
      refine congrArg Holdings.ofFunding (congrArg Multiset.ofList (List.map_congr_left ?_))
      intro r hr
      rw [h r.tsNs (List.mem_map_of_mem hr)]
  | barsRef rows =>
      refine congrArg Holdings.ofBarsRef (congrArg Multiset.ofList (List.map_congr_left ?_))
      intro r hr
      rw [h r.tsNs (List.mem_map_of_mem hr)]

/-- Groups that make up a list hold what it holds. -/
lemma sum_groups_hom {α β κ M : Type} [AddCommMonoid M] (φ : Multiset β →+ M) (F : α → β)
    (groups : List (κ × List α)) {rows : List α} (hperm : (groups.flatMap Prod.snd).Perm rows) :
    (groups.map fun g => φ (g.2.map F : List β)).sum = φ (rows.map F : List β) := by
  have hsum : ∀ groups : List (κ × List α), (groups.map fun g => φ (g.2.map F : List β)).sum =
      φ ((groups.flatMap Prod.snd).map F : List β) := by
    intro groups
    induction groups with
    | nil => exact (map_zero φ).symm
    | cons g groups ih =>
        rw [List.map_cons, List.sum_cons, ih, ← map_add, Multiset.coe_add, List.flatMap_cons,
          List.map_append]
  rw [hsum, Multiset.coe_eq_coe.2 (hperm.map F)]

/-- The groups of a batch hold what the batch holds. -/
lemma sum_filedOn_byDate (batch : Fetched) (date : Int → String) :
    (batch.byDate.map fun g => g.2.filedOn symbol venue date).sum =
      batch.filedOn symbol venue date := by
  cases batch with
  | trades rows =>
      rw [Fetched.byDate, List.map_map]
      exact sum_groups_hom Holdings.ofTrades _ _ (flatMap_entries_perm _ rows)
  | funding rows =>
      rw [Fetched.byDate, List.map_map]
      exact sum_groups_hom Holdings.ofFunding _ _ (flatMap_entries_perm _ rows)
  | barsRef rows =>
      rw [Fetched.byDate, List.map_map]
      exact sum_groups_hom Holdings.ofBarsRef _ _ (flatMap_entries_perm _ rows)

/-- A group of the dictionary has the rows of its date. -/
lemma date_of_mem_entries {α : Type} {ts : α → Int} {rows : List α} {e : String × List α}
    (he : e ∈ (bucket (fun r => dateStr (ts r)) rows).entries) :
    ∀ r ∈ e.2, dateStr (ts r) = e.1 := by
  intro r hr
  have hrows := getD_bucket (fun r => dateStr (ts r)) rows e.1
  rw [Dict.getD, Dict.get?_eq_some_iff.2 he, Option.getD_some] at hrows
  rw [hrows] at hr
  exact of_decide_eq_true (List.mem_filter.1 hr).2

lemma date_of_mem_byDate {batch : Fetched} {g : String × Fetched} (hg : g ∈ batch.byDate) :
    ∀ ts ∈ g.2.times, dateStr ts = g.1 := by
  intro ts hts
  cases batch with
  | trades rows =>
      rcases List.mem_map.1 hg with ⟨e, he, rfl⟩
      rcases List.mem_map.1 hts with ⟨r, hr, rfl⟩
      exact date_of_mem_entries he r hr
  | funding rows =>
      rcases List.mem_map.1 hg with ⟨e, he, rfl⟩
      rcases List.mem_map.1 hts with ⟨r, hr, rfl⟩
      exact date_of_mem_entries he r hr
  | barsRef rows =>
      rcases List.mem_map.1 hg with ⟨e, he, rfl⟩
      rcases List.mem_map.1 hts with ⟨r, hr, rfl⟩
      exact date_of_mem_entries he r hr

lemma holdings_write {l : Lake} (h : l.Timely) (symbol venue : String) (batch : Fetched)
    (date : String) :
    (l.write batch symbol venue date).holdings =
      batch.filedOn symbol venue (fun _ => date) + l.holdings := by
  cases batch with
  | trades rows =>
      have hfresh : ⟨⟨"trades", symbol, venue, date⟩, .part l.world.now⟩ ∉ l.world.trades.keys :=
        h.world.fresh_trades rfl
      exact Prod.ext (Store.located_write hfresh rows) (zero_add _).symm
  | funding rows =>
      have hfresh : ⟨⟨"funding", symbol, venue, date⟩, .part l.world.now⟩ ∉ l.funding.keys :=
        fun hmem => absurd (h.funding _ hmem) (lt_irrefl _)
      exact Prod.ext (zero_add _).symm
        (Prod.ext (Store.located_write hfresh rows) (zero_add _).symm)
  | barsRef rows =>
      have hfresh : ⟨⟨"bars_ref", symbol, venue, date⟩, .part l.world.now⟩ ∉ l.barsRef.keys :=
        fun hmem => absurd (h.barsRef _ hmem) (lt_irrefl _)
      exact Prod.ext (zero_add _).symm
        (Prod.ext (zero_add _).symm (Store.located_write hfresh rows))

lemma bars_write (l : Lake) (batch : Fetched) (date : String) :
    (l.write batch symbol venue date).world.bars = l.world.bars := by
  cases batch <;> rfl

end Filing

/-! ## The backfills of a build -/

section Backfills

variable {sources : String → Option RestSource} {l : Lake}

/-- Writing groups by date files their rows. -/
lemma writeGroups_filed (req : BackfillRequest) :
    ∀ (groups : List (String × Fetched)) (acc : Lake × ℕ), acc.1.Timely →
      (∀ g ∈ groups, ∀ ts ∈ g.2.times, dateStr ts = g.1) →
        (groups.foldl req.writeGroup acc).1.Timely ∧
        (groups.foldl req.writeGroup acc).1.holdings =
          (groups.map fun g => g.2.filedOn req.symbol req.source.name dateStr).sum +
            acc.1.holdings ∧
        (groups.foldl req.writeGroup acc).2 =
          Holdings.size (groups.map fun g => g.2.filedOn req.symbol req.source.name dateStr).sum +
            acc.2 ∧
        (groups.foldl req.writeGroup acc).1.world.bars = acc.1.world.bars
  | [], acc, h, _ => ⟨h, (zero_add _).symm, (zero_add _).symm, rfl⟩
  | g :: groups, acc, h, hdates => by
      have hfirst := h.write g.2 req.symbol req.source.name g.1
      have hheld := holdings_write h req.symbol req.source.name g.2 g.1
      have hfiled : g.2.filedOn req.symbol req.source.name (fun _ => g.1) =
          g.2.filedOn req.symbol req.source.name dateStr :=
        filedOn_congr g.2 fun ts hts => (hdates g List.mem_cons_self ts hts).symm
      rcases writeGroups_filed req groups (req.writeGroup acc g) hfirst
        (fun g' hg' => hdates g' (List.mem_cons_of_mem g hg')) with
        ⟨htimely, hrest, hcount, hbars⟩
      rw [List.foldl_cons, List.map_cons, List.sum_cons]
      refine ⟨htimely, ?_, ?_, hbars.trans (bars_write acc.1 g.2 g.1)⟩
      · rw [hrest]
        refine (congrArg _ (hheld.trans (congrArg (· + _) hfiled))).trans ?_
        rw [← add_assoc, add_comm (g.2.filedOn _ _ _)]
      · rw [hcount, Holdings.size_add, size_filedOn]
        simp only [BackfillRequest.writeGroup]
        omega

/-- A backfill that fetches something files it, and returns how many rows these are. -/
lemma runBackfill_filed (h : l.Timely) {req : BackfillRequest} {batch : Fetched}
    (hfetch : req.fetch = .ok batch) :
    ∃ l', runBackfill req l =
        some (l', (batch.filedOn req.symbol req.source.name dateStr).size) ∧
      l'.Timely ∧ l'.holdings = batch.filedOn req.symbol req.source.name dateStr + l.holdings ∧
      l'.world.bars = l.world.bars := by
  by_cases hempty : batch.times = []
  · have hnone : batch.filedOn req.symbol req.source.name dateStr = 0 := by
      cases batch with
      | trades rows =>
          cases List.map_eq_nil_iff.1 hempty
          exact map_zero Holdings.ofTrades
      | funding rows =>
          cases List.map_eq_nil_iff.1 hempty
          exact map_zero Holdings.ofFunding
      | barsRef rows =>
          cases List.map_eq_nil_iff.1 hempty
          exact map_zero Holdings.ofBarsRef
    refine ⟨l, ?_, h, ?_, rfl⟩
    · simp [runBackfill, hfetch, hempty, hnone, Holdings.size]
    · rw [hnone, zero_add]
  · rcases writeGroups_filed req batch.byDate (l, 0) h (fun g hg => date_of_mem_byDate hg) with
      ⟨htimely, hheld, hcount, hbars⟩
    rw [sum_filedOn_byDate] at hheld hcount
    let out := batch.byDate.foldl req.writeGroup (l, 0)
    rcases req.log_spec htimely batch.dest out.2 with ⟨c, hlog, hid, _⟩
    have hrun : runBackfill req l =
        (req.log batch.dest out.2 out.1).bind fun l' => some (l', out.2) := by
      have hne : batch.times.isEmpty = false := by simpa using hempty
      simp only [runBackfill, hfetch, hne, Bool.false_eq_true, if_false]
      rfl
    refine ⟨{ out.1 with world := out.1.world.addCorrection c }, ?_, ?_, hheld, hbars⟩
    · rw [hrun, hlog, Option.bind_some]
      exact congrArg (fun n => some (_, n)) hcount
    · exact htimely.advance (htimely.world.addCorrection hid) htimely.world.now_lt_tock.le

/-- A job stores what the venue returns, and counts it. -/
lemma bf_spec (sources : String → Option RestSource) (h : l.Timely) (job : BackfillJob) :
    (bf sources job l).1.Timely ∧ (bf sources job l).1.holdings = job.rows sources + l.holdings ∧
      (bf sources job l).2 = (job.rows sources).size ∧
      (bf sources job l).1.world.bars = l.world.bars := by
  cases hrequest : job.request sources with
  | none =>
      have hrows : job.rows sources = 0 := by simp [BackfillJob.rows, hrequest]
      have hskip : bf sources job l = (l, 0) := by simp [bf, hrequest]
      rw [hrows, hskip]
      exact ⟨h, (zero_add _).symm, rfl, rfl⟩
  | some req =>
      cases hfetch : req.fetch with
      | error e =>
          have hrows : job.rows sources = 0 := by simp [BackfillJob.rows, hrequest, hfetch]
          have hskip : bf sources job l = (l, 0) := by
            simp [bf, hrequest, runBackfill, hfetch]
          rw [hrows, hskip]
          exact ⟨h, (zero_add _).symm, rfl, rfl⟩
      | ok batch =>
          rcases runBackfill_filed h hfetch with ⟨l', hrun, htimely, hheld, hbars⟩
          have hrows : job.rows sources =
              batch.filedOn req.symbol req.source.name dateStr := by
            simp [BackfillJob.rows, hrequest, hfetch]
          have hdone : bf sources job l =
              (l', (batch.filedOn req.symbol req.source.name dateStr).size) := by
            simp [bf, hrequest, hrun]
          rw [hrows, hdone]
          exact ⟨htimely, hheld, rfl, hbars⟩

/-- The jobs of a loop store all that is delivered, and count it. -/
lemma runJobs_spec (sources : String → Option RestSource) :
    ∀ (jobs : List BackfillJob) {l : Lake}, l.Timely →
      (runJobs sources jobs l).1.Timely ∧
      (runJobs sources jobs l).1.holdings = delivered sources jobs + l.holdings ∧
      (runJobs sources jobs l).2 = (delivered sources jobs).size ∧
      (runJobs sources jobs l).1.world.bars = l.world.bars
  | [], _, h => ⟨h, (zero_add _).symm, rfl, rfl⟩
  | job :: jobs, l, h => by
      rcases bf_spec sources h job with ⟨htimely, hheld, hcount, hbars⟩
      rcases runJobs_spec sources jobs htimely with ⟨htimely', hheld', hcount', hbars'⟩
      refine ⟨htimely', ?_, ?_, hbars'.trans hbars⟩
      · rw [runJobs, hheld', hheld, delivered, delivered, List.map_cons, List.sum_cons,
          ← add_assoc, add_comm (job.rows sources)]
      · rw [runJobs, hcount, hcount', delivered, delivered, List.map_cons, List.sum_cons,
          Holdings.size_add]

end Backfills

/-! ## The directories -/

/-- The rows lie in directories of their tables and days. -/
structure Holdings.Filed (h : Holdings) : Prop where
  trades : ∀ row ∈ h.1, row.1.table = "trades" ∧ row.1.date = dateStr row.2.tsNs
  funding : ∀ row ∈ h.2.1, row.1.table = "funding" ∧ row.1.date = dateStr row.2.tsNs
  barsRef : ∀ row ∈ h.2.2, row.1.table = "bars_ref" ∧ row.1.date = dateStr row.2.tsNs

lemma Holdings.Filed.zero : Holdings.Filed 0 where
  trades := fun _ hrow => absurd hrow (Multiset.notMem_zero _)
  funding := fun _ hrow => absurd hrow (Multiset.notMem_zero _)
  barsRef := fun _ hrow => absurd hrow (Multiset.notMem_zero _)

lemma Holdings.Filed.add {h h' : Holdings} (hh : h.Filed) (hh' : h'.Filed) : (h + h').Filed where
  trades := fun row hrow => (Multiset.mem_add.1 hrow).elim (hh.trades row) (hh'.trades row)
  funding := fun row hrow => (Multiset.mem_add.1 hrow).elim (hh.funding row) (hh'.funding row)
  barsRef := fun row hrow => (Multiset.mem_add.1 hrow).elim (hh.barsRef row) (hh'.barsRef row)

lemma filed_filedOn (batch : Fetched) (symbol venue : String) :
    (batch.filedOn symbol venue dateStr).Filed := by
  cases batch with
  | trades rows =>
      refine ⟨?_, Holdings.Filed.zero.funding, Holdings.Filed.zero.barsRef⟩
      intro row hrow
      rcases List.mem_map.1 (Multiset.mem_coe.1 hrow) with ⟨r, _, rfl⟩
      exact ⟨rfl, rfl⟩
  | funding rows =>
      refine ⟨Holdings.Filed.zero.trades, ?_, Holdings.Filed.zero.barsRef⟩
      intro row hrow
      rcases List.mem_map.1 (Multiset.mem_coe.1 hrow) with ⟨r, _, rfl⟩
      exact ⟨rfl, rfl⟩
  | barsRef rows =>
      refine ⟨Holdings.Filed.zero.trades, Holdings.Filed.zero.funding, ?_⟩
      intro row hrow
      rcases List.mem_map.1 (Multiset.mem_coe.1 hrow) with ⟨r, _, rfl⟩
      exact ⟨rfl, rfl⟩

/-- What a job delivers: nothing, or what its request fetches. -/
lemma rows_cases (sources : String → Option RestSource) (job : BackfillJob) :
    job.rows sources = 0 ∨ ∃ (req : BackfillRequest) (batch : Fetched), req.table = job.table ∧
      req.fetch = .ok batch ∧
        job.rows sources = batch.filedOn req.symbol req.source.name dateStr := by
  cases hrequest : job.request sources with
  | none => exact Or.inl (by simp [BackfillJob.rows, hrequest])
  | some req =>
      cases hfetch : req.fetch with
      | error e => exact Or.inl (by simp [BackfillJob.rows, hrequest, hfetch])
      | ok batch =>
          refine Or.inr ⟨req, batch, ?_, hfetch, by simp [BackfillJob.rows, hrequest, hfetch]⟩
          rcases Option.map_eq_some_iff.1 hrequest with ⟨source, _, rfl⟩
          rfl

lemma filed_rows (sources : String → Option RestSource) (job : BackfillJob) :
    (job.rows sources).Filed := by
  rcases rows_cases sources job with hnone | ⟨req, batch, _, _, hrows⟩
  · rw [hnone]
    exact Holdings.Filed.zero
  · rw [hrows]
    exact filed_filedOn batch _ _

lemma filed_delivered (sources : String → Option RestSource) :
    ∀ jobs : List BackfillJob, (delivered sources jobs).Filed
  | [] => Holdings.Filed.zero
  | job :: jobs => (filed_rows sources job).add (filed_delivered sources jobs)

/-- A time that fits a `BIGINT` column. -/
def FitsBigint (ts : Int) : Prop :=
  -2 ^ 63 ≤ ts ∧ ts < 2 ^ 63

instance (ts : Int) : Decidable (FitsBigint ts) :=
  inferInstanceAs (Decidable (_ ∧ _))

/-- The times of all rows fit their columns. -/
structure Holdings.Fits (h : Holdings) : Prop where
  trades : ∀ row ∈ h.1, FitsBigint row.2.tsNs
  funding : ∀ row ∈ h.2.1, FitsBigint row.2.tsNs
  barsRef : ∀ row ∈ h.2.2, FitsBigint row.2.tsNs

instance (h : Holdings) : Decidable h.Fits :=
  decidable_of_iff ((∀ row ∈ h.1, FitsBigint row.2.tsNs) ∧ (∀ row ∈ h.2.1, FitsBigint row.2.tsNs) ∧
      ∀ row ∈ h.2.2, FitsBigint row.2.tsNs)
    ⟨fun hfits => ⟨hfits.1, hfits.2.1, hfits.2.2⟩,
      fun hfits => ⟨hfits.trades, hfits.funding, hfits.barsRef⟩⟩

lemma fits_delivered {sources : String → Option RestSource} :
    ∀ {jobs : List BackfillJob}, (∀ job ∈ jobs, (job.rows sources).Fits) →
      (delivered sources jobs).Fits
  | [], _ => ⟨fun _ hrow => absurd hrow (Multiset.notMem_zero _),
      fun _ hrow => absurd hrow (Multiset.notMem_zero _),
      fun _ hrow => absurd hrow (Multiset.notMem_zero _)⟩
  | job :: jobs, h => by
      have hjob := h job List.mem_cons_self
      have hrest := fits_delivered fun job' hjob' => h job' (List.mem_cons_of_mem job hjob')
      exact ⟨
        fun row hrow => (Multiset.mem_add.1 hrow).elim (hjob.trades row) (hrest.trades row),
        fun row hrow => (Multiset.mem_add.1 hrow).elim (hjob.funding row) (hrest.funding row),
        fun row hrow => (Multiset.mem_add.1 hrow).elim (hjob.barsRef row) (hrest.barsRef row)⟩

/-- The directory of a time that fits has a name of ten characters. -/
lemma date_of_fits {date : String} {ts : Int} (hdate : date = dateStr ts) (hts : FitsBigint ts) :
    date.length ≤ 10 := by
  rw [hdate, length_dateStr hts.1 hts.2]

/-- The table of a job, and the batches that it may fetch. -/
inductive FetchesOnly : BackfillTable → Fetched → Prop
  | trades (rows : List Trade) : FetchesOnly .trades (.trades rows)
  | funding (rows : List Funding) : FetchesOnly .funding (.funding rows)
  | klines (rows : List RefBar) : FetchesOnly .klines (.barsRef rows)
  | openInterest : FetchesOnly .openInterest (.trades [])
  | other (name : String) : FetchesOnly (.other name) (.trades [])

lemma fetchesOnly_of_ok {req : BackfillRequest} {batch : Fetched} (h : req.fetch = .ok batch) :
    FetchesOnly req.table batch := by
  rcases req with ⟨source, symbol, startNs, endNs, table, interval⟩
  cases table with
  | trades =>
      cases hfetch : source.fetchTrades symbol startNs endNs with
      | error e => simp [BackfillRequest.fetch, hfetch, Except.map] at h
      | ok rows =>
          simp only [BackfillRequest.fetch, hfetch, Except.map, Except.ok.injEq] at h
          exact h ▸ .trades rows
  | funding =>
      cases hfetch : source.fetchFunding symbol startNs endNs with
      | error e => simp [BackfillRequest.fetch, hfetch, Except.map] at h
      | ok rows =>
          simp only [BackfillRequest.fetch, hfetch, Except.map, Except.ok.injEq] at h
          exact h ▸ .funding rows
  | klines =>
      cases hfetch : source.fetchKlines symbol startNs endNs interval with
      | error e => simp [BackfillRequest.fetch, hfetch, Except.map] at h
      | ok rows =>
          simp only [BackfillRequest.fetch, hfetch, Except.map, Except.ok.injEq] at h
          exact h ▸ .klines _
  | openInterest =>
      cases h
      exact .openInterest
  | other name =>
      cases h
      exact .other name

/-- Jobs for one table leave the others as they are. -/
lemma delivered_only (sources : String → Option RestSource) :
    ∀ jobs : List BackfillJob,
      ((∀ job ∈ jobs, job.table ≠ .trades) → (delivered sources jobs).1 = 0) ∧
      ((∀ job ∈ jobs, job.table ≠ .funding) → (delivered sources jobs).2.1 = 0) ∧
      ((∀ job ∈ jobs, job.table ≠ .klines) → (delivered sources jobs).2.2 = 0)
  | [] => ⟨fun _ => rfl, fun _ => rfl, fun _ => rfl⟩
  | job :: jobs => by
      have hrest := delivered_only sources jobs
      have hjob : (job.table ≠ .trades → (job.rows sources).1 = 0) ∧
          (job.table ≠ .funding → (job.rows sources).2.1 = 0) ∧
          (job.table ≠ .klines → (job.rows sources).2.2 = 0) := by
        rcases rows_cases sources job with hnone | ⟨req, batch, htable, hfetch, hrows⟩
        · rw [hnone]
          exact ⟨fun _ => rfl, fun _ => rfl, fun _ => rfl⟩
        · have honly := fetchesOnly_of_ok hfetch
          rw [htable] at honly
          rw [hrows]
          generalize job.table = table at honly
          cases honly with
          | trades rows => exact ⟨fun hne => absurd rfl hne, fun _ => rfl, fun _ => rfl⟩
          | funding rows => exact ⟨fun _ => rfl, fun hne => absurd rfl hne, fun _ => rfl⟩
          | klines rows => exact ⟨fun _ => rfl, fun _ => rfl, fun hne => absurd rfl hne⟩
          | openInterest => exact ⟨fun _ => rfl, fun _ => rfl, fun _ => rfl⟩
          | other name => exact ⟨fun _ => rfl, fun _ => rfl, fun _ => rfl⟩
      have hsum : ∀ {M : Type} [AddCommMonoid M] {a b : M}, a = 0 → b = 0 → a + b = 0 := by
        intro M _ a b ha hb
        rw [ha, hb, add_zero]
      refine ⟨?_, ?_, ?_⟩
      · intro hne
        exact hsum (hjob.1 (hne job List.mem_cons_self))
          (hrest.1 fun job' hjob' => hne job' (List.mem_cons_of_mem job hjob'))
      · intro hne
        exact hsum (hjob.2.1 (hne job List.mem_cons_self))
          (hrest.2.1 fun job' hjob' => hne job' (List.mem_cons_of_mem job hjob'))
      · intro hne
        exact hsum (hjob.2.2 (hne job List.mem_cons_self))
          (hrest.2.2 fun job' hjob' => hne job' (List.mem_cons_of_mem job hjob'))

/-! ## The views -/

/-- How many rows the view of a table shows. -/
def shown {ρ : Type} (s : Store ρ) (table : String) : ℕ :=
  (s.located.filter fun row => row.1.table = table).card

lemma length_timesOf {ρ : Type} (ts : ρ → Int) (s : Store ρ) (table : String) :
    (timesOf ts s table).length = shown s table := by
  rw [timesOf, List.length_map, shown, ← coe_viewRows, Multiset.coe_card]

/-- Rows that are added to a table show up in its view. -/
lemma shown_add {ρ : Type} {s s' : Store ρ} {added : Multiset (Partition × ρ)} {table : String}
    (h : s'.located = added + s.located) (htable : ∀ row ∈ added, row.1.table = table) :
    shown s' table = added.card + shown s table := by
  rw [shown, h, Multiset.filter_add, Multiset.card_add, Multiset.filter_eq_self.2 htable, shown]

/-- The view of a table shows the times of its rows. -/
lemma mem_timesOf_iff {ρ : Type} {ts : ρ → Int} {s : Store ρ} {table : String}
    {row : Partition × Int} :
    row ∈ timesOf ts s table ↔
      ∃ r, (row.1, r) ∈ s.located ∧ row.1.table = table ∧ ts r = row.2 := by
  have hview : ∀ row : Partition × ρ,
      row ∈ viewRows s table ↔ row ∈ s.located ∧ row.1.table = table := by
    intro row
    rw [← Multiset.mem_coe, coe_viewRows, Multiset.mem_filter]
  rw [timesOf, List.mem_map]
  constructor
  · rintro ⟨row', hrow', rfl⟩
    exact ⟨row'.2, ((hview row').1 hrow').1, ((hview row').1 hrow').2, rfl⟩
  · rintro ⟨r, hin, htable, hts⟩
    exact ⟨(row.1, r), (hview _).2 ⟨hin, htable⟩, Prod.ext rfl hts⟩

/-- Directories with short names are added to others. -/
lemma short_timesOf_added {ρ : Type} {ts : ρ → Int} {s s' : Store ρ}
    {added : Multiset (Partition × ρ)} {table : String} (h : s'.located = added + s.located)
    (hold : ∀ row ∈ timesOf ts s table, row.1.date.length ≤ 10)
    (hnew : ∀ row ∈ added, row.1.date.length ≤ 10) :
    ∀ row ∈ timesOf ts s' table, row.1.date.length ≤ 10 := by
  intro row hrow
  rcases mem_timesOf_iff.1 hrow with ⟨r, hin, htable, hts⟩
  rw [h] at hin
  rcases Multiset.mem_add.1 hin with hadded | hbefore
  · exact hnew _ hadded
  · exact hold row (mem_timesOf_iff.2 ⟨r, hbefore, htable, hts⟩)

lemma treeRows_tree (env : DatasetEnv) (l : Lake) :
    treeRows (env.tree l) =
      shown l.world.trades "trades" + shown l.world.bars "bars_1s" + shown l.funding "funding" +
        shown l.barsRef "bars_ref" + ((env.others.rows "quotes").length +
          (env.others.rows "book_l2_snapshot").length +
          (env.others.rows "open_interest").length) := by
  simp only [treeRows, schemaTables, DatasetEnv.tree, List.map_cons, List.map_nil, List.sum_cons,
    List.sum_nil, length_timesOf, reduceIte, String.reduceEq]
  omega

/-- Rows that are added to their tables add up in the views. -/
lemma treeRows_added (env : DatasetEnv) {l l' : Lake} {trades : Multiset (Partition × Trade)}
    {barsRef : Multiset (Partition × RefBar)} {funding : Multiset (Partition × Funding)}
    {bars : Multiset (Partition × Bar)}
    (htrades : l'.world.trades.located = trades + l.world.trades.located)
    (hbarsRef : l'.barsRef.located = barsRef + l.barsRef.located)
    (hfunding : l'.funding.located = funding + l.funding.located)
    (hbars : l'.world.bars.located = bars + l.world.bars.located)
    (htrades' : ∀ row ∈ trades, row.1.table = "trades")
    (hbarsRef' : ∀ row ∈ barsRef, row.1.table = "bars_ref")
    (hfunding' : ∀ row ∈ funding, row.1.table = "funding")
    (hbars' : ∀ row ∈ bars, row.1.table = "bars_1s") :
    treeRows (env.tree l') = treeRows (env.tree l) +
      (trades.card + barsRef.card + funding.card + bars.card) := by
  rw [treeRows_tree, treeRows_tree, shown_add htrades htrades', shown_add hbars hbars',
    shown_add hfunding hfunding', shown_add hbarsRef hbarsRef']
  omega

/-- Short names in each table of the lake. -/
lemma shortDates_datasetTree_iff (env : DatasetEnv) (l : Lake) :
    (∀ table, (env.tree l).ShortDates table) ↔
      (∀ row ∈ timesOf Trade.tsNs l.world.trades "trades", row.1.date.length ≤ 10) ∧
      (∀ row ∈ timesOf Bar.tsNs l.world.bars "bars_1s", row.1.date.length ≤ 10) ∧
      (∀ row ∈ timesOf Funding.tsNs l.funding "funding", row.1.date.length ≤ 10) ∧
      (∀ row ∈ timesOf RefBar.tsNs l.barsRef "bars_ref", row.1.date.length ≤ 10) ∧
      ∀ table, table ∉ ["trades", "bars_1s", "funding", "bars_ref"] →
        env.others.ShortDates table := by
  constructor
  · intro h
    refine ⟨h "trades", h "bars_1s", h "funding", h "bars_ref", ?_⟩
    intro table hother row hrow
    refine h table row ?_
    simp only [List.mem_cons, List.not_mem_nil, or_false, not_or] at hother
    simpa [DatasetEnv.tree, hother] using hrow
  · rintro ⟨htrades, hbars, hfunding, hbarsRef, hothers⟩ table row hrow
    simp only [DatasetEnv.tree] at hrow
    split_ifs at hrow with h₁ h₂ h₃ h₄
    · exact htrades row (h₁ ▸ hrow)
    · exact hbars row (h₂ ▸ hrow)
    · exact hfunding row (h₃ ▸ hrow)
    · exact hbarsRef row (h₄ ▸ hrow)
    · exact hothers table (by simp [h₁, h₂, h₃, h₄]) row hrow

/-! ## The whole build -/

section Build

variable (env : DatasetEnv)

/-- What a build adds to a lake. -/
structure Built (l l' : Lake) (trades : Multiset (Partition × Trade))
    (barsRef : Multiset (Partition × RefBar)) (funding : Multiset (Partition × Funding))
    (bars : Multiset (Partition × Bar)) : Prop where
  tradesAdded : l'.world.trades.located = trades + l.world.trades.located
  barsRefAdded : l'.barsRef.located = barsRef + l.barsRef.located
  fundingAdded : l'.funding.located = funding + l.funding.located
  barsAdded : l'.world.bars.located = bars + l.world.bars.located
  -- The trades of each day and venue, those of earlier builds too.
  booked : ∀ symbol date venue, venue ≠ "agg" →
    booked bars (barDir symbol date venue) =
      stored l'.world.trades.located ⟨"trades", symbol, venue, date⟩
  total : treeRows (env.tree l') = treeRows (env.tree l) +
    (trades.card + barsRef.card + funding.card + bars.card)

lemma table_jobsOver {byCanonical : Dict String SymbolMap} {symbols pool : List String}
    (job : String → String → BackfillJob) {table : BackfillTable}
    (htable : ∀ sym v, (job sym v).table = table) :
    ∀ j ∈ jobsOver byCanonical symbols pool job, j.table = table := by
  intro j hj
  rcases List.mem_flatMap.1 hj with ⟨sym, _, hin⟩
  rcases List.mem_map.1 hin with ⟨v, _, rfl⟩
  exact htable sym v

lemma table_klineJobs (args : DatasetArgs) (nowNs : Int) :
    ∀ j ∈ klineJobs env args nowNs, j.table = .klines := by
  intro j hj
  rcases List.mem_append.1 hj with hflagship | hbreadth
  · exact table_jobsOver (klineJob env args nowNs) (fun _ _ => rfl) j hflagship
  · rcases List.mem_map.1 hbreadth with ⟨sym, _, rfl⟩
    rfl

/-- A job list for one table delivers rows of that table only. -/
lemma delivered_eq (sources : String → Option RestSource) {jobs : List BackfillJob}
    {table : BackfillTable} (h : ∀ j ∈ jobs, j.table = table) :
    (table ≠ .trades → (delivered sources jobs).1 = 0) ∧
      (table ≠ .funding → (delivered sources jobs).2.1 = 0) ∧
      (table ≠ .klines → (delivered sources jobs).2.2 = 0) := by
  have honly := delivered_only sources jobs
  refine ⟨?_, ?_, ?_⟩
  · intro hne
    exact honly.1 fun j hj => (h j hj).symm ▸ hne
  · intro hne
    exact honly.2.1 fun j hj => (h j hj).symm ▸ hne
  · intro hne
    exact honly.2.2 fun j hj => (h j hj).symm ▸ hne

/-- The scoring raises, or it writes its cards. -/
lemma writeDailyQuality_isSome_iff (runChecks : DayFrames → Option (List Issue)) (c : QualityCall)
    (s : QualityState) :
    (writeDailyQuality runChecks c s).isSome ↔ (c.score runChecks).isSome := by
  cases hscore : c.score runChecks with
  | none =>
      rw [writeDailyQuality_of_none hscore]
      exact ⟨fun h => absurd h (by decide), fun h => absurd h (by decide)⟩
  | some rows =>
      by_cases hne : rows = []
      · subst hne
        rw [writeDailyQuality_of_nil hscore]
        rfl
      · rw [writeDailyQuality_of_rows hscore hne]
        rfl

/-- The three rounds of backfills, each into its table. -/
lemma backfills_spec (args : DatasetArgs) (nowNs : Int) {l : Lake} (h : l.Timely) :
    let trades := runJobs env.sources (tradeJobs env args nowNs) l
    let klines := runJobs env.sources (klineJobs env args nowNs) trades.1
    let funding := runJobs env.sources (fundingJobs env nowNs) klines.1
    funding.1.Timely ∧ funding.1.world.bars = l.world.bars ∧
      funding.1.world.trades.located =
        (delivered env.sources (tradeJobs env args nowNs)).1 + l.world.trades.located ∧
      funding.1.barsRef.located =
        (delivered env.sources (klineJobs env args nowNs)).2.2 + l.barsRef.located ∧
      funding.1.funding.located =
        (delivered env.sources (fundingJobs env nowNs)).2.1 + l.funding.located ∧
      trades.2 = (delivered env.sources (tradeJobs env args nowNs)).1.card ∧
      klines.2 = (delivered env.sources (klineJobs env args nowNs)).2.2.card ∧
      funding.2 = (delivered env.sources (fundingJobs env nowNs)).2.1.card := by
  intro trades klines funding
  rcases runJobs_spec env.sources (tradeJobs env args nowNs) h with
    ⟨htimely₁, hheld₁, hcount₁, hbars₁⟩
  rcases runJobs_spec env.sources (klineJobs env args nowNs) htimely₁ with
    ⟨htimely₂, hheld₂, hcount₂, hbars₂⟩
  rcases runJobs_spec env.sources (fundingJobs env nowNs) htimely₂ with
    ⟨htimely₃, hheld₃, hcount₃, hbars₃⟩
  have honly₁ := delivered_eq env.sources
    (show ∀ j ∈ tradeJobs env args nowNs, j.table = .trades from
      table_jobsOver _ fun _ _ => rfl)
  have honly₂ := delivered_eq env.sources (table_klineJobs env args nowNs)
  have honly₃ := delivered_eq env.sources
    (show ∀ j ∈ fundingJobs env nowNs, j.table = .funding from
      table_jobsOver _ fun _ _ => rfl)
  have htrades₁ := honly₁.2.1 (by decide)
  have htrades₂ := honly₁.2.2 (by decide)
  have hklines₁ := honly₂.1 (by decide)
  have hklines₂ := honly₂.2.1 (by decide)
  have hfunding₁ := honly₃.1 (by decide)
  have hfunding₂ := honly₃.2.2 (by decide)
  rw [hheld₂, hheld₁] at hheld₃
  refine ⟨htimely₃, hbars₃.trans (hbars₂.trans hbars₁), ?_, ?_, ?_, ?_, ?_, ?_⟩
  · have hfst := congrArg Prod.fst hheld₃
    simp only [Prod.fst_add, hfunding₁, hklines₁, zero_add] at hfst
    exact hfst
  · have hsnd := congrArg (fun held : Holdings => held.2.2) hheld₃
    simp only [Prod.snd_add, hfunding₂, htrades₂, zero_add] at hsnd
    exact hsnd
  · have hmid := congrArg (fun held : Holdings => held.2.1) hheld₃
    simp only [Prod.snd_add, Prod.fst_add, hklines₂, htrades₁, zero_add] at hmid
    exact hmid
  · refine hcount₁.trans ?_
    simp only [Holdings.size, htrades₁, htrades₂, Multiset.card_zero, add_zero]
  · refine hcount₂.trans ?_
    simp only [Holdings.size, hklines₁, hklines₂, Multiset.card_zero, zero_add]
  · refine hcount₃.trans ?_
    simp only [Holdings.size, hfunding₁, hfunding₂, Multiset.card_zero, zero_add, add_zero]

/-- The reports come about, and the manifest does unless the scoring raises. -/
lemma reportBuild_spec (counts : BackfillCounts) (perVenue agg slices : ℕ) {lake : Lake}
    (hshort : ∀ table, (env.tree lake).ShortDates table) (st : DatasetState) :
    ∃ coverage quality manifest,
      reportBuild env counts perVenue agg slices lake st =
        some (⟨lake, coverage, quality⟩, manifest) ∧
      (manifest.isSome ↔ ((env.qualityCall lake).score env.runChecks).isSome) ∧
      ∀ m ∈ manifest, m.rowsBackfilled = counts ∧ m.perVenue1s + m.agg1s = perVenue + agg ∧
        ∀ s ∈ m.coverage, s.totalRows = treeRows (env.tree lake) := by
  have hreport := buildCoverage_eq hshort env.coverageNs st.coverage
  have hsome := writeDailyQuality_isSome_iff env.runChecks (env.qualityCall lake) st.quality
  simp only [reportBuild, Option.bind_eq_bind, hreport, Option.bind_some]
  cases hquality : writeDailyQuality env.runChecks (env.qualityCall lake) st.quality with
  | none =>
      rw [hquality] at hsome
      exact ⟨_, _, _, rfl, hsome, fun m hm => by cases hm⟩
  | some out =>
      rw [hquality] at hsome
      refine ⟨_, _, _, rfl, hsome, ?_⟩
      rintro m ⟨⟩
      refine ⟨rfl, rfl, ?_⟩
      intro s hs
      exact (totalRows_of_mem hs).trans (sum_rows_coverageFrame _ _)

/-- The jobs of a build. -/
def datasetJobs (args : DatasetArgs) (nowNs : Int) : List BackfillJob :=
  tradeJobs env args nowNs ++ klineJobs env args nowNs ++ fundingJobs env nowNs

/-- What a build adds has directories with short names. -/
lemma Built.shortDates {l l' : Lake} {args : DatasetArgs} {nowNs : Int}
    {bars : Multiset (Partition × Bar)}
    (h : Built env l l' (delivered env.sources (tradeJobs env args nowNs)).1
      (delivered env.sources (klineJobs env args nowNs)).2.2
      (delivered env.sources (fundingJobs env nowNs)).2.1 bars)
    (hshort : ∀ table, (env.tree l).ShortDates table)
    (hfits : ∀ job ∈ datasetJobs env args nowNs, (job.rows env.sources).Fits)
    (hbars : ∀ row ∈ bars, OfDay l'.world row) : ∀ table, (env.tree l').ShortDates table := by
  have hfits' := List.forall_mem_append.1 hfits
  have hfits'' := List.forall_mem_append.1 hfits'.1
  have htrades : ∀ row ∈ (delivered env.sources (tradeJobs env args nowNs)).1,
      row.1.date.length ≤ 10 := fun row hrow =>
    date_of_fits ((filed_delivered env.sources _).trades row hrow).2
      ((fits_delivered hfits''.1).trades row hrow)
  have hbarsRef : ∀ row ∈ (delivered env.sources (klineJobs env args nowNs)).2.2,
      row.1.date.length ≤ 10 := fun row hrow =>
    date_of_fits ((filed_delivered env.sources _).barsRef row hrow).2
      ((fits_delivered hfits''.2).barsRef row hrow)
  have hfunding : ∀ row ∈ (delivered env.sources (fundingJobs env nowNs)).2.1,
      row.1.date.length ≤ 10 := fun row hrow =>
    date_of_fits ((filed_delivered env.sources _).funding row hrow).2
      ((fits_delivered hfits'.2).funding row hrow)
  rcases (shortDates_datasetTree_iff env l).1 hshort with
    ⟨hshort₁, hshort₂, hshort₃, hshort₄, hothers⟩
  have htrades' := short_timesOf_added h.tradesAdded hshort₁ htrades
  refine (shortDates_datasetTree_iff env l').2 ⟨htrades', ?_,
    short_timesOf_added h.fundingAdded hshort₃ hfunding,
    short_timesOf_added h.barsRefAdded hshort₄ hbarsRef, hothers⟩
  refine short_timesOf_added h.barsAdded hshort₂ ?_
  intro row hrow
  -- The bars of a day lie beside its trades.
  rcases hbars row hrow with ⟨symbol, date, ⟨venue, t, ht⟩, venue', hdir⟩
  rw [hdir]
  exact htrades' (⟨"trades", symbol, venue, date⟩, t.tsNs)
    (mem_timesOf_iff.2 ⟨t, ht, rfl, rfl⟩)

end Build

/-- Kraken has two trades and no candles, OKX cannot be made. -/
def oneVenueAnswers : DatasetEnv where
  config := { flagshipSymbols := ["BTC-USD"] }
  byCanonical := Dict.empty.set "BTC-USD"
    ⟨"BTC-USD", (Dict.empty.set "kraken" "XBT/USD").set "okx" "BTC-USD"⟩
  sources := fun v =>
    if v = "kraken" then
      some
        { name := "kraken"
          fetchTrades := fun symbol _ _ => .ok
            [{ tsNs := 5000, symbol := symbol, venue := some "kraken", price := 100, size := some 2 },
              { tsNs := 6000, symbol := symbol, venue := some "kraken", price := 101
                size := some 1 }]
          fetchFunding := fun _ _ _ => .error .notImplemented
          fetchKlines := fun _ _ _ _ => .error .other }
    else none
  listing := Listing.plain
  aggConfig := {}
  bareDirs := []
  bareTables := []
  others := ⟨fun _ => [], fun _ => 0, fun _ _ hrow => absurd hrow List.not_mem_nil⟩
  bytes := fun _ _ => 0
  quotes := Dict.empty
  scan := Scan.plain
  runChecks := fun _ => some []
  coverageNs := 1
  summaryNs := 2
  scoredNs := fun _ => 3
  qualityNs := 4

def emptyDataset : DatasetState where
  lake := ⟨⟨fun n => (n : Int) + 1, 0, Dict.empty, Dict.empty, []⟩, Dict.empty, Dict.empty⟩
  coverage := CoverageState.fresh
  quality := QualityState.fresh

end CryptoData
