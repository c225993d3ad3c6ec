import CryptoData.Core.Aggregate
import CryptoData.Core.Consolidated.Tape
import CryptoData.Core.Corrections
import CryptoData.Foundation.StableSort
import CryptoData.Storage.Compact

/-!
# BuildBars — the daily build of one symbol

`buildFor` reads the raw trades of a (symbol, date), writes one file of one-second bars for each
venue, consolidates the spot venues, writes the `agg` file, and logs a correction.  `none` stands
for an exception; none is raised (`buildFor_spec`).

Every write goes to a new part file, so a build appends rows to the bars tree: one run of bars for
each venue with trades, and the run of `agg` bars.  `buildFor_spec` says which.
-/

namespace CryptoData

open Foundation

/-! ## Reading the raw trades -/

/-- `Path.iterdir()`: the names in a directory, in some order. -/
structure Listing where
  iterdir : List String → List String
  iterdir_perm : ∀ names, (iterdir names).Perm names

/-- A listing in the order of the directory entries. -/
def Listing.plain : Listing :=
  ⟨id, fun _ => List.Perm.refl _⟩

/-- The `venue=*` directories of a symbol. -/
def venueDirs (s : Store Trade) (symbol : String) : List String :=
  ((s.keys.filter fun path => decide (path.partition.table = "trades") &&
    decide (path.partition.symbol = symbol)).map fun path => path.partition.venue).dedup

/-- The rows of one day directory, files in name order, stably sorted by `ts_ns`. -/
def dayRows (s : Store Trade) (symbol date venue : String) : List Trade :=
  let dayDir : Partition := ⟨"trades", symbol, venue, date⟩
  (s.readNames dayDir (s.sortedNames dayDir fun _ => true)).insertionSort
    fun a b => a.tsNs ≤ b.tsNs

/-- `_collect_trades(symbol, date)`. -/
def collectTrades (fs : Listing) (s : Store Trade) (symbol date : String) :
    Dict String (List Trade) :=
  (fs.iterdir (venueDirs s symbol)).foldl
    (fun perVenue venue =>
      let rows := dayRows s symbol date venue
      if rows.isEmpty then perVenue else perVenue.set venue rows)
    Dict.empty

/-! ## The build -/

/-- The body of the loop over the venues; the clock is read once for the stamp of the bars and once
more for the part name. -/
def buildVenue (symbol date : String) (acc : World × ℕ) (e : String × List Trade) : World × ℕ :=
  let bars := barsFromTrades symbol e.1 acc.1.now e.2
  let w := acc.1.tock
  if bars.isEmpty then (w, acc.2) else (w.writeBars bars symbol e.1 date, acc.2 + bars.length)

/-- The `diagnostics` dictionary; the last three entries are only there with spot trades. -/
structure BuildDiagnostics where
  contributingVenues : List String
  aggBars : Option ℕ := none
  tradesDroppedByFilter : Option ℕ := none
  consolidatedTrades : Option ℕ := none
  deriving DecidableEq, Repr

/-- What `build_for` returns; without raw trades the dictionary is empty. -/
structure BuildReport where
  perVenueBars : ℕ
  aggBars : ℕ
  diagnostics : Option BuildDiagnostics
  deriving DecidableEq, Repr

/-- `diagnostics.update(...)` once the tape is built. -/
def tapeDiagnostics (contributing : List String) (tape : Tape) : BuildDiagnostics where
  contributingVenues := contributing
  aggBars := some tape.aggBars.length
  tradesDroppedByFilter := some (tape.diags.map Diag.nDropped).sum
  consolidatedTrades := some tape.consolidated.length

/-- `if agg_bars: write_dataframe("bars_1s", agg_bars, ...)`. -/
def writeTape (symbol date : String) (w : World) (tape : Tape) : World :=
  if tape.aggBars.isEmpty then w else w.writeBars tape.aggBars symbol "agg" date

/-- The agg half of `build_for`. -/
def buildAgg (cfg : AggConfig) (symbol date : String) (perVenueTrades : Dict String (List Trade))
    (w : World) : Option (World × BuildDiagnostics) :=
  let contributing := sortedSet (spotTrades perVenueTrades).keys
  if (spotTrades perVenueTrades).entries.isEmpty then
    some (w, { contributingVenues := contributing })
  else do
    -- The clock reading is the stamp of the agg bars.
    let tape ← consolidate cfg symbol w.now perVenueTrades
    some (writeTape symbol date w.tock tape, tapeDiagnostics contributing tape)

/-- The `backfill` correction of a build. -/
def logBuild (symbol date : String) (perVenueBars : ℕ) (diagnostics : BuildDiagnostics)
    (w : World) : Option World :=
  let aggCount := diagnostics.aggBars.getD 0
  let logged := w.recordCorrection "bars_1s" "backfill" "info" (some symbol) (some "agg") 0 0
    (some (perVenueBars + aggCount))
    (some ("rebuilt " ++ date ++ ": per_venue=" ++ toString perVenueBars ++ " agg=" ++
      toString aggCount ++ " venues=" ++ renderList diagnostics.contributingVenues ++ " dropped=" ++
      toString (diagnostics.tradesDroppedByFilter.getD 0)))
  logged.toOption.map Prod.fst

/-- `build_for(symbol, date)`. -/
def buildFor (fs : Listing) (cfg : AggConfig) (symbol date : String) (w : World) :
    Option (World × BuildReport) :=
  let perVenueTrades := collectTrades fs w.trades symbol date
  if perVenueTrades.entries.isEmpty then
    some (w, ⟨0, 0, none⟩)
  else do
    -- Venues in the order of the dictionary, then the tape, then the correction.
    let venues := perVenueTrades.entries.foldl (buildVenue symbol date) (w, 0)
    let agg ← buildAgg cfg symbol date perVenueTrades venues.1
    let w' ← logBuild symbol date venues.2 agg.2 agg.1
    some (w', ⟨venues.2, agg.2.aggBars.getD 0, some agg.2⟩)

/-! ## What is read -/

section Read

variable {fs : Listing} {s : Store Trade} {symbol date venue : String}

lemma mem_venueDirs_iff :
    venue ∈ venueDirs s symbol ↔ ∃ path ∈ s.keys, path.partition.table = "trades" ∧
      path.partition.symbol = symbol ∧ path.partition.venue = venue := by
  simp [venueDirs, and_assoc]

lemma dayRows_sorted :
    (dayRows s symbol date venue).Pairwise fun a b => a.tsNs ≤ b.tsNs :=
  insertionSort_key_sorted Trade.tsNs _

/-- The rows of a day are the rows located in its directory. -/
lemma mem_dayRows_iff {t : Trade} :
    t ∈ dayRows s symbol date venue ↔ (⟨"trades", symbol, venue, date⟩, t) ∈ s.located := by
  simp only [dayRows, List.mem_insertionSort, Store.readNames, List.mem_flatMap,
    mem_sortedNames_iff, and_true, Store.mem_located_iff]
  constructor
  · intro h
    rcases h with ⟨name, hkey, ht⟩
    rcases Dict.mem_keys_iff.1 hkey with ⟨rows, hrows⟩
    exact ⟨name, rows, hrows, by simpa [Dict.getD, hrows] using ht⟩
  · intro h
    rcases h with ⟨name, rows, hrows, ht⟩
    exact ⟨name, Dict.mem_keys_iff.2 ⟨rows, hrows⟩, by simpa [Dict.getD, hrows] using ht⟩

/-- A venue with rows that day has a directory, so a listing visits it. -/
lemma mem_venueDirs_of_dayRows (h : dayRows s symbol date venue ≠ []) :
    venue ∈ venueDirs s symbol := by
  rcases List.exists_mem_of_ne_nil _ h with ⟨t, ht⟩
  rcases Store.mem_located_iff.1 (mem_dayRows_iff.1 ht) with ⟨name, rows, hget, _⟩
  exact mem_venueDirs_iff.2 ⟨⟨⟨"trades", symbol, venue, date⟩, name⟩,
    Dict.mem_keys_iff.2 ⟨rows, hget⟩, rfl, rfl, rfl⟩

/-- Some raw trade of the symbol is stored for the date. -/
def HasTrades (s : Store Trade) (symbol date : String) : Prop :=
  ∃ venue t, (⟨"trades", symbol, venue, date⟩, t) ∈ s.located

lemma get?_foldl_collect (rowsOf : String → List Trade) (v : String) :
    ∀ (venues : List String) (d : Dict String (List Trade)),
      (venues.foldl (fun perVenue venue =>
          if (rowsOf venue).isEmpty then perVenue
          else perVenue.set venue (rowsOf venue)) d).get? v =
        if v ∈ venues ∧ rowsOf v ≠ [] then some (rowsOf v) else d.get? v
  | [], d => by simp
  | u :: venues, d => by
      rw [List.foldl_cons, get?_foldl_collect rowsOf v venues]
      by_cases hv : v ∈ venues ∧ rowsOf v ≠ []
      · simp [hv]
      -- This directory sets `v` or leaves it; the later ones do not mention it.
      · by_cases huv : v = u
        · subst huv
          cases hrows : rowsOf v with
          | nil => simp
          | cons t rest => simp
        · have hget : (if (rowsOf u).isEmpty then d else d.set u (rowsOf u)).get? v = d.get? v := by
            cases (rowsOf u).isEmpty with
            | true => rfl
            | false => exact Dict.get?_set_ne d _ huv
          have hmem : ¬ (v ∈ u :: venues ∧ rowsOf v ≠ []) := by
            intro h
            rcases List.mem_cons.1 h.1 with heq | hin
            · exact huv heq
            · exact hv ⟨hin, h.2⟩
          rw [if_neg hv, if_neg hmem, hget]

/-- A venue is collected exactly when it has rows that day. -/
theorem get?_collectTrades (fs : Listing) (s : Store Trade) (symbol date v : String) :
    (collectTrades fs s symbol date).get? v =
      if dayRows s symbol date v ≠ [] then some (dayRows s symbol date v) else none := by
  have hfold := get?_foldl_collect (dayRows s symbol date) v (fs.iterdir (venueDirs s symbol))
    Dict.empty
  have hdirs : dayRows s symbol date v ≠ [] → v ∈ fs.iterdir (venueDirs s symbol) := by
    intro hne
    rw [(fs.iterdir_perm _).mem_iff]
    exact mem_venueDirs_of_dayRows hne
  unfold collectTrades
  rw [hfold]
  by_cases hne : dayRows s symbol date v ≠ []
  · simp [hne, hdirs hne]
  · simp [hne]

lemma mem_collectTrades_iff {e : String × List Trade} :
    e ∈ (collectTrades fs s symbol date).entries ↔
      dayRows s symbol date e.1 ≠ [] ∧ e.2 = dayRows s symbol date e.1 := by
  rcases e with ⟨v, rows⟩
  rw [← Dict.get?_eq_some_iff, get?_collectTrades]
  by_cases hne : dayRows s symbol date v ≠ []
  · simp [hne, eq_comm]
  · simp [hne]

lemma collectTrades_ne_nil_iff :
    (collectTrades fs s symbol date).entries ≠ [] ↔ HasTrades s symbol date := by
  constructor
  · intro h
    rcases List.exists_mem_of_ne_nil _ h with ⟨e, he⟩
    rcases List.exists_mem_of_ne_nil _ (mem_collectTrades_iff.1 he).1 with ⟨t, ht⟩
    exact ⟨e.1, t, mem_dayRows_iff.1 ht⟩
  · intro h
    rcases h with ⟨v, t, ht⟩
    have hne := List.ne_nil_of_mem (mem_dayRows_iff.2 ht)
    have hentry : (v, dayRows s symbol date v) ∈ (collectTrades fs s symbol date).entries := by
      rw [← Dict.get?_eq_some_iff, get?_collectTrades]
      exact if_pos hne
    exact List.ne_nil_of_mem hentry

end Read

/-! ## What is written -/

/-- What a build adds to the bars tree. -/
structure BarsOf (symbol : String) (perVenueTrades : Dict String (List Trade)) (rows : List Bar) :
    Prop where
  symbol : ∀ b ∈ rows, b.symbol = symbol
  second : ∀ b ∈ rows, ∃ e ∈ perVenueTrades.entries, ∃ t ∈ e.2, b.tsNs = t.second
  covers : ∀ e ∈ perVenueTrades.entries, ∃ b ∈ rows, b.venue = e.1
  distinct : "agg" ∉ perVenueTrades.keys → (rows.map Bar.slot).Nodup

section Write

variable {symbol : String}

/-- A guarded write appends the rows, whether or not there are any. -/
lemma writeUnlessEmpty_spec {w : World} (h : w.Timely) (rows : List Bar)
    (symbol venue date : String) :
    (if rows.isEmpty then w else w.writeBars rows symbol venue date).Timely ∧
      (if rows.isEmpty then w else w.writeBars rows symbol venue date).trades = w.trades ∧
      (if rows.isEmpty then w else w.writeBars rows symbol venue date).bars.allRows =
        w.bars.allRows ++ rows := by
  cases hrows : rows.isEmpty with
  | true =>
      have hnil := List.isEmpty_iff.1 hrows
      rw [if_pos rfl]
      exact ⟨h, rfl, by simp [hnil]⟩
  | false =>
      rw [if_neg Bool.false_ne_true]
      exact ⟨h.writeBars _ _ _ _, rfl, World.allRows_writeBars h _ _ _ _⟩

/-- One round of the loop, without the count. -/
lemma buildVenue_fst (symbol date : String) (acc : World × ℕ) (e : String × List Trade) :
    (buildVenue symbol date acc e).1 =
      if (barsFromTrades symbol e.1 acc.1.now e.2).isEmpty then acc.1.tock
      else acc.1.tock.writeBars (barsFromTrades symbol e.1 acc.1.now e.2) symbol e.1 date :=
  apply_ite Prod.fst _ _ _

/-- One round of the loop appends the bars of its venue. -/
lemma buildVenue_spec (symbol date : String) {acc : World × ℕ} (h : acc.1.Timely)
    (e : String × List Trade) :
    ∃ nowNs, (buildVenue symbol date acc e).1.Timely ∧
      (buildVenue symbol date acc e).1.trades = acc.1.trades ∧
      (buildVenue symbol date acc e).1.bars.allRows =
        acc.1.bars.allRows ++ barsFromTrades symbol e.1 nowNs e.2 := by
  refine ⟨acc.1.now, ?_⟩
  rw [buildVenue_fst]
  exact writeUnlessEmpty_spec h.tock _ symbol e.1 date

/-- The loop appends one run of bars for each venue. -/
lemma buildVenues_spec (symbol date : String) :
    ∀ (entries : List (String × List Trade)) (acc : World × ℕ), acc.1.Timely →
      ∃ runs : List (List Bar),
        List.Forall₂ (fun e bars => ∃ nowNs, bars = barsFromTrades symbol e.1 nowNs e.2)
          entries runs ∧
        (entries.foldl (buildVenue symbol date) acc).1.Timely ∧
        (entries.foldl (buildVenue symbol date) acc).1.trades = acc.1.trades ∧
        (entries.foldl (buildVenue symbol date) acc).1.bars.allRows =
          acc.1.bars.allRows ++ runs.flatten
  | [], acc, h => ⟨[], List.Forall₂.nil, h, rfl, by simp⟩
  | e :: entries, acc, h => by
      rcases buildVenue_spec symbol date h e with ⟨nowNs, htimely, htrades, hrows⟩
      rcases buildVenues_spec symbol date entries _ htimely with
        ⟨runs, hruns, htimely', htrades', hrows'⟩
      refine ⟨barsFromTrades symbol e.1 nowNs e.2 :: runs,
        List.Forall₂.cons ⟨nowNs, rfl⟩ hruns, htimely', htrades'.trans htrades, ?_⟩
      rw [List.foldl_cons, hrows', hrows]
      simp

/-- The agg half never raises and appends the bars of the tape, if there are any. -/
lemma buildAgg_spec (cfg : AggConfig) (symbol date : String)
    (perVenueTrades : Dict String (List Trade)) {w : World} (h : w.Timely) :
    ∃ w' diagnostics rows, buildAgg cfg symbol date perVenueTrades w = some (w', diagnostics) ∧
      w'.Timely ∧ w'.trades = w.trades ∧ w'.bars.allRows = w.bars.allRows ++ rows ∧
      (rows.map Bar.tsNs).Pairwise (· < ·) ∧
      ∀ b ∈ rows, b.symbol = symbol ∧ b.venue = "agg" ∧
        ∃ e ∈ perVenueTrades.entries, ∃ t ∈ e.2, b.tsNs = t.second := by
  rcases consolidate_spec cfg symbol w.now perVenueTrades with ⟨tape, hrun, hbars, htrades⟩
  have hsorted : (tape.aggBars.map Bar.tsNs).Pairwise (· < ·) := by
    rw [hbars]
    exact (Dict.sortedKeys_sortedLT _).pairwise.sublist buildAggBars_tsNs_sublist
  have hlabels : ∀ b ∈ tape.aggBars, b.symbol = symbol ∧ b.venue = "agg" ∧
      ∃ e ∈ perVenueTrades.entries, ∃ t ∈ e.2, b.tsNs = t.second := by
    intro b hb
    rw [hbars] at hb
    rcases labels_of_mem_buildAggBars hb with ⟨hsymbol, hvenue, t, ht, hts⟩
    rcases htrades t ht with ⟨e, he, hte⟩
    exact ⟨hsymbol, hvenue, e, he, t, hte, hts⟩
  cases hempty : (spotTrades perVenueTrades).entries.isEmpty with
  | true =>
      refine ⟨w, _, [], if_pos hempty, h, rfl, by simp, List.Pairwise.nil, ?_⟩
      intro b hb
      cases hb
  | false =>
      have hagg : buildAgg cfg symbol date perVenueTrades w =
          some (writeTape symbol date w.tock tape,
            tapeDiagnostics (sortedSet (spotTrades perVenueTrades).keys) tape) := by
        simp [buildAgg, hempty, hrun]
      rcases writeUnlessEmpty_spec h.tock tape.aggBars symbol "agg" date with
        ⟨htimely, hkept, hrows⟩
      exact ⟨_, _, tape.aggBars, hagg, htimely, hkept, hrows, hsorted, hlabels⟩

/-- Logging succeeds: `backfill` is a kind and `info` a severity. -/
lemma logBuild_spec (symbol date : String) (perVenueBars : ℕ) (diagnostics : BuildDiagnostics)
    {w : World} (h : w.Timely) :
    ∃ w', logBuild symbol date perVenueBars diagnostics w = some w' ∧ w'.Timely ∧
      w'.trades = w.trades ∧ w'.bars = w.bars := by
  have hkind : "backfill" ∈ correctionKinds := by decide
  have hseverity : "info" ∈ correctionSeverities := by decide
  simp only [logBuild, World.recordCorrection_spec h hkind hseverity]
  exact ⟨_, rfl, h.addCorrection rfl, rfl, rfl⟩

/-- Bars with increasing timestamps lie in distinct slots. -/
lemma nodup_slots {bars : List Bar} (h : (bars.map Bar.tsNs).Pairwise (· < ·)) :
    (bars.map Bar.slot).Nodup := by
  refine List.Nodup.of_map Prod.snd ?_
  rw [List.map_map]
  exact h.imp fun hlt => hlt.ne

/-- The runs of bars of the venues, each with its own venue in every slot. -/
lemma mem_runs {entries : List (String × List Trade)} {runs : List (List Bar)}
    (h : List.Forall₂ (fun e bars => ∃ nowNs, bars = barsFromTrades symbol e.1 nowNs e.2)
      entries runs) {b : Bar} (hb : b ∈ runs.flatten) :
    b.symbol = symbol ∧ ∃ e ∈ entries, b.venue = e.1 ∧ ∃ t ∈ e.2, b.tsNs = t.second := by
  induction h with
  | nil => cases hb
  | @cons e bars entries runs hrun _ ih =>
      rcases hrun with ⟨nowNs, rfl⟩
      rw [List.flatten_cons] at hb
      rcases List.mem_append.1 hb with hhead | htail
      · have hlabels := labels_of_mem_barsFromTrades symbol e.1 nowNs e.2 b hhead
        exact ⟨hlabels.1, e, List.mem_cons_self, hlabels.2.1, hlabels.2.2⟩
      · rcases ih htail with ⟨hsymbol, e', he', hrest⟩
        exact ⟨hsymbol, e', List.mem_cons_of_mem e he', hrest⟩

/-- Sorted lists of distinct venues make bars in distinct slots. -/
lemma nodup_runs {entries : List (String × List Trade)} {runs : List (List Bar)}
    (h : List.Forall₂ (fun e bars => ∃ nowNs, bars = barsFromTrades symbol e.1 nowNs e.2)
      entries runs) (hkeys : (entries.map Prod.fst).Nodup)
    (hsorted : ∀ e ∈ entries, e.2.Pairwise fun x y => x.tsNs ≤ y.tsNs) :
    (runs.flatten.map Bar.slot).Nodup := by
  induction h with
  | nil => exact List.nodup_nil
  | @cons e bars entries runs hrun hruns ih =>
      rcases hrun with ⟨nowNs, rfl⟩
      have hcons := List.nodup_cons.1 hkeys
      have hhead : ((barsFromTrades symbol e.1 nowNs e.2).map Bar.slot).Nodup :=
        nodup_slots (barsFromTrades_sorted symbol e.1 nowNs e.2 (hsorted e List.mem_cons_self))
      have htail := ih hcons.2 fun e' he' => hsorted e' (List.mem_cons_of_mem e he')
      rw [List.flatten_cons, List.map_append, List.nodup_append]
      refine ⟨hhead, htail, ?_⟩
      intro slot hslot slot' hslot' heq
      rcases List.mem_map.1 hslot with ⟨b, hb, rfl⟩
      rcases List.mem_map.1 hslot' with ⟨b', hb', rfl⟩
      have hvenue : b.venue = e.1 :=
        (labels_of_mem_barsFromTrades symbol e.1 nowNs e.2 b hb).2.1
      rcases (mem_runs hruns hb').2 with ⟨e', he', hvenue', _⟩
      -- A shared slot would mean a shared venue, and the keys are distinct.
      have hsame : e'.1 = e.1 := by
        rw [← hvenue, ← hvenue']
        exact (congrArg Prod.fst heq).symm
      exact hcons.1 (List.mem_map.2 ⟨e', he', hsame⟩)

lemma covers_runs {entries : List (String × List Trade)} {runs : List (List Bar)}
    (h : List.Forall₂ (fun e bars => ∃ nowNs, bars = barsFromTrades symbol e.1 nowNs e.2)
      entries runs) (hne : ∀ e ∈ entries, e.2 ≠ []) :
    ∀ e ∈ entries, ∃ b ∈ runs.flatten, b.venue = e.1 := by
  induction h with
  | nil =>
      intro e he
      cases he
  | @cons e bars entries runs hrun _ ih =>
      rcases hrun with ⟨nowNs, rfl⟩
      intro e' he'
      rcases List.mem_cons.1 he' with rfl | he'
      · have hbars := barsFromTrades_ne_nil symbol e'.1 nowNs (hne e' List.mem_cons_self)
        rcases List.exists_mem_of_ne_nil _ hbars with ⟨b, hb⟩
        refine ⟨b, by simp [hb], ?_⟩
        exact (labels_of_mem_barsFromTrades symbol e'.1 nowNs e'.2 b hb).2.1
      · rcases ih (fun e he => hne e (List.mem_cons_of_mem _ he)) e' he' with ⟨b, hb, hvenue⟩
        exact ⟨b, by simp [hb], hvenue⟩

/-- The runs of the venues and the bars of the tape are what a build adds. -/
lemma barsOf_append {perVenueTrades : Dict String (List Trade)} {runs : List (List Bar)}
    {agg : List Bar}
    (hruns : List.Forall₂ (fun e bars => ∃ nowNs, bars = barsFromTrades symbol e.1 nowNs e.2)
      perVenueTrades.entries runs)
    (hne : ∀ e ∈ perVenueTrades.entries, e.2 ≠ [])
    (hsorted : ∀ e ∈ perVenueTrades.entries, e.2.Pairwise fun x y => x.tsNs ≤ y.tsNs)
    (haggSorted : (agg.map Bar.tsNs).Pairwise (· < ·))
    (haggLabels : ∀ b ∈ agg, b.symbol = symbol ∧ b.venue = "agg" ∧
      ∃ e ∈ perVenueTrades.entries, ∃ t ∈ e.2, b.tsNs = t.second) :
    BarsOf symbol perVenueTrades (runs.flatten ++ agg) where
  symbol := by
    intro b hb
    rcases List.mem_append.1 hb with hrun | htape
    · exact (mem_runs hruns hrun).1
    · exact (haggLabels b htape).1
  second := by
    intro b hb
    rcases List.mem_append.1 hb with hrun | htape
    · rcases (mem_runs hruns hrun).2 with ⟨e, he, _, t, ht, hts⟩
      exact ⟨e, he, t, ht, hts⟩
    · exact (haggLabels b htape).2.2
  covers := by
    intro e he
    rcases covers_runs hruns hne e he with ⟨b, hb, hvenue⟩
    exact ⟨b, List.mem_append_left _ hb, hvenue⟩
  distinct := by
    intro hagg
    rw [List.map_append, List.nodup_append]
    refine ⟨nodup_runs hruns perVenueTrades.nodup hsorted, nodup_slots haggSorted, ?_⟩
    -- A venue is never called `agg`, so the two halves share no slot.
    intro slot hslot slot' hslot' heq
    rcases List.mem_map.1 hslot with ⟨b, hb, rfl⟩
    rcases List.mem_map.1 hslot' with ⟨b', hb', rfl⟩
    rcases (mem_runs hruns hb).2 with ⟨e, he, hvenue, _⟩
    have hname : e.1 = "agg" := by
      rw [← hvenue, ← (haggLabels b' hb').2.1]
      exact congrArg Prod.fst heq
    exact hagg (List.mem_map.2 ⟨e, he, hname⟩)

end Write

/-- A build never raises; it leaves the raw trades alone and appends the bars of the day. -/
theorem buildFor_spec (fs : Listing) (cfg : AggConfig) (symbol date : String) {w : World}
    (h : w.Timely) :
    ∃ w' report rows, buildFor fs cfg symbol date w = some (w', report) ∧ w'.Timely ∧
      w'.trades = w.trades ∧ w'.bars.allRows = w.bars.allRows ++ rows ∧
      BarsOf symbol (collectTrades fs w.trades symbol date) rows := by
  have hmem : ∀ e ∈ (collectTrades fs w.trades symbol date).entries,
      dayRows w.trades symbol date e.1 ≠ [] ∧ e.2 = dayRows w.trades symbol date e.1 :=
    fun e he => mem_collectTrades_iff.1 he
  generalize hcollect : collectTrades fs w.trades symbol date = perVenueTrades at hmem ⊢
  cases hempty : perVenueTrades.entries.isEmpty with
  | true =>
      have hnil : perVenueTrades.entries = [] := List.isEmpty_iff.1 hempty
      have hrun : buildFor fs cfg symbol date w = some (w, ⟨0, 0, none⟩) := by
        simp [buildFor, hcollect, hempty]
      refine ⟨w, ⟨0, 0, none⟩, [], hrun, h, rfl, by simp, ⟨?_, ?_, ?_, ?_⟩⟩
      · intro b hb
        cases hb
      · intro b hb
        cases hb
      · intro e he
        rw [hnil] at he
        cases he
      · intro _
        exact List.nodup_nil
  | false =>
      rcases buildVenues_spec symbol date perVenueTrades.entries (w, 0) h with
        ⟨runs, hruns, htimely₁, htrades₁, hrows₁⟩
      rcases buildAgg_spec cfg symbol date perVenueTrades htimely₁ with
        ⟨w₂, diagnostics, agg, hagg, htimely₂, htrades₂, hrows₂, haggSorted, haggLabels⟩
      rcases logBuild_spec symbol date
        (perVenueTrades.entries.foldl (buildVenue symbol date) (w, 0)).2 diagnostics htimely₂ with
        ⟨w₃, hlog, htimely₃, htrades₃, hbars₃⟩
      have hrun : buildFor fs cfg symbol date w =
          some (w₃, ⟨(perVenueTrades.entries.foldl (buildVenue symbol date) (w, 0)).2,
            diagnostics.aggBars.getD 0, some diagnostics⟩) := by
        simp [buildFor, hcollect, hempty, hagg, hlog]
      have hne : ∀ e ∈ perVenueTrades.entries, e.2 ≠ [] := by
        intro e he
        rw [(hmem e he).2]
        exact (hmem e he).1
      have hsorted : ∀ e ∈ perVenueTrades.entries,
          e.2.Pairwise fun x y => x.tsNs ≤ y.tsNs := by
        intro e he
        rw [(hmem e he).2]
        exact dayRows_sorted
      refine ⟨w₃, _, runs.flatten ++ agg, hrun, htimely₃, ?_, ?_,
        barsOf_append hruns hne hsorted haggSorted haggLabels⟩
      · rw [htrades₃, htrades₂, htrades₁]
      · rw [hbars₃, hrows₂, hrows₁, List.append_assoc]

end CryptoData
