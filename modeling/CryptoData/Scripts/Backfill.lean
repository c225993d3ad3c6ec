import CryptoData.Core.Corrections
import CryptoData.Core.Reconciler
import Mathlib.Tactic.Abel

/-!
# Backfill — REST history into the raw tables

`runBackfill` fetches trades, funding rates or klines of one symbol, writes one part file for each
date, and logs the window that was asked for.  `none` stands for an exception: a failed fetch, or a
refused log row.

`Lake` is the shared world with the two further trees that a backfill writes to, and `Lake.rows`
what all its part files hold, each row reduced to table, symbol and event time.
-/

namespace CryptoData

open Foundation

/-! ## Tables -/

/-- A row of `funding`. -/
structure Funding where
  tsNs : Int
  recvNs : Int
  symbol : String
  venue : String
  fundingRate : ℚ
  markPrice : Option ℚ := none
  nextTsNs : Option Int := none
  ingestedAtNs : Int
  deriving DecidableEq, Repr

/-- A candle as an adapter returns it. -/
structure Kline where
  tsNs : Int
  «open» : ℚ
  high : ℚ
  low : ℚ
  close : ℚ
  volume : ℚ
  trades : Option ℕ := none
  deriving DecidableEq, Repr

/-- A row of `bars_ref`. -/
structure RefBar where
  tsNs : Int
  symbol : String
  venue : String
  interval : String
  «open» : ℚ
  high : ℚ
  low : ℚ
  close : ℚ
  volume : ℚ
  trades : ℕ
  ingestedAtNs : Option Int
  deriving DecidableEq, Repr

/-- The row of a candle; it has no ingestion time. -/
def Kline.toRow (symbol venue interval : String) (k : Kline) : RefBar where
  tsNs := k.tsNs
  symbol := symbol
  venue := venue
  interval := interval
  «open» := k.open
  high := k.high
  low := k.low
  close := k.close
  volume := k.volume
  trades := k.trades.getD 0
  ingestedAtNs := none

/-- `rows` and `dest` of `run_backfill`. -/
inductive Fetched
  | trades (rows : List Trade)
  | funding (rows : List Funding)
  | barsRef (rows : List RefBar)

namespace Fetched

def dest : Fetched → String
  | trades _ => "trades"
  | funding _ => "funding"
  | barsRef _ => "bars_ref"

/-- The `ts_ns` column. -/
def times : Fetched → List Int
  | trades rows => rows.map Trade.tsNs
  | funding rows => rows.map Funding.tsNs
  | barsRef rows => rows.map RefBar.tsNs

/-- `by_date[date_str(r["ts_ns"])].append(r)`, over all rows. -/
def byDate : Fetched → List (String × Fetched)
  | trades rows => (bucket (fun r => dateStr r.tsNs) rows).entries.map fun g => (g.1, trades g.2)
  | funding rows => (bucket (fun r => dateStr r.tsNs) rows).entries.map fun g => (g.1, funding g.2)
  | barsRef rows => (bucket (fun r => dateStr r.tsNs) rows).entries.map fun g => (g.1, barsRef g.2)

end Fetched

/-! ## The lake -/

structure Lake where
  world : World
  funding : Store Funding
  barsRef : Store RefBar

namespace Lake

/-- `write_dataframe(dest, batch, symbol=symbol, venue=venue, date=date)`. -/
def write (l : Lake) (batch : Fetched) (symbol venue date : String) : Lake :=
  let path : PartPath := ⟨⟨batch.dest, symbol, venue, date⟩, .part l.world.now⟩
  match batch with
  | .trades rows => { l with world := l.world.writeTrades rows symbol venue date }
  | .funding rows => { l with world := l.world.tock, funding := l.funding.write path rows }
  | .barsRef rows => { l with world := l.world.tock, barsRef := l.barsRef.write path rows }

/-- Every tree and the log carry earlier readings of an increasing clock. -/
structure Timely (l : Lake) : Prop where
  world : l.world.Timely
  funding : ∀ path ∈ l.funding.keys, path.name.suffix < l.world.now
  barsRef : ∀ path ∈ l.barsRef.keys, path.name.suffix < l.world.now

end Lake

/-! ## The algorithm -/

/-- What a backfill uses of an adapter. -/
structure RestSource extends Source where
  fetchFunding : String → Int → Int → Except FetchError (List Funding)
  fetchKlines : String → Int → Int → String → Except FetchError (List Kline)

/-- The argument `table`; `other` is any further string. -/
inductive BackfillTable
  | trades
  | funding
  | openInterest
  | klines
  | other (name : String)
  deriving DecidableEq, Repr

def BackfillTable.render : BackfillTable → String
  | trades => "trades"
  | funding => "funding"
  | openInterest => "open_interest"
  | klines => "klines"
  | other name => name

/-- The arguments of `run_backfill`; the venue is the name of the source. -/
structure BackfillRequest where
  source : RestSource
  symbol : String
  startNs : Int
  endNs : Int
  table : BackfillTable
  interval : String := "1m"

/-- The rows to write; open interest and unknown tables have none. -/
def BackfillRequest.fetch (req : BackfillRequest) : Except FetchError Fetched :=
  match req.table with
  | .trades => (req.source.fetchTrades req.symbol req.startNs req.endNs).map Fetched.trades
  | .funding => (req.source.fetchFunding req.symbol req.startNs req.endNs).map Fetched.funding
  | .klines =>
      (req.source.fetchKlines req.symbol req.startNs req.endNs req.interval).map fun items =>
        .barsRef (items.map (Kline.toRow req.symbol req.source.name req.interval))
  | _ => .ok (.trades [])

/-- The loop body over the dates: the lake, and the number of rows written. -/
def BackfillRequest.writeGroup (req : BackfillRequest) (acc : Lake × ℕ)
    (group : String × Fetched) : Lake × ℕ :=
  (acc.1.write group.2 req.symbol req.source.name group.1, acc.2 + group.2.times.length)

/-- The `backfill` row of the log. -/
def BackfillRequest.log (req : BackfillRequest) (dest : String) (written : ℕ) (l : Lake) :
    Option Lake :=
  let logged := l.world.recordCorrection dest "backfill" "info" (some req.symbol)
    (some req.source.name) req.startNs req.endNs (some written)
    (some ("REST backfill " ++ req.table.render ++
      if req.table = .klines then " interval=" ++ req.interval else ""))
  logged.toOption.map fun out => { l with world := out.1 }

/-- `run_backfill(symbol, venue, start_ns, end_ns, table, interval)`. -/
def runBackfill (req : BackfillRequest) (l : Lake) : Option (Lake × ℕ) :=
  match req.fetch with
  | .error _ => none
  | .ok batch =>
      if batch.times.isEmpty then
        some (l, 0)
      else do
        let out := batch.byDate.foldl req.writeGroup (l, 0)
        let l' ← req.log batch.dest out.2 out.1
        some (l', out.2)

/-! ## What is written -/

/-- A stored row, as far as the corrections log can refer to it. -/
structure PartRow where
  table : String
  symbol : String
  tsNs : Int
  deriving DecidableEq, Repr

/-- The rows of the part files of a tree. -/
def partRows {ρ : Type} (ts : ρ → Int) (s : Store ρ) : Multiset PartRow :=
  s.located.map fun x => ⟨x.1.table, x.1.symbol, ts x.2⟩

namespace Lake

/-- The rows of all part files. -/
def rows (l : Lake) : Multiset PartRow :=
  partRows Trade.tsNs l.world.trades + partRows Bar.tsNs l.world.bars +
    partRows Funding.tsNs l.funding + partRows RefBar.tsNs l.barsRef

/-- From `l` to `l'`, rows as described are added and nothing is logged. -/
structure Adds (l l' : Lake) (written : PartRow → Prop) : Prop where
  timely : l'.Timely
  rows : ∃ added : Multiset PartRow, l'.rows = added + l.rows ∧ ∀ r, r ∈ added ↔ written r
  corrections : l'.world.corrections = l.world.corrections

section Adds

variable {l l' l'' : Lake} {p q : PartRow → Prop}

lemma Adds.refl (h : l.Timely) : Adds l l fun _ => False :=
  ⟨h, ⟨0, (zero_add _).symm, by simp⟩, rfl⟩

lemma Adds.trans (h : Adds l l' p) (h' : Adds l' l'' q) : Adds l l'' fun r => p r ∨ q r := by
  rcases h.rows with ⟨first, hfirst, hp⟩
  rcases h'.rows with ⟨second, hsecond, hq⟩
  refine ⟨h'.timely, ⟨first + second, ?_, ?_⟩, h'.corrections.trans h.corrections⟩
  · rw [hsecond, hfirst, ← add_assoc, add_comm second first]
  · intro r
    rw [Multiset.mem_add, hp, hq]

lemma Adds.congr (h : Adds l l' p) (hpq : ∀ r, p r ↔ q r) : Adds l l' q := by
  rcases h.rows with ⟨added, hadded, hp⟩
  exact ⟨h.timely, ⟨added, hadded, fun r => (hp r).trans (hpq r)⟩, h.corrections⟩

lemma partRows_write {ρ : Type} (ts : ρ → Int) {s : Store ρ} {path : PartPath}
    (hfresh : path ∉ s.keys) (rows : List ρ) :
    partRows ts (s.write path rows) =
      (rows.map fun r => (⟨path.partition.table, path.partition.symbol, ts r⟩ : PartRow) :
        List PartRow) + partRows ts s := by
  rw [partRows, Store.located_write hfresh, Multiset.map_add, Multiset.map_coe, List.map_map]
  rfl

/-- The other trees keep earlier readings while the world goes on. -/
lemma Timely.advance (h : l.Timely) {w' : World} (hw : w'.Timely) (hle : l.world.now ≤ w'.now) :
    ({ l with world := w' } : Lake).Timely := by
  refine ⟨hw, ?_, ?_⟩
  · exact fun path hpath => lt_of_lt_of_le (h.funding path hpath) hle
  · exact fun path hpath => lt_of_lt_of_le (h.barsRef path hpath) hle

theorem Timely.write (h : l.Timely) (batch : Fetched) (symbol venue date : String) :
    (l.write batch symbol venue date).Timely := by
  have hclock : l.world.now < l.world.tock.now := h.world.now_lt_tock
  have hadvance := h.advance h.world.tock hclock.le
  cases batch with
  | trades rows => exact h.advance (h.world.writeTrades rows symbol venue date) hclock.le
  | funding rows =>
      refine ⟨h.world.tock, ?_, hadvance.barsRef⟩
      intro path hpath
      rcases Dict.mem_keys_set.1 hpath with rfl | hold
      · exact hclock
      · exact hadvance.funding path hold
  | barsRef rows =>
      refine ⟨h.world.tock, hadvance.funding, ?_⟩
      intro path hpath
      rcases Dict.mem_keys_set.1 hpath with rfl | hold
      · exact hclock
      · exact hadvance.barsRef path hold

/-- The rows of a batch, filed under a symbol. -/
def batchRows (batch : Fetched) (symbol : String) : Multiset PartRow :=
  (batch.times.map fun ts => (⟨batch.dest, symbol, ts⟩ : PartRow) : List PartRow)

lemma rows_write (h : l.Timely) (batch : Fetched) (symbol venue date : String) :
    (l.write batch symbol venue date).rows = batchRows batch symbol + l.rows := by
  cases batch with
  | trades rows =>
      have hfresh : ⟨⟨"trades", symbol, venue, date⟩, .part l.world.now⟩ ∉ l.world.trades.keys :=
        h.world.fresh_trades rfl
      have hpart := partRows_write Trade.tsNs hfresh rows
      simp only [Lake.rows, Lake.write, World.writeTrades, World.tock, hpart, batchRows,
        Fetched.times, Fetched.dest, List.map_map, Function.comp_def, add_assoc]
  | funding rows =>
      have hfresh : ⟨⟨"funding", symbol, venue, date⟩, .part l.world.now⟩ ∉ l.funding.keys :=
        fun hmem => absurd (h.funding _ hmem) (lt_irrefl _)
      have hpart := partRows_write Funding.tsNs hfresh rows
      simp only [Lake.rows, Lake.write, World.tock, hpart, batchRows, Fetched.times, Fetched.dest,
        List.map_map, Function.comp_def]
      abel
  | barsRef rows =>
      have hfresh : ⟨⟨"bars_ref", symbol, venue, date⟩, .part l.world.now⟩ ∉ l.barsRef.keys :=
        fun hmem => absurd (h.barsRef _ hmem) (lt_irrefl _)
      have hpart := partRows_write RefBar.tsNs hfresh rows
      simp only [Lake.rows, Lake.write, World.tock, hpart, batchRows, Fetched.times, Fetched.dest,
        List.map_map, Function.comp_def]
      abel

lemma corrections_write (l : Lake) (batch : Fetched) (symbol venue date : String) :
    (l.write batch symbol venue date).world.corrections = l.world.corrections := by
  cases batch <;> rfl

/-- Writing a batch adds its rows. -/
theorem adds_write (h : l.Timely) (batch : Fetched) (symbol venue date : String) :
    Adds l (l.write batch symbol venue date)
      fun r => ∃ ts ∈ batch.times, r = ⟨batch.dest, symbol, ts⟩ := by
  refine ⟨h.write batch symbol venue date,
    ⟨batchRows batch symbol, rows_write h batch symbol venue date, ?_⟩,
    corrections_write l batch symbol venue date⟩
  intro r
  rw [batchRows, Multiset.mem_coe, List.mem_map]
  exact exists_congr fun ts => and_congr_right' eq_comm

end Adds

end Lake

namespace Fetched

/-- The groups hold the rows of the batch and keep its destination. -/
lemma exists_mem_byDate_iff (batch : Fetched) (symbol : String) (r : PartRow) :
    (∃ g ∈ batch.byDate, ∃ ts ∈ g.2.times, r = ⟨g.2.dest, symbol, ts⟩) ↔
      ∃ ts ∈ batch.times, r = ⟨batch.dest, symbol, ts⟩ := by
  cases batch with
  | trades rows =>
      simp only [byDate, times, dest, List.mem_map, exists_exists_and_eq_and]
      exact exists_mem_bucket_iff (fun r : Trade => dateStr r.tsNs) rows
  | funding rows =>
      simp only [byDate, times, dest, List.mem_map, exists_exists_and_eq_and]
      exact exists_mem_bucket_iff (fun r : Funding => dateStr r.tsNs) rows
  | barsRef rows =>
      simp only [byDate, times, dest, List.mem_map, exists_exists_and_eq_and]
      exact exists_mem_bucket_iff (fun r : RefBar => dateStr r.tsNs) rows

lemma dest_of_mem_byDate {batch : Fetched} {g : String × Fetched} (h : g ∈ batch.byDate) :
    g.2.dest = batch.dest := by
  cases batch with
  | trades rows =>
      rcases List.mem_map.1 h with ⟨g', _, rfl⟩
      rfl
  | funding rows =>
      rcases List.mem_map.1 h with ⟨g', _, rfl⟩
      rfl
  | barsRef rows =>
      rcases List.mem_map.1 h with ⟨g', _, rfl⟩
      rfl

end Fetched

namespace BackfillRequest

variable {req : BackfillRequest}

/-- Writing groups adds their rows. -/
theorem adds_writeGroups :
    ∀ (groups : List (String × Fetched)) (acc : Lake × ℕ), acc.1.Timely →
      Lake.Adds acc.1 (groups.foldl req.writeGroup acc).1
        fun r => ∃ g ∈ groups, ∃ ts ∈ g.2.times, r = ⟨g.2.dest, req.symbol, ts⟩
  | [], acc, h => (Lake.Adds.refl h).congr fun r => by simp
  | g :: groups, acc, h => by
      have hfirst := Lake.adds_write h g.2 req.symbol req.source.name g.1
      have hrest := adds_writeGroups groups (req.writeGroup acc g) hfirst.timely
      refine (hfirst.trans hrest).congr ?_
      intro r
      rw [List.exists_mem_cons_iff]

/-- Logging succeeds and adds the row of the window. -/
lemma log_spec (req : BackfillRequest) {l : Lake} (h : l.Timely) (dest : String) (written : ℕ) :
    ∃ c : Correction, req.log dest written l = some { l with world := l.world.addCorrection c } ∧
      c.correctionId = l.world.now ∧ c.tableName = dest ∧ c.symbol = some req.symbol ∧
      c.effectiveFromNs = req.startNs ∧ c.effectiveToNs = req.endNs := by
  have hkind : "backfill" ∈ correctionKinds := by decide
  have hseverity : "info" ∈ correctionSeverities := by decide
  simp only [log, World.recordCorrection_spec h.world hkind hseverity]
  exact ⟨_, rfl, rfl, rfl, rfl, rfl, rfl⟩

end BackfillRequest

end CryptoData
