import CryptoData.Core.Symbols
import CryptoData.Foundation.Bucket
import CryptoData.Storage.Parquet

/-!
# Reconciler — REST gap fill of the stored trades

For each symbol of a venue the reconciler looks up the newest stored timestamp of the window and
fetches from there to now.  It never looks behind that timestamp, so it fills the tail of the
window and nothing else: a hole closes exactly when no stored row comes after it and some venue
trade in it lies past the left edge of the window (`reconcile_closes_iff`).
-/

namespace CryptoData

open Foundation

/-! ## The algorithm -/

inductive FetchError
  | notImplemented
  | other
  deriving DecidableEq, Repr

/-- The part of a venue adapter that the reconciler uses; `fetchTrades symbol startNs endNs`. -/
structure Source where
  name : String
  fetchTrades : String → Int → Int → Except FetchError (List Trade)

/-- The rows of the `trades` table with the given venue and symbol, which are read off the
directory of the file. -/
def venueRows (s : Store Trade) (venue symbol : String) : List Trade :=
  (s.entries.filter fun e => decide (e.1.partition.venue = venue) &&
    decide (e.1.partition.symbol = symbol)).flatMap Prod.snd

/-- `SELECT MAX(ts_ns) FROM trades WHERE ... AND ts_ns >= start_ns`, or `start_ns` without rows. -/
def lastSeen (stored : List Trade) (startNs : Int) : Int :=
  (((stored.map Trade.tsNs).filter fun ts => decide (startNs ≤ ts)).max?).getD startNs

/-- `write_dataframe("trades", rows, symbol=canonical, venue=source.name, date=date)`. -/
def writeDate (venue canonical : String) (acc : World × ℕ) (group : String × List Trade) :
    World × ℕ :=
  (acc.1.writeTrades group.2 canonical venue group.1, acc.2 + group.2.length)

/-- The loop body of `reconcile_venue_trades`, for one symbol of the venue. -/
def reconcileSymbol (source : Source) (startNs nowNs : Int) (acc : World × ℕ)
    (entry : String × String) : World × ℕ :=
  let last := lastSeen (venueRows acc.1.trades source.name entry.1) startNs
  -- `continue`: the newest row is less than a minute old, whatever is missing before it.
  if nowNs - last < 60 * nsPerSec then
    acc
  else
    match source.fetchTrades entry.1 (last + 1) nowNs with
    -- An unsupported fetch, a failed one (logged) and an empty answer write nothing.
    | .error _ => acc
    | .ok [] => acc
    | .ok (t :: trades) =>
        let byDate := bucket (fun t : Trade => dateStr t.tsNs) (t :: trades)
        byDate.entries.foldl (writeDate source.name entry.1) acc

/-- The left edge of the window of a run that starts at `nowNs`. -/
def windowStart (nowNs lookbackMinutes : Int) : Int :=
  nowNs - lookbackMinutes * 60 * 1000000000

/-- `reconcile_venue_trades(source, lookback_minutes)`: the world afterwards and the row count. -/
def reconcileVenueTrades (byCanonical : Dict String SymbolMap) (source : Source)
    (lookbackMinutes : Int) (w : World) : World × ℕ :=
  (symbolsForVenue byCanonical source.name).foldl
    (reconcileSymbol source (windowStart w.now lookbackMinutes) w.now) (w.tock, 0)

/-! ## What one symbol adds -/

/-- The rows that one symbol's round fetches, given what is stored for the symbol. -/
def refetched (source : Source) (startNs nowNs : Int) (canonical : String)
    (stored : List Trade) : List Trade :=
  let last := lastSeen stored startNs
  if nowNs - last < 60 * nsPerSec then []
  else
    match source.fetchTrades canonical (last + 1) nowNs with
    | .error _ => []
    | .ok trades => trades

section Writes

variable {venue canonical symbol : String}

lemma venueRows_writeTrades {w : World} (h : w.Timely) (rows : List Trade) (date : String) :
    venueRows (w.writeTrades rows canonical venue date).trades venue symbol =
      venueRows w.trades venue symbol ++ if canonical = symbol then rows else [] := by
  have hfresh : ⟨⟨"trades", canonical, venue, date⟩, .part w.now⟩ ∉ w.trades.keys :=
    h.fresh_trades rfl
  by_cases hsym : canonical = symbol
  · subst hsym
    simp [venueRows, World.writeTrades, Store.write, Dict.set, hfresh]
  · simp [venueRows, World.writeTrades, Store.write, Dict.set, hfresh, hsym]

/-- Writing the groups of one symbol appends their rows to that symbol alone. -/
lemma writeDates_spec (venue canonical : String) :
    ∀ (groups : List (String × List Trade)) (acc : World × ℕ), acc.1.Timely →
      (groups.foldl (writeDate venue canonical) acc).1.Timely ∧
      ∀ symbol, venueRows (groups.foldl (writeDate venue canonical) acc).1.trades venue symbol =
        venueRows acc.1.trades venue symbol ++
          if canonical = symbol then groups.flatMap Prod.snd else []
  | [], acc, h => ⟨h, by simp⟩
  | group :: groups, acc, h => by
      rcases writeDates_spec venue canonical groups (writeDate venue canonical acc group)
        (h.writeTrades group.2 canonical venue group.1) with ⟨htimely, hrows⟩
      refine ⟨htimely, ?_⟩
      intro symbol
      rw [List.foldl_cons, hrows symbol, writeDate, venueRows_writeTrades h]
      by_cases hsym : canonical = symbol
      · simp [hsym]
      · simp [hsym]

end Writes

/-- One round writes what it fetches, one file for each date. -/
theorem reconcileSymbol_eq (source : Source) (startNs nowNs : Int) (acc : World × ℕ)
    (entry : String × String) :
    reconcileSymbol source startNs nowNs acc entry =
      (bucket (fun t : Trade => dateStr t.tsNs) (refetched source startNs nowNs entry.1
        (venueRows acc.1.trades source.name entry.1))).entries.foldl
          (writeDate source.name entry.1) acc := by
  let last := lastSeen (venueRows acc.1.trades source.name entry.1) startNs
  by_cases hrecent : nowNs - last < 60 * nsPerSec
  · have hrun : reconcileSymbol source startNs nowNs acc entry = acc := if_pos hrecent
    have hnone : refetched source startNs nowNs entry.1
        (venueRows acc.1.trades source.name entry.1) = [] := if_pos hrecent
    rw [hrun, hnone]
    rfl
  · simp only [reconcileSymbol, refetched]
    rw [if_neg hrecent, if_neg hrecent]
    cases source.fetchTrades entry.1 (last + 1) nowNs with
    | error e => rfl
    | ok trades =>
        -- An empty answer writes no group, which is what the early `continue` amounts to.
        cases trades with
        | nil => rfl
        | cons t trades => rfl

/-- One round adds the fetched rows to its own symbol and leaves the other symbols alone. -/
lemma reconcileSymbol_spec (source : Source) (startNs nowNs : Int) {acc : World × ℕ}
    (h : acc.1.Timely) (entry : String × String) :
    (reconcileSymbol source startNs nowNs acc entry).1.Timely ∧
      (venueRows (reconcileSymbol source startNs nowNs acc entry).1.trades source.name
        entry.1).Perm (venueRows acc.1.trades source.name entry.1 ++
          refetched source startNs nowNs entry.1 (venueRows acc.1.trades source.name entry.1)) ∧
      ∀ symbol, symbol ≠ entry.1 →
        venueRows (reconcileSymbol source startNs nowNs acc entry).1.trades source.name symbol =
          venueRows acc.1.trades source.name symbol := by
  rcases writeDates_spec source.name entry.1 (bucket (fun t : Trade => dateStr t.tsNs)
    (refetched source startNs nowNs entry.1
      (venueRows acc.1.trades source.name entry.1))).entries acc h with ⟨htimely, hrows⟩
  rw [reconcileSymbol_eq]
  refine ⟨htimely, ?_, ?_⟩
  · rw [hrows entry.1, if_pos rfl]
    exact (flatMap_entries_perm _ _).append_left _
  · intro symbol hne
    rw [hrows symbol, if_neg (Ne.symm hne), List.append_nil]

/-- The whole loop: each symbol of the list gets what its own round fetches. -/
lemma reconcileSymbols_spec (source : Source) (startNs nowNs : Int) :
    ∀ (entries : List (String × String)) (acc : World × ℕ), acc.1.Timely →
      (entries.map Prod.fst).Nodup →
      (entries.foldl (reconcileSymbol source startNs nowNs) acc).1.Timely ∧
      (∀ symbol, symbol ∉ entries.map Prod.fst →
        venueRows (entries.foldl (reconcileSymbol source startNs nowNs) acc).1.trades
          source.name symbol = venueRows acc.1.trades source.name symbol) ∧
      ∀ entry ∈ entries,
        (venueRows (entries.foldl (reconcileSymbol source startNs nowNs) acc).1.trades
          source.name entry.1).Perm (venueRows acc.1.trades source.name entry.1 ++
            refetched source startNs nowNs entry.1 (venueRows acc.1.trades source.name entry.1))
  | [], acc, h, _ => by
      refine ⟨h, fun _ _ => rfl, ?_⟩
      intro entry hentry
      cases hentry
  | entry :: entries, acc, h, hnodup => by
      -- A symbol is listed once, so its own round is the only one that touches its rows.
      have hcons := List.nodup_cons.1 hnodup
      rcases reconcileSymbol_spec source startNs nowNs h entry with ⟨htimely, hown, hother⟩
      rcases reconcileSymbols_spec source startNs nowNs entries _ htimely hcons.2 with
        ⟨htimely', hframe, hrest⟩
      refine ⟨htimely', ?_, ?_⟩
      · intro symbol hsymbol
        rw [List.map_cons, List.mem_cons, not_or] at hsymbol
        rw [List.foldl_cons, hframe symbol hsymbol.2, hother symbol hsymbol.1]
      · intro entry' hentry'
        rcases List.mem_cons.1 hentry' with rfl | hin
        · rw [List.foldl_cons, hframe entry'.1 hcons.1]
          exact hown
        · have hne : entry'.1 ≠ entry.1 := by
            intro heq
            exact hcons.1 (List.mem_map.2 ⟨entry', hin, heq⟩)
          have hstored := hother entry'.1 hne
          have hperm := hrest entry' hin
          rw [hstored] at hperm
          exact hperm

/-- What a run of the reconciler leaves stored for each symbol of the venue. -/
theorem reconcileVenueTrades_spec (byCanonical : Dict String SymbolMap) (source : Source)
    (lookbackMinutes : Int) {w : World} (h : w.Timely) :
    ∀ entry ∈ symbolsForVenue byCanonical source.name,
      (venueRows (reconcileVenueTrades byCanonical source lookbackMinutes w).1.trades source.name
        entry.1).Perm (venueRows w.trades source.name entry.1 ++
          refetched source (windowStart w.now lookbackMinutes) w.now entry.1
            (venueRows w.trades source.name entry.1)) :=
  (reconcileSymbols_spec source (windowStart w.now lookbackMinutes) w.now
    (symbolsForVenue byCanonical source.name) (w.tock, 0) h.tock
    (symbolsForVenue_nodup byCanonical source.name)).2.2

/-! ## Holes -/

/-- The venue answers a request with exactly its trades of the requested range. -/
def Source.Serves (source : Source) (history : String → List Trade) : Prop :=
  ∀ symbol startNs endNs, ∃ rows, source.fetchTrades symbol startNs endNs = .ok rows ∧
    ∀ t, t ∈ rows ↔ t ∈ history symbol ∧ startNs ≤ t.tsNs ∧ t.tsNs ≤ endNs

/-- A stretch of more than two minutes of the window `[startNs, nowNs - 60 s]` in which the venue
traded and nothing is stored. -/
structure Hole (traded stored : List Trade) (startNs nowNs a b : Int) : Prop where
  left : startNs ≤ a
  right : b ≤ nowNs - 60 * nsPerSec
  long : 120 * nsPerSec < b - a
  traded : ∃ t ∈ traded, a ≤ t.tsNs ∧ t.tsNs ≤ b
  missing : ∀ r ∈ stored, ¬ (a ≤ r.tsNs ∧ r.tsNs ≤ b)

/-- A hole that reaches the end of what is stored and has a trade past the window's left edge. -/
def AtTail (traded stored : List Trade) (startNs a b : Int) : Prop :=
  (∀ r ∈ stored, r.tsNs ≤ b) ∧ ∃ t ∈ traded, startNs < t.tsNs ∧ a ≤ t.tsNs ∧ t.tsNs ≤ b

lemma le_lastSeen (stored : List Trade) (startNs : Int) : startNs ≤ lastSeen stored startNs := by
  unfold lastSeen
  cases hmax : ((stored.map Trade.tsNs).filter fun ts => decide (startNs ≤ ts)).max? with
  | none => exact le_refl startNs
  | some ts =>
      have hmem := List.mem_filter.1 (List.max?_mem hmax)
      simpa using hmem.2

lemma tsNs_le_lastSeen {stored : List Trade} {r : Trade} (hr : r ∈ stored) (startNs : Int)
    (hstart : startNs ≤ r.tsNs) : r.tsNs ≤ lastSeen stored startNs := by
  have hin : r.tsNs ∈ (stored.map Trade.tsNs).filter fun ts => decide (startNs ≤ ts) :=
    List.mem_filter.2 ⟨List.mem_map.2 ⟨r, hr, rfl⟩, by simpa using hstart⟩
  unfold lastSeen
  cases hmax : ((stored.map Trade.tsNs).filter fun ts => decide (startNs ≤ ts)).max? with
  | none =>
      rw [List.max?_eq_none_iff.1 hmax] at hin
      cases hin
  | some ts => exact (List.max?_eq_some_iff.1 hmax).2 r.tsNs hin

/-- The newest timestamp is the window's left edge or that of a stored row. -/
lemma lastSeen_cases (stored : List Trade) (startNs : Int) :
    lastSeen stored startNs = startNs ∨ ∃ r ∈ stored, r.tsNs = lastSeen stored startNs := by
  unfold lastSeen
  cases hmax : ((stored.map Trade.tsNs).filter fun ts => decide (startNs ≤ ts)).max? with
  | none => exact Or.inl rfl
  | some ts =>
      have hmem := List.mem_filter.1 (List.max?_mem hmax)
      rcases List.mem_map.1 hmem.1 with ⟨r, hr, hts⟩
      exact Or.inr ⟨r, hr, hts⟩

section Fill

variable {source : Source} {history : String → List Trade} {canonical : String}
  {stored : List Trade} {startNs nowNs a b : Int}

/-- What is fetched lies past the newest stored timestamp, and is everything the venue has there. -/
lemma mem_refetched_iff (hserves : source.Serves history) {t : Trade} :
    t ∈ refetched source startNs nowNs canonical stored ↔
      60 * nsPerSec ≤ nowNs - lastSeen stored startNs ∧ t ∈ history canonical ∧
        lastSeen stored startNs < t.tsNs ∧ t.tsNs ≤ nowNs := by
  rcases hserves canonical (lastSeen stored startNs + 1) nowNs with ⟨rows, hfetch, hrows⟩
  by_cases hrecent : nowNs - lastSeen stored startNs < 60 * nsPerSec
  · have hnone : refetched source startNs nowNs canonical stored = [] := if_pos hrecent
    rw [hnone]
    constructor
    · intro ht
      cases ht
    · intro h
      exact absurd h.1 (not_le.2 hrecent)
  · have hsome : refetched source startNs nowNs canonical stored = rows := by
      simp only [refetched]
      rw [if_neg hrecent, hfetch]
    rw [hsome, hrows, Int.add_one_le_iff]
    exact ⟨fun h => ⟨not_lt.1 hrecent, h⟩, fun h => h.2⟩

/-- A hole that something was fetched into reached the end of what was stored. -/
lemma atTail_of_refetched (hserves : source.Serves history) {t : Trade}
    (hhole : Hole (history canonical) stored startNs nowNs a b)
    (ht : t ∈ refetched source startNs nowNs canonical stored)
    (hin : a ≤ t.tsNs ∧ t.tsNs ≤ b) : AtTail (history canonical) stored startNs a b := by
  rcases (mem_refetched_iff hserves).1 ht with ⟨_, htraded, hlast, _⟩
  refine ⟨?_, t, htraded, lt_of_le_of_lt (le_lastSeen stored startNs) hlast, hin⟩
  intro r hr
  by_contra hlater
  -- A row past the hole would have been the newest one, and the fetch starts after it.
  have hbr : b < r.tsNs := not_le.1 hlater
  have hstart : startNs ≤ r.tsNs :=
    le_trans hhole.left (le_trans hin.1 (le_trans hin.2 hbr.le))
  have hle : r.tsNs ≤ lastSeen stored startNs := tsNs_le_lastSeen hr startNs hstart
  exact absurd (lt_trans (lt_of_le_of_lt hle hlast) (lt_of_le_of_lt hin.2 hbr)) (lt_irrefl _)

/-- A hole that reaches the end of what is stored is fetched into. -/
lemma refetched_of_atTail (hserves : source.Serves history)
    (hhole : Hole (history canonical) stored startNs nowNs a b)
    (htail : AtTail (history canonical) stored startNs a b) :
    ∃ t ∈ refetched source startNs nowNs canonical stored, a ≤ t.tsNs ∧ t.tsNs ≤ b := by
  rcases htail with ⟨hnone, t, htraded, hstart, hin⟩
  have hright := hhole.right
  have hlong := hhole.long
  have hleft := hhole.left
  -- Nothing is stored past or inside the hole, so the newest row lies before it.
  have hlast : lastSeen stored startNs < t.tsNs ∧ lastSeen stored startNs ≤ b := by
    rcases lastSeen_cases stored startNs with heq | ⟨r, hr, hts⟩
    · rw [heq]
      exact ⟨hstart, le_trans hstart.le hin.2⟩
    · have hrb : r.tsNs ≤ b := hnone r hr
      have hra : r.tsNs < a := by
        by_contra hge
        exact hhole.missing r hr ⟨not_lt.1 hge, hrb⟩
      rw [← hts]
      exact ⟨lt_of_lt_of_le hra hin.1, hrb⟩
  refine ⟨t, (mem_refetched_iff hserves).2 ⟨?_, htraded, hlast.1, ?_⟩, hin⟩
  · have hle := hlast.2
    omega
  · have hle := hin.2
    simp only [nsPerSec] at hright
    omega

end Fill

/-- A run leaves no hole of a symbol exactly when every hole it finds is at the tail. -/
theorem reconcile_closes_iff (byCanonical : Dict String SymbolMap) (source : Source)
    (lookbackMinutes : Int) (w : World) (history : String → List Trade) (htimely : w.Timely)
    (hserves : source.Serves history) :
    ∀ entry ∈ symbolsForVenue byCanonical source.name,
      (∀ a b, ¬ Hole (history entry.1)
          (venueRows (reconcileVenueTrades byCanonical source lookbackMinutes w).1.trades
            source.name entry.1) (windowStart w.now lookbackMinutes) w.now a b) ↔
        ∀ a b, Hole (history entry.1) (venueRows w.trades source.name entry.1)
          (windowStart w.now lookbackMinutes) w.now a b →
            AtTail (history entry.1) (venueRows w.trades source.name entry.1)
              (windowStart w.now lookbackMinutes) a b := by
  intro entry hentry
  have hperm := reconcileVenueTrades_spec byCanonical source lookbackMinutes htimely entry hentry
  have hmem : ∀ r, r ∈ venueRows
      (reconcileVenueTrades byCanonical source lookbackMinutes w).1.trades source.name entry.1 ↔
        r ∈ venueRows w.trades source.name entry.1 ∨
          r ∈ refetched source (windowStart w.now lookbackMinutes) w.now entry.1
            (venueRows w.trades source.name entry.1) := by
    intro r
    rw [hperm.mem_iff, List.mem_append]
  constructor
  -- A hole that is not at the tail is still a hole after the run.
  · intro hclosed a b hhole
    by_contra htail
    apply hclosed a b
    refine ⟨hhole.left, hhole.right, hhole.long, hhole.traded, ?_⟩
    intro r hr hin
    rcases (hmem r).1 hr with hold | hnew
    · exact hhole.missing r hold hin
    · exact htail (atTail_of_refetched hserves hhole hnew hin)
  · intro htails a b hhole
    have hbefore : Hole (history entry.1) (venueRows w.trades source.name entry.1)
        (windowStart w.now lookbackMinutes) w.now a b := by
      refine ⟨hhole.left, hhole.right, hhole.long, hhole.traded, ?_⟩
      intro r hr
      exact hhole.missing r ((hmem r).2 (Or.inl hr))
    rcases refetched_of_atTail hserves hbefore (htails a b hbefore) with ⟨t, ht, hin⟩
    exact hhole.missing t ((hmem t).2 (Or.inr ht)) hin

/-! ## A feed that dropped and came back -/

/-- Trades of the venue at 3000 s, 5000 s and 9990 s. -/
def sampleHistory : List Trade :=
  [3000, 5000, 9990].map fun secs =>
    { tsNs := secs * nsPerSec, symbol := "BTC-USD", venue := some "kraken", price := 100,
      size := some 1 }

/-- A venue that answers with the requested range of `sampleHistory`. -/
def sampleSource : Source where
  name := "kraken"
  fetchTrades := fun _ startNs endNs =>
    .ok (sampleHistory.filter fun t => decide (startNs ≤ t.tsNs) && decide (t.tsNs ≤ endNs))

def sampleSymbols : Dict String SymbolMap :=
  Dict.empty.set "BTC-USD" ⟨"BTC-USD", Dict.empty.set "kraken" "XBT/USD"⟩

/-- At 10000 s, the stored trades are those of the venue at the given times. -/
def storedAt (secs : List Int) : World where
  clock := fun i => 10000 * nsPerSec + i
  tick := 0
  trades := Dict.empty.set ⟨⟨"trades", "BTC-USD", "kraken", "1970-01-01"⟩, .part 0⟩
    (sampleHistory.filter fun t => decide (t.tsNs / nsPerSec ∈ secs))
  bars := Dict.empty
  corrections := []

lemma storedAt_timely (secs : List Int) : (storedAt secs).Timely := by
  refine World.Timely.single ?_ (by simp [PartName.suffix, nsPerSec]) _
  intro i j hij
  simpa using hij

lemma sampleSource_serves : sampleSource.Serves fun _ => sampleHistory := by
  intro symbol startNs endNs
  refine ⟨_, rfl, ?_⟩
  intro t
  rw [List.mem_filter, Bool.and_eq_true, decide_eq_true_eq, decide_eq_true_eq]

theorem reconcile_closes_iff_sample :
    (∀ a b, ¬ Hole sampleHistory
        (venueRows (reconcileVenueTrades sampleSymbols sampleSource 120 (storedAt [3000])).1.trades
          "kraken" "BTC-USD") (windowStart (storedAt [3000]).now 120) (storedAt [3000]).now a b) ↔
      ∀ a b, Hole sampleHistory (venueRows (storedAt [3000]).trades "kraken" "BTC-USD")
        (windowStart (storedAt [3000]).now 120) (storedAt [3000]).now a b →
          AtTail sampleHistory (venueRows (storedAt [3000]).trades "kraken" "BTC-USD")
            (windowStart (storedAt [3000]).now 120) a b :=
  reconcile_closes_iff sampleSymbols sampleSource 120 (storedAt [3000]) (fun _ => sampleHistory)
    (storedAt_timely [3000]) sampleSource_serves ("BTC-USD", "XBT/USD") (by decide +kernel)

/-- With the row at 9990 s stored, the hole around 5000 s stays open. -/
theorem interior_hole_stays :
    sampleSource.Serves (fun _ => sampleHistory) ∧
      ("BTC-USD", "XBT/USD") ∈ symbolsForVenue sampleSymbols sampleSource.name ∧
      Hole sampleHistory
        (venueRows (reconcileVenueTrades sampleSymbols sampleSource 120
          (storedAt [3000, 9990])).1.trades sampleSource.name "BTC-USD")
        (windowStart (storedAt [3000, 9990]).now 120) (storedAt [3000, 9990]).now
        (4000 * nsPerSec) (6000 * nsPerSec) :=
  ⟨sampleSource_serves, by decide +kernel, by decide +kernel, by decide +kernel, by decide +kernel,
    by decide +kernel, by decide +kernel⟩

end CryptoData
