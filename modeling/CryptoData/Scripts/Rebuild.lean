import CryptoData.Query.Bars
import CryptoData.Scripts.BuildBars

/-!
# Rebuild — what deriving a day again does to the bars

A history of a day is a first build followed by builds of the same day and compactions, in any
order.  Compactions rearrange rows, builds append rows: a query after the history agrees with the
query after the first build exactly when the history holds no further build, or there was nothing
to build (`rebuild_idempotent_iff`).  A second build of a day with trades does not supersede the
bars of the first, it doubles them.
-/

namespace CryptoData

open Foundation

/-! ## Histories -/

/-- What may happen to a day after its first build. -/
inductive BarsOp
  | build
  | compactTrades (partition : Partition)
  | compactBars (partition : Partition)
  deriving DecidableEq

def runOp (fs : Listing) (cfg : AggConfig) (symbol date : String) (w : World) :
    BarsOp → Option World
  | .build => (buildFor fs cfg symbol date w).map Prod.fst
  | .compactTrades partition => some (w.compactTrades partition)
  | .compactBars partition => some (w.compactBars partition)

def runOps (fs : Listing) (cfg : AggConfig) (symbol date : String) : List BarsOp → World →
    Option World
  | [], w => some w
  | op :: ops, w => (runOp fs cfg symbol date w op).bind (runOps fs cfg symbol date ops)

section Run

variable {fs : Listing} {cfg : AggConfig} {symbol date : String}

/-- What a stretch of the history adds to the rows of the bars tree. -/
structure Adds (symbol date : String) (ops : List BarsOp) (w w' : World) (rows : Multiset Bar) :
    Prop where
  timely : w'.Timely
  trades : w'.trades.located = w.trades.located
  bars : (w'.bars.allRows : Multiset Bar) = w.bars.allRows + rows
  none : BarsOp.build ∉ ops ∨ ¬ HasTrades w.trades symbol date → rows = 0
  some : BarsOp.build ∈ ops → ∀ venue t, (⟨"trades", symbol, venue, date⟩, t) ∈ w.trades.located →
    ∃ b ∈ rows, b.symbol = symbol ∧ b.venue = venue

lemma Adds.of_rearranged {op : BarsOp} (hop : op ≠ .build) {w w' : World}
    (h : World.Rearranged w w') : Adds symbol date [op] w w' 0 where
  timely := h.timely
  trades := h.trades
  bars := by rw [Store.coe_allRows, Store.coe_allRows, h.bars, add_zero]
  none := fun _ => rfl
  some := by
    intro hbuild
    exact absurd (List.mem_singleton.1 hbuild).symm hop

/-- An added row shows in a query of its own venue and second. -/
lemma length_getBars_lt_of_adds {ops : List BarsOp} {w w' : World} {rows : Multiset Bar}
    (h : Adds symbol date ops w w' rows) (engine : QueryEngine) {b : Bar} (hb : b ∈ rows)
    (hsymbol : b.symbol = symbol) :
    (getBars engine w.bars symbol b.tsNs (b.tsNs + 1) .oneSecond [b.venue] none).length <
      (getBars engine w'.bars symbol b.tsNs (b.tsNs + 1) .oneSecond [b.venue] none).length := by
  let seen : Bar → Bool := selects symbol [b.venue] b.tsNs (b.tsNs + 1) none
  -- The query sees the added row on top of what it saw before.
  have hpos : 0 < rows.countP fun c => seen c = true := by
    refine Multiset.countP_pos.2 ⟨b, hb, ?_⟩
    simp [seen, selects, hsymbol]
  rw [length_getBars_oneSecond, length_getBars_oneSecond, ← countP_allRows, ← countP_allRows,
    h.bars, Multiset.countP_add]
  exact Nat.lt_add_of_pos_right hpos

/-- One operation. -/
theorem runOp_adds (fs : Listing) (cfg : AggConfig) (symbol date : String) {w : World}
    (h : w.Timely) (op : BarsOp) :
    ∃ w' rows, runOp fs cfg symbol date w op = some w' ∧ Adds symbol date [op] w w' rows := by
  cases op with
  | compactTrades partition =>
      exact ⟨_, 0, rfl, Adds.of_rearranged (by simp) (h.compactTrades partition)⟩
  | compactBars partition =>
      exact ⟨_, 0, rfl, Adds.of_rearranged (by simp) (h.compactBars partition)⟩
  | build =>
      rcases buildFor_spec fs cfg symbol date h with
        ⟨w', report, rows, hrun, htimely, htrades, hrows, hbars⟩
      refine ⟨w', rows, by simp [runOp, hrun], ⟨htimely, by rw [htrades], ?_, ?_, ?_⟩⟩
      · rw [hrows, Multiset.coe_add]
      · intro hnone
        have hno : ¬ HasTrades w.trades symbol date := by
          rcases hnone with hnot | hno
          · exact absurd (List.mem_singleton.2 rfl) hnot
          · exact hno
        have hnil : rows = [] := by
          refine List.eq_nil_iff_forall_not_mem.2 ?_
          intro b hb
          rcases hbars.second b hb with ⟨e, he, _⟩
          exact hno (collectTrades_ne_nil_iff.1 (List.ne_nil_of_mem he))
        simp [hnil]
      · intro _ venue t ht
        have hne := List.ne_nil_of_mem (mem_dayRows_iff.2 ht)
        have hentry : (venue, dayRows w.trades symbol date venue) ∈
            (collectTrades fs w.trades symbol date).entries :=
          mem_collectTrades_iff.2 ⟨hne, rfl⟩
        rcases hbars.covers _ hentry with ⟨b, hb, hvenue⟩
        exact ⟨b, by simpa using hb, hbars.symbol b hb, hvenue⟩

/-- The whole history: it completes, and what it adds is what its operations add. -/
theorem runOps_adds (fs : Listing) (cfg : AggConfig) (symbol date : String) :
    ∀ (ops : List BarsOp) (w : World), w.Timely →
      ∃ w' rows, runOps fs cfg symbol date ops w = some w' ∧ Adds symbol date ops w w' rows
  | [], w, h => ⟨w, 0, rfl, ⟨h, rfl, by simp, fun _ => rfl, by simp⟩⟩
  | op :: ops, w, h => by
      rcases runOp_adds fs cfg symbol date h op with ⟨w₁, rows₁, hrun₁, hadds₁⟩
      rcases runOps_adds fs cfg symbol date ops w₁ hadds₁.timely with ⟨w₂, rows₂, hrun₂, hadds₂⟩
      have hsame : HasTrades w₁.trades symbol date ↔ HasTrades w.trades symbol date := by
        unfold HasTrades
        rw [hadds₁.trades]
      refine ⟨w₂, rows₁ + rows₂, by simp [runOps, hrun₁, hrun₂], ⟨hadds₂.timely, ?_, ?_, ?_, ?_⟩⟩
      · rw [hadds₂.trades, hadds₁.trades]
      · rw [hadds₂.bars, hadds₁.bars, add_assoc]
      · intro hnone
        -- Without a build in the whole history there is none in either part of it.
        have hfirst : rows₁ = 0 := by
          apply hadds₁.none
          rcases hnone with hnot | hno
          · refine Or.inl fun hmem => hnot ?_
            exact List.mem_cons.2 (Or.inl (List.mem_singleton.1 hmem))
          · exact Or.inr hno
        have hrest : rows₂ = 0 := by
          apply hadds₂.none
          rcases hnone with hnot | hno
          · exact Or.inl fun hmem => hnot (List.mem_cons_of_mem op hmem)
          · exact Or.inr fun hhas => hno (hsame.1 hhas)
        rw [hfirst, hrest, add_zero]
      · intro hbuild venue t ht
        rcases List.mem_cons.1 hbuild with heq | hin
        · rcases hadds₁.some (List.mem_singleton.2 heq) venue t ht with ⟨b, hb, hrest⟩
          exact ⟨b, Multiset.mem_add.2 (Or.inl hb), hrest⟩
        · rcases hadds₂.some hin venue t (by rw [hadds₁.trades]; exact ht) with ⟨b, hb, hrest⟩
          exact ⟨b, Multiset.mem_add.2 (Or.inr hb), hrest⟩

/-- The first build of a day leaves distinct slots. -/
lemma distinctRows_buildFor {w₀ w₁ : World} {report : BuildReport} (h : w₀.Timely)
    (hagg : ∀ t, (⟨"trades", symbol, "agg", date⟩, t) ∉ w₀.trades.located)
    (hdistinct : DistinctRows w₀.bars.allRows symbol)
    (hnew : ∀ b ∈ w₀.bars.allRows, b.symbol = symbol → ∀ venue t,
      (⟨"trades", symbol, venue, date⟩, t) ∈ w₀.trades.located → b.tsNs ≠ t.second)
    (hfirst : buildFor fs cfg symbol date w₀ = some (w₁, report)) :
    w₁.Timely ∧ w₁.trades = w₀.trades ∧ DistinctRows w₁.bars.allRows symbol := by
  rcases buildFor_spec fs cfg symbol date h with
    ⟨w', report', rows, hrun, htimely, htrades, hrows, hbars⟩
  have heq : w' = w₁ := congrArg Prod.fst (Option.some.inj (hrun.symm.trans hfirst))
  subst heq
  refine ⟨htimely, htrades, ?_⟩
  have hkey : "agg" ∉ (collectTrades fs w₀.trades symbol date).keys := by
    intro hmem
    rcases List.mem_map.1 hmem with ⟨e, he, hname⟩
    have hne := (mem_collectTrades_iff.1 he).1
    rw [hname] at hne
    rcases List.exists_mem_of_ne_nil _ hne with ⟨t, ht⟩
    exact hagg t (mem_dayRows_iff.1 ht)
  have hall : rows.filter (fun b => decide (b.symbol = symbol)) = rows :=
    List.filter_eq_self.2 fun b hb => by simpa using hbars.symbol b hb
  -- The old rows have distinct slots, the new ones too, and no old row is in a second of the day.
  unfold DistinctRows
  rw [hrows, List.filter_append, List.map_append, hall, List.nodup_append]
  refine ⟨hdistinct, hbars.distinct hkey, ?_⟩
  intro slot hslot slot' hslot' heq
  rcases List.mem_map.1 hslot with ⟨b, hb, rfl⟩
  rcases List.mem_map.1 hslot' with ⟨b', hb', rfl⟩
  have hold := List.mem_filter.1 hb
  rcases hbars.second b' hb' with ⟨e, he, t, ht, hts⟩
  rw [(mem_collectTrades_iff.1 he).2] at ht
  apply hnew b hold.1 (by simpa using hold.2) e.1 t (mem_dayRows_iff.1 ht)
  rw [← hts]
  exact congrArg Prod.snd heq

end Run

/-- When a query after the history still says what it said after the first build of the day. -/
theorem rebuild_idempotent_iff (fs : Listing) (engine : QueryEngine) (cfg : AggConfig)
    (symbol date : String) (w₀ w₁ w₂ : World) (report : BuildReport) (ops : List BarsOp)
    (htimely : w₀.Timely)
    (hagg : ∀ t, (⟨"trades", symbol, "agg", date⟩, t) ∉ w₀.trades.located)
    (hdistinct : DistinctRows w₀.bars.allRows symbol)
    (hnew : ∀ b ∈ w₀.bars.allRows, b.symbol = symbol → ∀ venue t,
      (⟨"trades", symbol, venue, date⟩, t) ∈ w₀.trades.located → b.tsNs ≠ t.second)
    (hfirst : buildFor fs cfg symbol date w₀ = some (w₁, report))
    (hrun : runOps fs cfg symbol date ops w₁ = some w₂) :
    (∀ (source : String) (startNs endNs : Int) (timeframe : Timeframe),
        (getBars engine w₂.bars symbol startNs endNs timeframe [source] none).map Bar.ohlcv =
          (getBars engine w₁.bars symbol startNs endNs timeframe [source] none).map Bar.ohlcv) ↔
      BarsOp.build ∉ ops ∨ ¬ HasTrades w₀.trades symbol date := by
  rcases distinctRows_buildFor htimely hagg hdistinct hnew hfirst with
    ⟨htimely₁, htrades₁, hdistinct₁⟩
  rcases runOps_adds fs cfg symbol date ops w₁ htimely₁ with ⟨w₂', rows, hrun', hadds⟩
  have heq : w₂' = w₂ := Option.some.inj (hrun'.symm.trans hrun)
  subst heq
  constructor
  · intro hsame
    by_contra hcond
    rw [not_or, not_not, not_not] at hcond
    rcases hcond with ⟨hbuild, venue, t, ht⟩
    rw [← htrades₁] at ht
    -- A later build adds a row for this venue; look at that row's own second.
    rcases hadds.some hbuild venue t ht with ⟨b, hb, hsymbol, _⟩
    have hlen := congrArg List.length (hsame b.venue b.tsNs (b.tsNs + 1) .oneSecond)
    rw [List.length_map, List.length_map] at hlen
    exact absurd hlen (length_getBars_lt_of_adds hadds engine hb hsymbol).ne'
  · intro hcond source startNs endNs timeframe
    have hzero : rows = 0 := by
      apply hadds.none
      unfold HasTrades at hcond ⊢
      rw [htrades₁]
      exact hcond
    have hperm : w₂'.bars.allRows.Perm w₁.bars.allRows := by
      have hbars := hadds.bars
      rw [hzero, add_zero] at hbars
      exact Multiset.coe_eq_coe.1 hbars
    rw [getBars_eq_of_perm hperm hdistinct₁]

/-! ## A day with one trade -/

/-- Directories in the order in which they were made. -/
def sampleListing : Listing where
  iterdir := id
  iterdir_perm := fun names => List.Perm.refl names

/-- One trade of three coins at 100, stored under its day. -/
def sampleWorld : World where
  clock := fun i => 1000 + i
  tick := 0
  trades := Dict.empty.set
    ⟨⟨"trades", "BTC-USD", "kraken", "1970-01-01"⟩, .part 0⟩
    [{ tsNs := 0, symbol := "BTC-USD", venue := some "kraken", price := 100, size := some 3 }]
  bars := Dict.empty
  corrections := []

lemma sampleWorld_timely : sampleWorld.Timely := by
  refine World.Timely.single ?_ (by decide) _
  intro i j hij
  simpa using hij

theorem rebuild_idempotent_iff_sample :
    ∃ w₁ report w₂,
      buildFor sampleListing {} "BTC-USD" "1970-01-01" sampleWorld = some (w₁, report) ∧
      runOps sampleListing {} "BTC-USD" "1970-01-01" [.build] w₁ = some w₂ ∧
      ((∀ (source : String) (startNs endNs : Int) (timeframe : Timeframe),
        (getBars sampleEngine w₂.bars "BTC-USD" startNs endNs timeframe [source] none).map
            Bar.ohlcv =
          (getBars sampleEngine w₁.bars "BTC-USD" startNs endNs timeframe [source] none).map
            Bar.ohlcv) ↔
        BarsOp.build ∉ [BarsOp.build] ∨
          ¬ HasTrades sampleWorld.trades "BTC-USD" "1970-01-01") := by
  rcases buildFor_spec sampleListing {} "BTC-USD" "1970-01-01" sampleWorld_timely with
    ⟨w₁, report, _, hfirst, htimely, _⟩
  rcases runOps_adds sampleListing {} "BTC-USD" "1970-01-01" [.build] w₁ htimely with
    ⟨w₂, _, hrun, _⟩
  refine ⟨w₁, report, w₂, hfirst, hrun, ?_⟩
  refine rebuild_idempotent_iff sampleListing sampleEngine {} "BTC-USD" "1970-01-01" sampleWorld w₁
    w₂ report [.build] sampleWorld_timely ?_ ?_ ?_ hfirst hrun
  · intro t ht
    rcases Store.mem_located_iff.1 ht with ⟨name, rows, hget, _⟩
    have hkey := Dict.mem_keys_iff.2 ⟨rows, hget⟩
    simp only [sampleWorld, Dict.mem_keys_set] at hkey
    rcases hkey with heq | hold
    · simp at heq
    · cases hold
  · exact List.nodup_nil
  · intro b hb
    cases hb

/-- Building the day twice doubles the volume of its minute. -/
theorem rebuild_doubles_volume :
    ((buildFor sampleListing {} "BTC-USD" "1970-01-01" sampleWorld).bind fun first =>
      (runOps sampleListing {} "BTC-USD" "1970-01-01" [.build] first.1).map fun w₂ =>
        let minute := Timeframe.windows 60000000000 (by decide)
        ((getBars sampleEngine first.1.bars "BTC-USD" 0 60000000000 minute ["agg"] none).map
            Bar.volume,
          (getBars sampleEngine w₂.bars "BTC-USD" 0 60000000000 minute ["agg"] none).map
            Bar.volume)) =
      some ([3], [6]) := by
  decide +kernel

end CryptoData
