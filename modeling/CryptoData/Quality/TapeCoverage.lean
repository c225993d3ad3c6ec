import CryptoData.Quality.Report
import CryptoData.Scripts.BuildRows

/-!
# TapeCoverage — what a freshly built tape scores

The builder consolidates the spot venues; the scorer compares the tape with every other series of
the day.  So a day whose tape is as complete as a build can make it is scored 100 exactly if the
other venues never trade in a second of their own (`complete_tape_iff`), or so rarely that the
rounding hides it.
-/

namespace CryptoData

open Foundation

/-- The seconds in which one of the venues has a raw trade. -/
def tradedSeconds (s : Store Trade) (symbol date : String) (venues : List String) : Finset Int :=
  (venues.flatMap fun v => (dayRows s symbol date v).map fun t => t.tsNs / nsPerSec).toFinset

lemma mem_tradedSeconds {s : Store Trade} {symbol date : String} {venues : List String}
    {sec : Int} : sec ∈ tradedSeconds s symbol date venues ↔
      ∃ v ∈ venues, ∃ t ∈ dayRows s symbol date v, t.tsNs / nsPerSec = sec := by
  simp [tradedSeconds]

lemma secondOf_div (tsNs : Int) : secondOf tsNs / nsPerSec = tsNs / nsPerSec := by
  have hne : nsPerSec ≠ 0 := by decide
  exact Int.mul_ediv_cancel _ hne

/-! ## The seconds of the series -/

section Series

variable {symbol date : String}

/-- The seconds of a venue's bars are those of its trades. -/
lemma venue_seconds (symbol venue : String) (nowNs : Int) {trades : List Trade}
    (hsorted : trades.Pairwise fun x y => x.tsNs ≤ y.tsNs) {sec : Int} :
    (∃ b ∈ barsFromTrades symbol venue nowNs trades, b.tsNs / nsPerSec = sec) ↔
      ∃ t ∈ trades, t.tsNs / nsPerSec = sec := by
  constructor
  · rintro ⟨b, hb, rfl⟩
    rcases (exists_mem_barsFromTrades_iff symbol venue nowNs hsorted).1 ⟨b, hb, rfl⟩ with
      ⟨t, ht, hts⟩
    refine ⟨t, ht, ?_⟩
    rw [← hts]
    exact (secondOf_div t.tsNs).symm
  · rintro ⟨t, ht, rfl⟩
    rcases (exists_mem_barsFromTrades_iff symbol venue nowNs hsorted).2 ⟨t, ht, rfl⟩ with
      ⟨b, hb, hts⟩
    refine ⟨b, hb, ?_⟩
    rw [hts]
    exact secondOf_div t.tsNs

/-- The seconds of the tape are those of the spot trades, if no gate turns one of them away. -/
lemma tape_seconds {cfg : AggConfig} {nowNs : Int} {perVenueTrades : Dict String (List Trade)}
    {tape : Tape} (htape : consolidate cfg symbol nowNs perVenueTrades = some tape)
    (hqty : ∀ v ∈ spotVenues, ∀ rows ∈ perVenueTrades.get? v, ∀ t ∈ rows, 0 < t.qty)
    (hlag : ∀ v ∈ spotVenues, ∀ rows ∈ perVenueTrades.get? v, ∀ t ∈ rows,
      ∀ lagNs ∈ staleLagNs (some cfg.staleRecvLagMs), t.recv - t.tsNs ≤ lagNs)
    (hK : 1 ≤ cfg.madK * madToSigma) (sec : Int) :
    (∃ b ∈ tape.aggBars, b.tsNs / nsPerSec = sec) ↔
      ∃ v ∈ spotVenues, ∃ rows ∈ perVenueTrades.get? v, ∃ t ∈ rows, t.tsNs / nsPerSec = sec := by
  rcases consolidate_spec cfg symbol nowNs perVenueTrades with ⟨tape', htape', hbars, _⟩
  have hsame : tape' = tape := Option.some.inj (htape'.symm.trans htape)
  subst hsame
  rw [hbars]
  constructor
  · rintro ⟨b, hb, rfl⟩
    rcases labels_of_mem_buildAggBars hb with ⟨_, _, t, ht, hts⟩
    rcases (mem_consolidated_iff htape).1 ht with ⟨v, hv, rows, hrows, hmem⟩
    refine ⟨v, hv, rows, hrows, t, hmem, ?_⟩
    rw [hts]
    exact (secondOf_div t.tsNs).symm
  · rintro ⟨v, hv, rows, hrows, t, ht, rfl⟩
    have hstream := (mem_consolidated_iff htape).2 ⟨v, hv, rows, hrows, ht⟩
    have hadmits : admits (tapeParams cfg symbol) t = true :=
      admits_eq_true List.not_mem_nil (hlag v hv rows hrows t ht) (hqty v hv rows hrows t ht)
    -- The filter keeps something of the second of `t`, so the second has a bar.
    have hkept : keptIn (tapeParams cfg symbol) tape'.consolidated t.second ≠ [] :=
      keptIn_ne_nil hK (mem_seconds_iff.2 ⟨t, hstream, hadmits, rfl⟩)
    rcases exists_bar_of_keptIn nowNs hkept with ⟨b, hb, hts⟩
    refine ⟨b, hb, ?_⟩
    rw [hts]
    exact secondOf_div t.tsNs

end Series

/-! ## The two selections of venues -/

/-- A day of raw trades of registered venues on which no spot trade is turned away for its size or
its lag. -/
structure CompleteDay (cfg : AggConfig) (s : Store Trade) (symbol date : String) : Prop where
  registered : ∀ v, dayRows s symbol date v ≠ [] → v ∈ allSources
  size : ∀ v ∈ spotVenues, ∀ t ∈ dayRows s symbol date v, 0 < t.qty
  lag : ∀ v ∈ spotVenues, ∀ t ∈ dayRows s symbol date v,
    ∀ lagNs ∈ staleLagNs (some cfg.staleRecvLagMs), t.recv - t.tsNs ≤ lagNs

/-- Which seconds the scorer finds: the tape has those of the spot venues, the other series those
of all venues. -/
structure BuiltSeconds (scan : Scan) (views : Views) (s : Store Trade) (symbol date : String) :
    Prop where
  tape : secondsOf (loadBars scan views symbol "agg" date) = tradedSeconds s symbol date spotVenues
  union : ∀ bars, unionSeconds (aggContext scan views symbol date bars).perVenueBars =
    tradedSeconds s symbol date allSources

section Built

variable {fs : Listing} {cfg : AggConfig} {symbol date : String} {w : World}

lemma mem_get?_collectTrades {s : Store Trade} {v : String} {rows : List Trade}
    (h : rows ∈ (collectTrades fs s symbol date).get? v) : rows = dayRows s symbol date v := by
  rw [get?_collectTrades] at h
  by_cases hne : dayRows s symbol date v ≠ []
  · rw [if_pos hne] at h
    exact (Option.some.inj h).symm
  · rw [if_neg hne] at h
    cases h

/-- Quantifying over the collected rows of a venue is quantifying over its rows of the day. -/
lemma exists_collected_iff (fs : Listing) {s : Store Trade} {v : String} {p : Trade → Prop} :
    (∃ rows ∈ (collectTrades fs s symbol date).get? v, ∃ t ∈ rows, p t) ↔
      ∃ t ∈ dayRows s symbol date v, p t := by
  constructor
  · rintro ⟨rows, hrows, t, ht, hp⟩
    rw [mem_get?_collectTrades hrows] at ht
    exact ⟨t, ht, hp⟩
  · rintro ⟨t, ht, hp⟩
    refine ⟨dayRows s symbol date v, ?_, t, ht, hp⟩
    rw [get?_collectTrades, if_pos (List.ne_nil_of_mem ht)]
    exact rfl

section Located

variable {agg : List Bar} {stamp : String → Int} {old : Multiset (Partition × Bar)}
  {bars : Store Bar}

/-- The seconds of the rows of a venue's directory, for the rows that a build adds to a tree
without rows of the day. -/
lemma seconds_of_located (hlocated : bars.located = barFiles symbol date "agg" agg +
      (((collectTrades fs w.trades symbol date).entries.map fun e => barFiles symbol date e.1
        (barsFromTrades symbol e.1 (stamp e.1) e.2)).sum + old))
    (hold : ∀ venue b, (barDir symbol date venue, b) ∉ old) {v : String} (hv : v ≠ "agg")
    {sec : Int} :
    (∃ b, (barDir symbol date v, b) ∈ bars.located ∧ b.tsNs / nsPerSec = sec) ↔
      ∃ t ∈ dayRows w.trades symbol date v, t.tsNs / nsPerSec = sec := by
  have hsorted : ∀ rows ∈ (collectTrades fs w.trades symbol date).get? v,
      rows.Pairwise fun x y => x.tsNs ≤ y.tsNs := by
    intro rows hrows
    rw [mem_get?_collectTrades hrows]
    exact dayRows_sorted
  rw [← exists_collected_iff fs]
  constructor
  · rintro ⟨b, hb, hsec⟩
    rcases (mem_located_iff hlocated v b).1 hb with ⟨hname, _⟩ | ⟨rows, hrows, hbar⟩ | hmem
    · exact absurd hname hv
    · exact ⟨rows, hrows, (venue_seconds symbol v (stamp v) (hsorted rows hrows)).1 ⟨b, hbar, hsec⟩⟩
    · exact absurd hmem (hold v b)
  · rintro ⟨rows, hrows, hsec⟩
    rcases (venue_seconds symbol v (stamp v) (hsorted rows hrows)).2 hsec with ⟨b, hb, hts⟩
    exact ⟨b, (mem_located_iff hlocated v b).2 (Or.inr (Or.inl ⟨rows, hrows, hb⟩)), hts⟩

end Located

/-- The build of a day without bars fills the series as the scorer will find them. -/
theorem buildFor_seconds (scan : Scan) (fs : Listing) (hw : w.Timely)
    (hnew : ∀ venue b, (barDir symbol date venue, b) ∉ w.bars.located)
    (hday : CompleteDay cfg w.trades symbol date) (hK : 1 ≤ cfg.madK * madToSigma) :
    ∃ w' report, buildFor fs cfg symbol date w = some (w', report) ∧
      ∀ quotes, BuiltSeconds scan ⟨w'.bars, w'.trades, quotes⟩ w.trades symbol date := by
  rcases buildFor_located fs cfg symbol date hw with
    ⟨w', report, tape, nowNs, stamp, hrun, htape, _, _, hlocated⟩
  have hagg : dayRows w.trades symbol date "agg" = [] := by
    by_contra hne
    exact absurd (hday.registered "agg" hne) (by decide)
  have htapeRows : ∀ b, (barDir symbol date "agg", b) ∈ w'.bars.located ↔ b ∈ tape.aggBars := by
    intro b
    rw [mem_located_iff hlocated, get?_collectTrades, hagg]
    simp [hnew]
  refine ⟨w', report, hrun, ?_⟩
  intro quotes
  refine ⟨?_, ?_⟩
  · ext sec
    have hsize : ∀ v ∈ spotVenues, ∀ rows ∈ (collectTrades fs w.trades symbol date).get? v,
        ∀ t ∈ rows, 0 < t.qty := by
      intro v hv rows hrows
      rw [mem_get?_collectTrades hrows]
      exact hday.size v hv
    have hlag : ∀ v ∈ spotVenues, ∀ rows ∈ (collectTrades fs w.trades symbol date).get? v,
        ∀ t ∈ rows, ∀ lagNs ∈ staleLagNs (some cfg.staleRecvLagMs), t.recv - t.tsNs ≤ lagNs := by
      intro v hv rows hrows
      rw [mem_get?_collectTrades hrows]
      exact hday.lag v hv
    have hseconds := tape_seconds htape hsize hlag hK sec
    simp only [exists_collected_iff] at hseconds
    rw [mem_secondsOf, mem_tradedSeconds, ← hseconds]
    refine exists_congr fun b => and_congr_left' ?_
    exact Scan.mem_slice.trans (htapeRows b)
  · intro bars
    ext sec
    rw [mem_unionSeconds, mem_tradedSeconds]
    constructor
    · rintro ⟨v, df, hdf, b, hb, hsec⟩
      rw [get?_aggContext] at hdf
      by_cases hv : v ∈ venuesFor w'.bars "bars_1s" symbol date ∧ v ≠ "agg"
      · rw [if_pos hv] at hdf
        cases hdf
        rcases (seconds_of_located hlocated hnew hv.2).1 ⟨b, Scan.mem_slice.1 hb, hsec⟩ with
          ⟨t, ht, hts⟩
        exact ⟨v, hday.registered v (List.ne_nil_of_mem ht), t, ht, hts⟩
      · rw [if_neg hv] at hdf
        cases hdf
    · rintro ⟨v, hv, t, ht, hsec⟩
      have hname : v ≠ "agg" := by
        rintro rfl
        exact absurd hv (by decide)
      rcases (seconds_of_located hlocated hnew hname).2 ⟨t, ht, hsec⟩ with ⟨b, hb, hts⟩
      have hin : v ∈ venuesFor w'.bars "bars_1s" symbol date := mem_venuesFor_iff.2 ⟨b, hb⟩
      refine ⟨v, loadBars scan ⟨w'.bars, w'.trades, quotes⟩ symbol v date, ?_, b,
        Scan.mem_slice.2 hb, hts⟩
      rw [get?_aggContext, if_pos ⟨hin, hname⟩]
      exact rfl

end Built

/-! ## The score -/

/-- After the build of a complete day, the base of the tape's card is 100 and every second of the
union is one of the spot trades and one of the tape exactly if no other venue trades in a second of
its own.  The base alone is 100 up to one such second in 20000. -/
theorem complete_tape_iff (scan : Scan) (fs : Listing) (cfg : AggConfig) (symbol date : String)
    (w : World) (hw : w.Timely) (hnew : ∀ venue b, (barDir symbol date venue, b) ∉ w.bars.located)
    (hday : CompleteDay cfg w.trades symbol date) (hK : 1 ≤ cfg.madK * madToSigma) :
    ∃ w' report, buildFor fs cfg symbol date w = some (w', report) ∧ ∀ quotes : Store Quote,
      let views : Views := ⟨w'.bars, w'.trades, quotes⟩
      let bars := loadBars scan views symbol "agg" date
      let union := unionSeconds (aggContext scan views symbol date bars).perVenueBars
      let spot := tradedSeconds w.trades symbol date spotVenues
      let all := tradedSeconds w.trades symbol date allSources
      (((∀ runChecks nowNs card, scoreDay scan runChecks views symbol "agg" date nowNs = some card →
            card.scoreBasePct = 100) ∧
          ∀ sec ∈ union, sec ∈ spot ∧ sec ∈ secondsOf bars) ↔ all ⊆ spot) ∧
        ∀ runChecks nowNs card, scoreDay scan runChecks views symbol "agg" date nowNs = some card →
          (card.scoreBasePct = 100 ↔ 20000 * (all \ spot).card ≤ all.card) := by
  rcases buildFor_seconds scan fs hw hnew hday hK with ⟨w', report, hrun, hseconds⟩
  refine ⟨w', report, hrun, ?_⟩
  intro quotes views bars union spot all
  have htape : secondsOf bars = spot := (hseconds quotes).tape
  have hunion : union = all := (hseconds quotes).union bars
  have hbase : ∀ runChecks nowNs card,
      scoreDay scan runChecks views symbol "agg" date nowNs = some card →
        (card.scoreBasePct = 100 ↔ 20000 * (all \ spot).card ≤ all.card) := by
    intro runChecks nowNs card hcard
    rw [(base_of_scoreDay hcard).2.2, base_eq_hundred_iff, ← htape, ← hunion]
  refine ⟨?_, hbase⟩
  constructor
  · rintro ⟨_, hcovered⟩ sec hsec
    rw [← hunion] at hsec
    exact (hcovered sec hsec).1
  · intro hsub
    refine ⟨?_, ?_⟩
    · intro runChecks nowNs card hcard
      have hnone : all \ spot = ∅ := Finset.sdiff_eq_empty_iff_subset.2 hsub
      refine (hbase runChecks nowNs card hcard).2 ?_
      rw [hnone, Finset.card_empty]
      exact Nat.zero_le _
    · intro sec hsec
      rw [hunion] at hsec
      rw [htape]
      exact ⟨hsub hsec, hsub hsec⟩

/-- One print of a spot venue. -/
def spotDay : Store Trade :=
  Dict.empty.set ⟨⟨"trades", "BTC-USDT", "binance", "1970-01-01"⟩, .part 0⟩
    [{ tsNs := 7, recvNs := some 8, symbol := "BTC-USDT", venue := some "binance", price := 100,
       size := some 1 }]

lemma spotDay_complete : CompleteDay {} spotDay "BTC-USDT" "1970-01-01" where
  registered := by
    have hdirs : ∀ v ∈ venueDirs spotDay "BTC-USDT", v ∈ allSources := by decide +kernel
    exact fun v hv => hdirs v (mem_venueDirs_of_dayRows hv)
  size := by decide +kernel
  lag := by decide +kernel

theorem complete_tape_iff_spotDay :
    ∃ w' report,
      buildFor Listing.plain {} "BTC-USDT" "1970-01-01" ⟨fun i => i, 1, spotDay, Dict.empty, []⟩ =
        some (w', report) ∧
      ∀ runChecks nowNs card,
        scoreDay Scan.plain runChecks ⟨w'.bars, w'.trades, Dict.empty⟩ "BTC-USDT" "agg"
          "1970-01-01" nowNs = some card → card.scoreBasePct = 100 := by
  have hw : (World.mk (fun i => i) 1 spotDay Dict.empty []).Timely := by
    refine ⟨fun i j hij => Int.ofNat_lt.2 hij, ?_, by simp [Dict.keys, Dict.empty], by simp⟩
    intro path hpath
    rcases Dict.mem_keys_set.1 hpath with rfl | hold
    · decide
    · cases hold
  have hnew : ∀ venue b, (barDir "BTC-USDT" "1970-01-01" venue, b) ∉
      Store.located (Dict.empty : Store Bar) := fun _ _ => Multiset.notMem_zero _
  have hK : 1 ≤ (5 : ℚ) * madToSigma := by decide +kernel
  rcases complete_tape_iff Scan.plain Listing.plain {} "BTC-USDT" "1970-01-01" _ hw hnew
    spotDay_complete hK with ⟨w', report, hrun, hscore⟩
  have hsub : tradedSeconds spotDay "BTC-USDT" "1970-01-01" allSources ⊆
      tradedSeconds spotDay "BTC-USDT" "1970-01-01" spotVenues := by decide +kernel
  exact ⟨w', report, hrun, ((hscore Dict.empty).1.2 hsub).1⟩

/-- A print of a spot venue, and one of a perpetual in the next second. -/
def mixedDay : Store Trade :=
  spotDay.set ⟨⟨"trades", "BTC-USDT", "bybit", "1970-01-01"⟩, .part 1⟩
    [{ tsNs := 1000000007, recvNs := some 1000000008, symbol := "BTC-USDT", venue := some "bybit",
       price := 100, size := some 1 }]

lemma mixedDay_complete : CompleteDay {} mixedDay "BTC-USDT" "1970-01-01" where
  registered := by
    have hdirs : ∀ v ∈ venueDirs mixedDay "BTC-USDT", v ∈ allSources := by decide +kernel
    exact fun v hv => hdirs v (mem_venueDirs_of_dayRows hv)
  size := by decide +kernel
  lag := by decide +kernel

/-- The second of the perpetual counts against the tape, which may not use its trade. -/
theorem perp_second_counts_against_tape :
    CompleteDay {} mixedDay "BTC-USDT" "1970-01-01" ∧
      dayRows mixedDay "BTC-USDT" "1970-01-01" "binance" ≠ [] ∧
      ∃ out,
        buildFor Listing.plain {} "BTC-USDT" "1970-01-01"
          ⟨fun i => i, 2, mixedDay, Dict.empty, []⟩ = some out ∧
        ∃ card, scoreDay Scan.plain (fun _ => some []) ⟨out.1.bars, out.1.trades, Dict.empty⟩
            "BTC-USDT" "agg" "1970-01-01" 9 = some card ∧
          card.unionSeconds = some 2 ∧ card.scoreBasePct = 50 ∧ card.grade = .d := by
  refine ⟨mixedDay_complete, by decide +kernel, ?_⟩
  have hcard : (buildFor Listing.plain {} "BTC-USDT" "1970-01-01"
      ⟨fun i => i, 2, mixedDay, Dict.empty, []⟩).bind (fun out =>
        (scoreDay Scan.plain (fun _ => some []) ⟨out.1.bars, out.1.trades, Dict.empty⟩
          "BTC-USDT" "agg" "1970-01-01" 9).map fun card =>
            (card.unionSeconds, card.scoreBasePct, card.grade)) =
      some (some 2, 50, .d) := by decide +kernel
  rcases Option.bind_eq_some_iff.1 hcard with ⟨out, hout, hscore⟩
  rcases Option.map_eq_some_iff.1 hscore with ⟨card, hcard', hfields⟩
  rcases Prod.mk.inj hfields with ⟨hunion, hrest⟩
  rcases Prod.mk.inj hrest with ⟨hbase, hgrade⟩
  exact ⟨out, hout, card, hcard', hunion, hbase, hgrade⟩

end CryptoData
