import CryptoData.Core.Consolidated.Breakdown
import CryptoData.Core.HealthWriter
import CryptoData.Scripts.BuildRows

/-!
# DownVenues — the tape and the health of its venues

`build_agg_bars` drops the venues it is told to, and `build_for` tells it none: it does not read
`venue_status`.  So a venue that is DOWN is kept out of the bars if it has no print that the gates
of the tape admit.  Where it has one, only the outlier filter can keep it out, which needs enough
venues to engage and, for the shipped multiplier, other prints in the majority
(`down_venues_excluded`).
-/

namespace CryptoData

open Foundation

/-- At some instant of the second, the latest row of the venue's trades says that they are down. -/
def DownDuring (status : StatusTable) (symbol venue : String) (sec : Int) : Prop :=
  ∃ t, sec ≤ t ∧ t < sec + nsPerSec ∧ DownAt status (venue, symbol, "trades") t

/-- The bar has neither the bit of the venue nor its volume. -/
structure WithoutVenue (kept : List Trade) (venue : String) (b : Bar) : Prop where
  mask : b.sourcesMask &&& (venueBitmaskIndex allSources).getD venue 0 = 0
  volume : b.volume = ((kept.filter fun t => decide (t.venueName ≠ venue)).map Trade.qty).sum

section Bars

variable {cfg : AggConfig} {symbol : String} {nowNs : Int} {consolidated : List Trade}

lemma withoutVenue_iff {b : Bar}
    (hb : b ∈ (buildAggBars (tapeParams cfg symbol) nowNs consolidated).1) (venue : String) :
    WithoutVenue (keptIn (tapeParams cfg symbol) consolidated b.tsNs) venue b ↔
      ∀ t ∈ keptIn (tapeParams cfg symbol) consolidated b.tsNs, t.venueName ≠ venue := by
  have hrolls := (rollsUp_of_mem hb).2
  have hindex : usedIndex (tapeParams cfg symbol) consolidated = venueBitmaskIndex allSources := rfl
  constructor
  · intro hwithout t ht hvenue
    -- What is left out of the volume is the size of `t` and more.
    have hvolume := hwithout.volume
    rw [hrolls.volume] at hvolume
    have hsplit := List.filter_append_perm (fun t : Trade => decide (t.venueName ≠ venue))
      (keptIn (tapeParams cfg symbol) consolidated b.tsNs)
    have hsum := (hsplit.map Trade.qty).sum_eq
    rw [List.map_append, List.sum_append, hvolume] at hsum
    have hzero : (((keptIn (tapeParams cfg symbol) consolidated b.tsNs).filter
        fun t => !decide (t.venueName ≠ venue)).map Trade.qty).sum = 0 := by linarith
    have hpos : 0 < (((keptIn (tapeParams cfg symbol) consolidated b.tsNs).filter
        fun t => !decide (t.venueName ≠ venue)).map Trade.qty).sum := by
      refine List.sum_pos _ ?_ ?_
      · intro q hq
        rcases List.mem_map.1 hq with ⟨u, hu, rfl⟩
        exact qty_pos_of_mem_keptIn (List.mem_filter.1 hu).1
      · have hmem : t ∈ (keptIn (tapeParams cfg symbol) consolidated b.tsNs).filter
            fun t => !decide (t.venueName ≠ venue) :=
          List.mem_filter.2 ⟨ht, by simp [hvenue]⟩
        exact fun hnil => List.ne_nil_of_mem hmem (List.map_eq_nil_iff.1 hnil)
    exact absurd hzero hpos.ne'
  · intro hnone
    refine ⟨?_, ?_⟩
    · rw [hrolls.sourcesMask, hindex]
      by_cases hin : venue ∈ allSources
      · refine (orMask_and_eq_zero_iff hin).2 ?_
        rw [mem_sortedSet]
        intro hmem
        rcases List.mem_map.1 hmem with ⟨t, ht, hvenue⟩
        exact hnone t ht hvenue
      · rw [venueBitmaskIndex_getD_of_not_mem hin, Nat.and_zero]
    · have hall : ((keptIn (tapeParams cfg symbol) consolidated b.tsNs).filter
          fun t => decide (t.venueName ≠ venue)) =
            keptIn (tapeParams cfg symbol) consolidated b.tsNs :=
        List.filter_eq_self.2 fun t ht => decide_eq_true (hnone t ht)
      rw [hall, hrolls.volume]

end Bars

/-- A spot trade of the day that the gates of the tape admit, in a second during which its venue is
DOWN. -/
def DownPrint (status : StatusTable) (cfg : AggConfig) (symbol : String)
    (day : Dict String (List Trade)) (t : Trade) : Prop :=
  (∃ v ∈ spotVenues, ∃ rows ∈ day.get? v, t ∈ rows) ∧ admits (tapeParams cfg symbol) t = true ∧
    DownDuring status symbol t.venueName t.second

/-- No bar has the bit or the volume of a venue that is DOWN during its second. -/
def KeepsOutDown (status : StatusTable) (cfg : AggConfig) (symbol : String) (tape : Tape) : Prop :=
  ∀ b ∈ tape.aggBars, ∀ venue, DownDuring status symbol venue b.tsNs →
    WithoutVenue (keptIn (tapeParams cfg symbol) tape.consolidated b.tsNs) venue b

section Tape

variable {cfg : AggConfig} {symbol : String} {nowNs : Int} {day : Dict String (List Trade)}
  {tape : Tape} {status : StatusTable}

/-- The prints of the tape are the spot trades of the day. -/
lemma downPrint_iff (htape : consolidate cfg symbol nowNs day = some tape) {t : Trade} :
    DownPrint status cfg symbol day t ↔
      t ∈ secondTrades (tapeParams cfg symbol) tape.consolidated t.second ∧
        DownDuring status symbol t.venueName t.second := by
  rw [DownPrint, ← mem_consolidated_iff htape, mem_secondTrades_iff]
  simp [and_assoc]

/-- The bars keep the DOWN venues out when no print of one survives the filter. -/
lemma keepsOutDown_iff (htape : consolidate cfg symbol nowNs day = some tape)
    (hbars : tape.aggBars = (buildAggBars (tapeParams cfg symbol) nowNs tape.consolidated).1) :
    KeepsOutDown status cfg symbol tape ↔
      ∀ t, DownPrint status cfg symbol day t →
        ∀ u ∈ keptIn (tapeParams cfg symbol) tape.consolidated t.second,
          u.venueName ≠ t.venueName := by
  constructor
  · intro hexcluded t ht u hu hvenue
    rcases exists_bar_of_keptIn nowNs (List.ne_nil_of_mem hu) with ⟨b, hb, hts⟩
    have hdown := ((downPrint_iff htape).1 ht).2
    have hwithout := hexcluded b (by rw [hbars]; exact hb) t.venueName (by rw [hts]; exact hdown)
    exact (withoutVenue_iff hb t.venueName).1 hwithout u (by rw [hts]; exact hu) hvenue
  · intro hcond b hb venue hdown
    rw [hbars] at hb
    refine (withoutVenue_iff hb venue).2 ?_
    rintro t ht rfl
    have hmem := mem_secondTrades_iff.1 (keptIn_sublist.subset ht)
    have hprint : DownPrint status cfg symbol day t := by
      refine (downPrint_iff htape).2 ⟨?_, ?_⟩
      · rw [hmem.2.2]
        exact keptIn_sublist.subset ht
      · rw [hmem.2.2]
        exact hdown
    exact hcond t hprint t (by rw [hmem.2.2]; exact ht) rfl

/-- What drops a print of a venue is the filter alone: it has to engage, and a multiplier of two or
more lets it drop less than half of the second. -/
lemma minority_of_not_kept {p : AggParams} {consolidated : List Trade} {t : Trade}
    (ht : t ∈ secondTrades p consolidated t.second)
    (hnone : ∀ u ∈ keptIn p consolidated t.second, u.venueName ≠ t.venueName) :
    Engages (secondTrades p consolidated t.second) p.minVenuesForFilter ∧
      (2 ≤ p.madK * madToSigma → Outprinted (secondTrades p consolidated t.second) t.venueName) := by
  have hengage : Engages (secondTrades p consolidated t.second) p.minVenuesForFilter := by
    by_contra hnot
    have hall : keptIn p consolidated t.second = secondTrades p consolidated t.second := by
      rw [keptIn, robustFilter_fst, if_neg hnot]
    exact hnone t (by rw [hall]; exact ht) rfl
  refine ⟨hengage, ?_⟩
  intro hK
  have hmajority : (secondTrades p consolidated t.second).length <
      2 * (keptIn p consolidated t.second).length :=
    length_lt_two_mul_kept (List.ne_nil_of_mem ht) hengage hK
  exact (outprinted_iff _ _).2
    (lt_of_lt_of_le hmajority (Nat.mul_le_mul_left 2 (length_le_countP_others hnone)))

end Tape

/-- A build never raises, and the agg bars that it adds keep out every venue that is DOWN during
their second if no print of such a venue is admitted; a print that is admitted stays out of its bar
only where the filter engages and, for a multiplier of two or more, the other venues outprint it. -/
theorem down_venues_excluded (p : HealthParams) (events : List WriterEvent) (fs : Listing)
    (cfg : AggConfig) (symbol date : String) (w : World) (hw : w.Timely) :
    ∃ w' report tape, ∃ nowNs : Int,
      buildFor fs cfg symbol date w = some (w', report) ∧
      consolidate cfg symbol nowNs (collectTrades fs w.trades symbol date) = some tape ∧
      ("agg" ∉ (collectTrades fs w.trades symbol date).keys →
        ∀ b, (barDir symbol date "agg", b) ∈ w'.bars.located ↔
          b ∈ tape.aggBars ∨ (barDir symbol date "agg", b) ∈ w.bars.located) ∧
      ((∀ t, ¬ DownPrint (HealthWriter.run p events).status cfg symbol
            (collectTrades fs w.trades symbol date) t) →
          KeepsOutDown (HealthWriter.run p events).status cfg symbol tape) ∧
      (KeepsOutDown (HealthWriter.run p events).status cfg symbol tape →
        ∀ t, DownPrint (HealthWriter.run p events).status cfg symbol
            (collectTrades fs w.trades symbol date) t →
          Engages (secondTrades (tapeParams cfg symbol) tape.consolidated t.second)
              cfg.minVenuesForFilter ∧
            (2 ≤ cfg.madK * madToSigma →
              Outprinted (secondTrades (tapeParams cfg symbol) tape.consolidated t.second)
                t.venueName)) := by
  rcases buildFor_located fs cfg symbol date hw with
    ⟨w', report, tape, nowNs, stamp, hrun, htape, _, _, hlocated⟩
  rcases consolidate_spec cfg symbol nowNs (collectTrades fs w.trades symbol date) with
    ⟨tape', htape', hbars, _⟩
  have hsame : tape' = tape := Option.some.inj (htape'.symm.trans htape)
  subst hsame
  refine ⟨w', report, tape', nowNs, hrun, htape, ?_, ?_, ?_⟩
  · intro hagg b
    rw [mem_located_iff hlocated, Dict.get?_eq_none_iff.2 hagg]
    simp
  · intro hnone
    exact (keepsOutDown_iff htape hbars).2 fun t ht => absurd ht (hnone t)
  · intro hexcluded t ht
    have hdropped := (keepsOutDown_iff htape hbars).1 hexcluded t ht
    exact minority_of_not_kept ((downPrint_iff htape).1 ht).1 hdropped

/-- The feed of okx is found DOWN at 1000 s and its last print is of 500 s, so the prints of the two
other venues at 1500 s make a bar without it. -/
theorem down_venues_excluded_sample :
    let status := (HealthWriter.run {} [.record ("okx", "BTC-USD", "trades") 0,
      .dump (fun _ => ⟨1000000000000, 1000000000000⟩) 1000000000000]).status
    let file (venue : String) (tsNs : Int) : PartPath × List Trade :=
      (⟨⟨"trades", "BTC-USD", venue, "1970-01-01"⟩, .part 0⟩,
        [{ tsNs := tsNs, venue := some venue, price := 100, size := some 1 }])
    let w : World := ⟨fun i => i, 1, ⟨[file "okx" 500000000000, file "kraken" 1500000000000,
      file "coinbase" 1500000000000], by decide⟩, Dict.empty, []⟩
    DownDuring status "BTC-USD" "okx" 1500000000000 ∧
      ∃ w' report tape, buildFor Listing.plain {} "BTC-USD" "1970-01-01" w = some (w', report) ∧
        (∃ b ∈ tape.aggBars, b.tsNs = 1500000000000) ∧
        KeepsOutDown status {} "BTC-USD" tape := by
  intro status file w
  have hstatus : status.entries = [((1000000000000, ("okx", "BTC-USD", "trades")),
      ⟨false, some 0, none⟩)] := by decide +kernel
  have hrow : ∀ ts key row, status.get? (ts, key) = some row →
      ts = 1000000000000 ∧ key = ("okx", "BTC-USD", "trades") ∧ row.up = false := by
    intro ts key row hget
    have hmem := Dict.get?_eq_some_iff.1 hget
    rw [hstatus, List.mem_singleton, Prod.mk.injEq, Prod.mk.injEq] at hmem
    rcases hmem with ⟨⟨rfl, rfl⟩, rfl⟩
    exact ⟨rfl, rfl, rfl⟩
  have hday : (collectTrades Listing.plain w.trades "BTC-USD" "1970-01-01").entries =
      ["okx", "kraken", "coinbase"].map fun venue => (venue,
        [{ tsNs := if venue = "okx" then 500000000000 else 1500000000000, venue := some venue,
           price := 100, size := some 1 }]) := by decide +kernel
  have hw : w.Timely := ⟨fun i j hij => Int.ofNat_lt.2 hij, by decide, by decide, by decide⟩
  -- The only row is the one of okx at 1000 s, and its print is older.
  have hnone : ∀ t, ¬ DownPrint status {} "BTC-USD"
      (collectTrades Listing.plain w.trades "BTC-USD" "1970-01-01") t := by
    rintro t ⟨⟨v, _, rows, hrows, ht⟩, _, instant, _, hbefore, ts, row, hget, hts, _⟩
    have hmem := Dict.get?_eq_some_iff.1 hrows
    rw [hday] at hmem
    have hfound := hrow ts _ row hget
    rcases List.mem_map.1 hmem with ⟨venue, hvenue, heq⟩
    rcases Prod.mk.inj heq with ⟨rfl, rfl⟩
    rw [List.mem_singleton] at ht
    subst ht
    have hokx : venue = "okx" := congrArg Prod.fst hfound.2.1
    subst hokx
    have hsecond : (500000000000 : Int) + nsPerSec < 1000000000000 := by decide
    have hown : instant < 500000000000 + nsPerSec := hbefore
    omega
  rcases down_venues_excluded {} [.record ("okx", "BTC-USD", "trades") 0,
      .dump (fun _ => ⟨1000000000000, 1000000000000⟩) 1000000000000] Listing.plain {} "BTC-USD"
    "1970-01-01" w hw with ⟨w', report, tape, nowNs, hrun, htape, _, hkeeps, _⟩
  refine ⟨⟨1500000000000, le_refl _, by decide, 1000000000000, ⟨false, some 0, none⟩, ?_, by decide,
    rfl, ?_⟩, w', report, tape, hrun, ?_, hkeeps hnone⟩
  · refine Dict.get?_eq_some_iff.2 ?_
    rw [hstatus]
    exact List.mem_singleton.2 rfl
  · intro ts row hget _
    exact (hrow ts _ row hget).1.le
  · -- A second with a print has a bar.
    rcases consolidate_spec {} "BTC-USD" nowNs
      (collectTrades Listing.plain w.trades "BTC-USD" "1970-01-01") with ⟨tape', htape', hbars, _⟩
    have hsame : tape' = tape := Option.some.inj (htape'.symm.trans htape)
    subst hsame
    let print : Trade :=
      { tsNs := 1500000000000, venue := some "kraken", price := 100, size := some 1 }
    have hprint : print ∈ tape'.consolidated := by
      refine (mem_consolidated_iff htape).2 ⟨"kraken", by decide, [print], ?_, by simp⟩
      refine Dict.get?_eq_some_iff.2 ?_
      rw [hday]
      exact List.mem_map.2 ⟨"kraken", by decide, rfl⟩
    have hsecond : (1500000000000 : Int) ∈ seconds (tapeParams {} "BTC-USD") tape'.consolidated :=
      mem_seconds_iff.2 ⟨print, hprint, by decide +kernel, by decide⟩
    rw [hbars]
    exact exists_bar_of_keptIn nowNs (keptIn_ne_nil (by decide +kernel) hsecond)

/-- One message of okx at 0 s, the stream found DOWN at 1000 s, and a print at 1500 s on the raw
tape: the bar of that second has the bit of okx. -/
theorem down_venue_on_tape :
    let status := (HealthWriter.run {} [.record ("okx", "BTC-USD", "trades") 0,
      .dump (fun _ => ⟨1000000000000, 1000000000000⟩) 1000000000000]).status
    let print : Trade :=
      { tsNs := 1500000000000, venue := some "okx", price := 100, size := some 1 }
    let w : World := ⟨fun i => i, 1, Dict.empty.set
      ⟨⟨"trades", "BTC-USD", "okx", "1970-01-01"⟩, .part 0⟩ [print], Dict.empty, []⟩
    DownDuring status "BTC-USD" "okx" 1500000000000 ∧
      ∃ out, buildFor Listing.plain {} "BTC-USD" "1970-01-01" w = some out ∧
        ∃ b ∈ out.1.bars.allRows, b.venue = "agg" ∧ b.tsNs = 1500000000000 ∧
          b.sourcesMask &&& (venueBitmaskIndex allSources).getD "okx" 0 ≠ 0 := by
  intro status print w
  constructor
  · refine ⟨1500000000000, le_refl _, by decide, ?_⟩
    have hreport : ((HealthWriter.run {} [.record ("okx", "BTC-USD", "trades") 0]).tracker.evaluate
        {} fun _ => ⟨1000000000000, 1000000000000⟩).2.get? ("okx", "BTC-USD", "trades") =
          some ⟨0, double (1 / 3600), false⟩ := by decide +kernel
    have hround : (1000000000000 : Int) ≤ 1500000000000 := by decide
    refine (downAt_dump_iff hround ?_ hreport).2 rfl
    intro ts row hrow
    cases hrow
  · have hmasks : (buildFor Listing.plain {} "BTC-USD" "1970-01-01" w).map
        (fun out => out.1.bars.allRows.map fun b => (b.venue, b.tsNs,
          b.sourcesMask &&& (venueBitmaskIndex allSources).getD "okx" 0)) =
        some [("okx", 1500000000000, 0), ("agg", 1500000000000, 256)] := by decide +kernel
    rcases Option.map_eq_some_iff.1 hmasks with ⟨out, hout, hbars⟩
    have hagg : ("agg", (1500000000000 : Int), 256) ∈ out.1.bars.allRows.map fun b =>
        (b.venue, b.tsNs, b.sourcesMask &&& (venueBitmaskIndex allSources).getD "okx" 0) := by
      rw [hbars]
      exact List.mem_cons_of_mem _ List.mem_cons_self
    rcases List.mem_map.1 hagg with ⟨b, hb, hrow⟩
    rcases Prod.mk.inj hrow with ⟨hvenue, hrest⟩
    rcases Prod.mk.inj hrest with ⟨hts, hbit⟩
    refine ⟨out, hout, b, hb, hvenue, hts, ?_⟩
    rw [hbit]
    decide

end CryptoData
