import CryptoData.Core.Rollup

/-!
# Provenance — which venues a resampled mask names

The mask of a one-second bar of the tape is the union of the bits of the venues that survive in its
second.  Over a window `_AGG` takes the maximum of the masks, and the maximum of two unions is one
of them.  So the mask of a window decodes to the contributing venues exactly if one second of the
window has them all (`mask_decodes_iff`); for windows of one second that is always so.
-/

namespace CryptoData

open Foundation

/-! ## What the mask should say -/

/-- The settings with the bit index of a set of venues. -/
def AggParams.indexed (p : AggParams) (venues : List String) : AggParams :=
  { p with venuesIndex := some (venueBitmaskIndex venues) }

/-- A surviving trade of the venue lies in `[label, label + widthNs)`. -/
def Contributes (p : AggParams) (consolidated : List Trade) (widthNs : ℕ) (label : Int)
    (venue : String) : Prop :=
  ∃ t ∈ survivors p consolidated, t.venueName = venue ∧ label ≤ t.tsNs ∧ t.tsNs < label + widthNs

/-- The mask has the bit of a venue exactly if the venue contributes to the window. -/
def MaskDecodes (venues : List String) (p : AggParams) (consolidated : List Trade) (widthNs : ℕ)
    (c : Bar) : Prop :=
  ∀ v ∈ venues, c.sourcesMask &&& (venueBitmaskIndex venues).getD v 0 ≠ 0 ↔
    Contributes p consolidated widthNs c.tsNs v

/-- In one second of the window every contributing venue has a surviving trade. -/
def Concentrated (p : AggParams) (consolidated : List Trade) (widthNs : ℕ) (label : Int) : Prop :=
  ∃ sec, label ≤ sec ∧ sec < label + widthNs ∧
    ∀ v, Contributes p consolidated widthNs label v →
      ∃ t ∈ survivors p consolidated, t.venueName = v ∧ t.second = sec

/-! ## Masks of the seconds -/

section Masks

variable {venues : List String} {p : AggParams} {nowNs : Int} {consolidated : List Trade}

/-- The venues that survive in a second. -/
def venuesIn (p : AggParams) (consolidated : List Trade) (sec : Int) : List String :=
  (keptIn p consolidated sec).map Trade.venueName

lemma mem_venuesIn_iff {sec : Int} {v : String} :
    v ∈ venuesIn p consolidated sec ↔
      ∃ t ∈ survivors p consolidated, t.venueName = v ∧ t.second = sec := by
  rw [venuesIn, List.mem_map, ← filter_survivors]
  constructor
  · rintro ⟨t, ht, hv⟩
    have hmem := List.mem_filter.1 ht
    exact ⟨t, hmem.1, hv, of_decide_eq_true hmem.2⟩
  · rintro ⟨t, ht, hv, hsec⟩
    exact ⟨t, List.mem_filter.2 ⟨ht, decide_eq_true hsec⟩, hv⟩

lemma sourcesMask_eq {b : Bar} (hb : b ∈ (buildAggBars (p.indexed venues) nowNs consolidated).1) :
    b.sourcesMask = orMask (venueBitmaskIndex venues)
      (venuesIn (p.indexed venues) consolidated b.tsNs) := by
  rw [(rollsUp_of_mem hb).2.sourcesMask]
  exact orMask_eq_of_mem_iff _ fun v => mem_sortedSet

end Masks

/-! ## Masks of the windows -/

section Windows

variable {bars : List Bar}

/-- The mask of a window is that of one of its bars, and the greatest. -/
lemma mask_resampleBars (hincreasing : (bars.map Bar.tsNs).Pairwise (· < ·))
    (hgrid : ∀ b ∈ bars, secondOf b.tsNs = b.tsNs) (timeframe : Timeframe) {c : Bar}
    (hc : c ∈ resampleBars bars timeframe) :
    (∃ b ∈ bars, windowLabel timeframe.widthNs b.tsNs = c.tsNs ∧ c.sourcesMask = b.sourcesMask) ∧
      ∀ b ∈ bars, windowLabel timeframe.widthNs b.tsNs = c.tsNs →
        b.sourcesMask ≤ c.sourcesMask := by
  cases timeframe with
  | oneSecond =>
      -- The bars themselves, one for each second.
      have hc' : c ∈ bars := hc
      refine ⟨⟨c, hc', hgrid c hc', rfl⟩, ?_⟩
      intro b hb hlabel
      have hts : b.tsNs = c.tsNs := (hgrid b hb).symm.trans hlabel
      have hinj := List.inj_on_of_nodup_map (hincreasing.imp fun hlt => hlt.ne) hb hc' hts
      rw [hinj]
  | windows widthNs pos =>
      simp only [resampleBars, getD_bucket] at hc
      rcases List.mem_filterMap.1 hc with ⟨label, _, hroll⟩
      have hmem : ∀ b, b ∈ bars.filter (fun b => decide (windowLabel widthNs b.tsNs = label)) ↔
          b ∈ bars ∧ windowLabel widthNs b.tsNs = label := by
        intro b
        rw [List.mem_filter, decide_eq_true_iff]
      cases hgroup : bars.filter fun b => decide (windowLabel widthNs b.tsNs = label) with
      | nil =>
          rw [hgroup] at hroll
          cases hroll
      | cons first rest =>
          rw [hgroup] at hroll hmem
          have hc' := Option.some.inj hroll
          have hlabel : c.tsNs = label := by rw [← hc']
          have hmask : c.sourcesMask =
              ((first :: rest).map Bar.sourcesMask).max (by simp) := by rw [← hc']
          rw [hlabel, hmask]
          constructor
          · have hne : (first :: rest).map Bar.sourcesMask ≠ [] := by simp
            rcases exists_max_map Bar.sourcesMask hne with ⟨b, hb, hmax⟩
            exact ⟨b, ((hmem b).1 hb).1, ((hmem b).1 hb).2, hmax⟩
          · intro b hb hbl
            exact List.le_max_of_mem
              (List.mem_map_of_mem (f := Bar.sourcesMask) ((hmem b).2 ⟨hb, hbl⟩))

end Windows

section Decode

variable {venues : List String} {p : AggParams} {nowNs : Int} {consolidated : List Trade}

lemma mem_of_mem_venuesIn (hvenues : ∀ t ∈ consolidated, t.venueName ∈ venues) {sec : Int}
    {v : String} (hv : v ∈ venuesIn p consolidated sec) : v ∈ venues := by
  rcases mem_venuesIn_iff.1 hv with ⟨t, ht, rfl, _⟩
  exact hvenues t (List.mem_filter.1 ht).1

/-- A window of whole seconds holds the trades of its seconds. -/
lemma contributes_iff {widthNs T : ℕ} (hpos : 0 < widthNs) (hT : widthNs = T * 1000000000)
    {label b : Int} (hlabel : windowLabel widthNs b = label) (v : String) :
    Contributes p consolidated widthNs label v ↔
      ∃ sec, label ≤ sec ∧ sec < label + widthNs ∧ v ∈ venuesIn p consolidated sec := by
  have hinWindow : ∀ ts, windowLabel widthNs ts = label ↔ label ≤ ts ∧ ts < label + widthNs :=
    fun ts => windowLabel_eq_label_iff hpos hlabel
  constructor
  · rintro ⟨t, ht, hv, hin⟩
    have hsec := (hinWindow t.second).1
      ((windowLabel_secondOf hT t.tsNs).trans ((hinWindow t.tsNs).2 hin))
    exact ⟨t.second, hsec.1, hsec.2, mem_venuesIn_iff.2 ⟨t, ht, hv, rfl⟩⟩
  · rintro ⟨sec, hle, hlt, hv⟩
    rcases mem_venuesIn_iff.1 hv with ⟨t, ht, hv', rfl⟩
    have hin := (hinWindow t.tsNs).1
      ((windowLabel_secondOf hT t.tsNs).symm.trans ((hinWindow t.second).2 ⟨hle, hlt⟩))
    exact ⟨t, ht, hv', hin⟩

/-- The mask of a second decodes to the window exactly if all contributing venues survive in it. -/
lemma maskDecodes_iff_of_mask {widthNs : ℕ} {sec : Int} {c : Bar}
    (hmask : c.sourcesMask = orMask (venueBitmaskIndex venues) (venuesIn p consolidated sec)) :
    MaskDecodes venues p consolidated widthNs c ↔
      ∀ v ∈ venues, v ∈ venuesIn p consolidated sec ↔
        Contributes p consolidated widthNs c.tsNs v := by
  refine forall₂_congr fun v hv => ?_
  rw [hmask, Ne, orMask_and_eq_zero_iff hv, not_not]

/-- The bars of the tape lie on whole seconds. -/
lemma secondOf_tsNs_of_mem {b : Bar} (hb : b ∈ (buildAggBars p nowNs consolidated).1) :
    secondOf b.tsNs = b.tsNs := by
  rcases (secondBars_buildAggBars p nowNs consolidated).label hb with ⟨t, _, hsec⟩
  rw [← hsec]
  have hone : 1000000000 = 1 * 1000000000 := rfl
  exact windowLabel_secondOf hone t.tsNs

/-- A second of the window with all the venues of the bar that the mask is from has that mask. -/
lemma mask_eq_of_subset {widthNs : ℕ} {c b₀ : Bar} {sec : Int}
    (hmax : ∀ b ∈ (buildAggBars (p.indexed venues) nowNs consolidated).1,
      windowLabel widthNs b.tsNs = c.tsNs → b.sourcesMask ≤ c.sourcesMask)
    (hb₀ : b₀ ∈ (buildAggBars (p.indexed venues) nowNs consolidated).1)
    (hmask : c.sourcesMask = b₀.sourcesMask) (hsec : windowLabel widthNs sec = c.tsNs)
    (hsub : ∀ v ∈ venuesIn (p.indexed venues) consolidated b₀.tsNs,
      v ∈ venuesIn (p.indexed venues) consolidated sec) :
    c.sourcesMask = orMask (venueBitmaskIndex venues)
      (venuesIn (p.indexed venues) consolidated sec) := by
  -- The bar `b₀` has a surviving trade, so the second has one, and a bar.
  rcases List.exists_mem_of_ne_nil _ (rollsUp_of_mem hb₀).1 with ⟨t₀, ht₀⟩
  have hne : keptIn (p.indexed venues) consolidated sec ≠ [] := by
    have hmem := hsub _ (List.mem_map_of_mem (f := Trade.venueName) ht₀)
    rcases List.mem_map.1 hmem with ⟨t, ht, _⟩
    exact List.ne_nil_of_mem ht
  rcases exists_bar_of_keptIn nowNs hne with ⟨b, hb, hts⟩
  have hle : b₀.sourcesMask ≤ b.sourcesMask := by
    rw [sourcesMask_eq hb₀, sourcesMask_eq hb, hts]
    exact orMask_le_of_subset _ hsub
  have hge : b.sourcesMask ≤ c.sourcesMask := hmax b hb (hts ▸ hsec)
  rw [← hts, ← sourcesMask_eq hb]
  exact le_antisymm (hmask.le.trans hle) hge

end Decode

/-- At a timeframe of whole seconds, the mask of a resampled bar of the tape decodes to the venues
that contribute to its window exactly if one second of the window has a surviving trade of each. -/
theorem mask_decodes_iff (venues : List String) (p : AggParams) (nowNs : Int)
    (consolidated : List Trade) (hvenues : ∀ t ∈ consolidated, t.venueName ∈ venues)
    (timeframe : Timeframe) (T : ℕ) (hT : timeframe.widthNs = T * 1000000000) :
    ∀ c ∈ resampleBars (buildAggBars (p.indexed venues) nowNs consolidated).1 timeframe,
      MaskDecodes venues (p.indexed venues) consolidated timeframe.widthNs c ↔
        Concentrated (p.indexed venues) consolidated timeframe.widthNs c.tsNs := by
  intro c hc
  have hbars := secondBars_buildAggBars (p.indexed venues) nowNs consolidated
  have hpos := timeframe.widthNs_pos
  rcases mask_resampleBars hbars.increasing (fun _ => secondOf_tsNs_of_mem) timeframe hc with
    ⟨⟨b₀, hb₀, hlabel₀, hmask⟩, hmax⟩
  have hcontributes : ∀ v, Contributes (p.indexed venues) consolidated timeframe.widthNs c.tsNs v ↔
      ∃ sec, c.tsNs ≤ sec ∧ sec < c.tsNs + timeframe.widthNs ∧
        v ∈ venuesIn (p.indexed venues) consolidated sec := contributes_iff hpos hT hlabel₀
  have hin₀ := (windowLabel_eq_label_iff hpos hlabel₀).1 hlabel₀
  constructor
  · -- The mask is that of one second, which then has every contributing venue.
    intro hdecodes
    have hown := (maskDecodes_iff_of_mask (hmask.trans (sourcesMask_eq hb₀))).1 hdecodes
    refine ⟨b₀.tsNs, hin₀.1, hin₀.2, ?_⟩
    intro v hv
    rcases (hcontributes v).1 hv with ⟨sec, _, _, hsec⟩
    exact mem_venuesIn_iff.1 ((hown v (mem_of_mem_venuesIn hvenues hsec)).2 hv)
  · rintro ⟨sec, hle, hlt, hall⟩
    -- The mask of that second is the greatest, so it is the mask of the window.
    have hsub : ∀ w ∈ venuesIn (p.indexed venues) consolidated b₀.tsNs,
        w ∈ venuesIn (p.indexed venues) consolidated sec := by
      intro w hw
      exact mem_venuesIn_iff.2 (hall w ((hcontributes w).2 ⟨b₀.tsNs, hin₀.1, hin₀.2, hw⟩))
    have hlabel := (windowLabel_eq_label_iff hpos hlabel₀).2 ⟨hle, hlt⟩
    have hsame := mask_eq_of_subset hmax hb₀ hmask hlabel hsub
    refine (maskDecodes_iff_of_mask hsame).2 ?_
    intro v _
    constructor
    · intro hmem
      exact (hcontributes v).2 ⟨sec, hle, hlt, hmem⟩
    · intro hcontrib
      exact mem_venuesIn_iff.2 (hall v hcontrib)

/-- Two venues in one second of a minute: the mask names both. -/
theorem mask_decodes_minute :
    let trades : List Trade := [{ tsNs := 0, venue := some "okx", price := 100, size := some 1 },
      { tsNs := 0, venue := some "kraken", price := 100, size := some 1 }]
    let p : AggParams := ({ symbol := "BTC-USD" } : AggParams).indexed ["kraken", "okx"]
    ∃ c ∈ resampleBars (buildAggBars p 0 trades).1 (.windows 60000000000 (by decide)),
      c.sourcesMask = 3 ∧ MaskDecodes ["kraken", "okx"] p trades 60000000000 c := by
  intro trades p
  have hrun : (resampleBars (buildAggBars p 0 trades).1
      (.windows 60000000000 (by decide))).map (fun c => (c.tsNs, c.sourcesMask)) = [(0, 3)] := by
    decide +kernel
  have hhead : (0, 3) ∈ (resampleBars (buildAggBars p 0 trades).1
      (.windows 60000000000 (by decide))).map fun c => (c.tsNs, c.sourcesMask) := by
    rw [hrun]
    exact List.mem_cons_self
  rcases List.mem_map.1 hhead with ⟨c, hc, hpair⟩
  have hts : c.tsNs = 0 := congrArg Prod.fst hpair
  have hseconds : ∀ t ∈ survivors p trades, t.second = 0 := by decide +kernel
  refine ⟨c, hc, congrArg Prod.snd hpair, ?_⟩
  refine (mask_decodes_iff ["kraken", "okx"] { symbol := "BTC-USD" } 0 trades (by decide)
    (.windows 60000000000 (by decide)) 60 rfl c hc).2 ?_
  rw [hts]
  refine ⟨0, by decide, by decide, ?_⟩
  rintro v ⟨t, ht, hv, _⟩
  exact ⟨t, ht, hv, hseconds t ht⟩

/-- Two venues in two seconds of one minute: the mask names the one with the greater bit. -/
theorem mask_drops_venue :
    let trades : List Trade := [{ tsNs := 0, venue := some "okx", price := 100, size := some 1 },
      { tsNs := 1000000000, venue := some "kraken", price := 100, size := some 1 }]
    let p : AggParams := ({ symbol := "BTC-USD" } : AggParams).indexed ["kraken", "okx"]
    ∃ c ∈ resampleBars (buildAggBars p 0 trades).1 (.windows 60000000000 (by decide)),
      c.tsNs = 0 ∧ c.sourcesMask = 2 ∧ (venueBitmaskIndex ["kraken", "okx"]).getD "kraken" 0 = 1 ∧
        Contributes p trades 60000000000 0 "kraken" ∧
        ¬ MaskDecodes ["kraken", "okx"] p trades 60000000000 c := by
  intro trades p
  have hrun : (resampleBars (buildAggBars p 0 trades).1
      (.windows 60000000000 (by decide))).map (fun c => (c.tsNs, c.sourcesMask)) = [(0, 2)] := by
    decide +kernel
  have hhead : (0, 2) ∈ (resampleBars (buildAggBars p 0 trades).1
      (.windows 60000000000 (by decide))).map fun c => (c.tsNs, c.sourcesMask) := by
    rw [hrun]
    exact List.mem_cons_self
  rcases List.mem_map.1 hhead with ⟨c, hc, hpair⟩
  have hts : c.tsNs = 0 := congrArg Prod.fst hpair
  have hmask : c.sourcesMask = 2 := congrArg Prod.snd hpair
  have hcontributes : Contributes p trades 60000000000 0 "kraken" := by
    refine ⟨{ tsNs := 1000000000, venue := some "kraken", price := 100, size := some 1 }, ?_, rfl,
      by decide, by decide⟩
    decide +kernel
  refine ⟨c, hc, hts, hmask, by decide +kernel, hcontributes, ?_⟩
  intro hdecodes
  have hbit := (hdecodes "kraken" (by decide)).2 (by rw [hts]; exact hcontributes)
  rw [hmask] at hbit
  exact hbit (by decide +kernel)

end CryptoData
