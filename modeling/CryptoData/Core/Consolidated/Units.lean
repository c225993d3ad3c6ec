import CryptoData.Core.Consolidated.Build

/-!
# Units — the tape does not depend on the unit of price

Multiplying every price by `c > 0` multiplies the median, the deviations and the threshold of a
second by `c`, so the same prints survive (`keptIn_scaled`).  Only the floor of the degenerate
branch has a unit of its own: `1e-12` is above a thousandth of the median if the median is below
`1e-9`.

Where the medians stay above that, the bars of the scaled stream are the scaled bars
(`buildAggBars_scaled`).
-/

namespace CryptoData

open Foundation

/-! ## Scaled prices -/

def Trade.scaled (c : ℚ) (t : Trade) : Trade :=
  { t with price := c * t.price }

/-- The bar in another unit of price. -/
def Bar.scaled (c : ℚ) (b : Bar) : Bar :=
  { b with
    «open» := c * b.open
    high := c * b.high
    low := c * b.low
    close := c * b.close
    vwap := c * b.vwap }

def Diag.scaled (c : ℚ) (d : Diag) : Diag :=
  { d with medianPx := d.medianPx.map (c * ·) }

/-- The median price from which the relative guard is above its floor. -/
def unitFloor : ℚ := 1 / 1000000000

/-- The median prices of the trades that the loop admits are not below the floor, in any second. -/
def MediansAboveFloor (p : AggParams) (xs : List Trade) : Prop :=
  ∀ sec ∈ seconds p xs, unitFloor ≤ median ((secondTrades p xs sec).map Trade.price)

instance (p : AggParams) (xs : List Trade) : Decidable (MediansAboveFloor p xs) :=
  inferInstanceAs (Decidable (∀ _ ∈ _, _))

lemma map_price_scaled (c : ℚ) (trades : List Trade) :
    (trades.map (Trade.scaled c)).map Trade.price = (trades.map Trade.price).map (c * ·) := by
  rw [List.map_map, List.map_map]
  rfl

lemma map_qty_scaled (c : ℚ) (trades : List Trade) :
    (trades.map (Trade.scaled c)).map Trade.qty = trades.map Trade.qty :=
  List.map_map

lemma map_venueName_scaled (c : ℚ) (trades : List Trade) :
    (trades.map (Trade.scaled c)).map Trade.venueName = trades.map Trade.venueName :=
  List.map_map

lemma map_venue_scaled (c : ℚ) (trades : List Trade) :
    (trades.map (Trade.scaled c)).map Trade.venue = trades.map Trade.venue :=
  List.map_map

/-! ## The filter -/

section Filter

variable {c : ℚ} {trades : List Trade}

lemma relThresh_of_floor {m : ℚ} (h : unitFloor ≤ m) : relThresh m = m * (1 / 1000) := by
  refine max_eq_left ?_
  calc
    (1 : ℚ) / 1000000000000 = unitFloor * (1 / 1000) := by norm_num [unitFloor]
    _ ≤ m * (1 / 1000) := mul_le_mul_of_nonneg_right h (by norm_num)

lemma deviation_scaled (hc : 0 < c) (t : Trade) :
    deviation (trades.map (Trade.scaled c)) (t.scaled c) = c * deviation trades t := by
  unfold deviation
  rw [map_price_scaled, median_map_mul hc]
  calc
    |c * t.price - c * median (trades.map Trade.price)|
        = |c * (t.price - median (trades.map Trade.price))| := by rw [mul_sub]
    _ = c * |t.price - median (trades.map Trade.price)| := by rw [abs_mul, abs_of_pos hc]

/-- Above the floor both thresholds are proportional to the unit. -/
lemma filterThresh_scaled (hc : 0 < c) (madK : ℚ)
    (hbefore : unitFloor ≤ median (trades.map Trade.price))
    (hafter : unitFloor ≤ c * median (trades.map Trade.price)) :
    filterThresh (trades.map (Trade.scaled c)) madK = c * filterThresh trades madK := by
  unfold filterThresh
  rw [map_price_scaled, mad_map_mul hc, median_map_mul hc, relThresh_of_floor hbefore,
    relThresh_of_floor hafter]
  -- The unit does not decide which branch is taken.
  have hbranch : c * mad (trades.map Trade.price) ≤ 0 ↔ mad (trades.map Trade.price) ≤ 0 :=
    mul_nonpos_iff_pos_imp_nonpos.trans ⟨fun h => h.1 hc, fun h => ⟨fun _ => h, fun _ => hc.le⟩⟩
  by_cases hmad : mad (trades.map Trade.price) ≤ 0
  · rw [if_pos hmad, if_pos (hbranch.2 hmad), mul_assoc]
  · rw [if_neg hmad, if_neg (fun h => hmad (hbranch.1 h))]
    ring

lemma robustFilter_scaled (hc : 0 < c) (madK : ℚ) (minVenues : Int)
    (hbefore : unitFloor ≤ median (trades.map Trade.price))
    (hafter : unitFloor ≤ c * median (trades.map Trade.price)) :
    (robustFilter (trades.map (Trade.scaled c)) madK minVenues).1 =
      (robustFilter trades madK minVenues).1.map (Trade.scaled c) := by
  -- Whether the filter engages is a matter of the venues.
  have hengages : Engages (trades.map (Trade.scaled c)) minVenues ↔ Engages trades minVenues := by
    unfold Engages
    rw [map_venue_scaled]
  rw [robustFilter_fst, robustFilter_fst]
  by_cases h : Engages trades minVenues
  · rw [if_pos h, if_pos (hengages.2 h), List.filter_map]
    refine congrArg (List.map (Trade.scaled c)) (List.filter_congr ?_)
    intro t _
    have hkeep : deviation (trades.map (Trade.scaled c)) (t.scaled c) ≤
        filterThresh (trades.map (Trade.scaled c)) madK ↔
          deviation trades t ≤ filterThresh trades madK := by
      rw [deviation_scaled hc, filterThresh_scaled hc madK hbefore hafter]
      exact mul_le_mul_iff_right₀ hc
    exact decide_eq_decide.2 hkeep
  · rw [if_neg h, if_neg (fun h' => h (hengages.1 h'))]

/-- The median that the filter reports. -/
lemma robustFilter_snd (trades : List Trade) (madK : ℚ) (minVenues : Int) :
    (robustFilter trades madK minVenues).2 =
      if trades.isEmpty then none else some (median (trades.map Trade.price)) := by
  unfold robustFilter
  split
  · rfl
  · dsimp only
    split
    · rfl
    · split <;> rfl

end Filter

/-! ## One second -/

lemma rollUp_scaled (p : AggParams) (venuesIndex : Dict String ℕ) (nowNs sec : Int) {c : ℚ}
    (hc : 0 < c) (kept : List Trade) :
    rollUp p venuesIndex nowNs sec (kept.map (Trade.scaled c)) =
      (rollUp p venuesIndex nowNs sec kept).map (Bar.scaled c) := by
  cases kept with
  | nil => rfl
  | cons first rest =>
      -- Quantities and venues have no unit; every price of the bar is taken from scaled prices.
      have hqty : ((first.scaled c :: rest.map (Trade.scaled c)).map Trade.qty).sum =
          ((first :: rest).map Trade.qty).sum :=
        congrArg List.sum (map_qty_scaled c (first :: rest))
      have hprices : (first.scaled c :: rest.map (Trade.scaled c)).map Trade.price =
          (first :: rest).map fun t => c * t.price :=
        List.map_map (l := first :: rest)
      have hlast : ((first.scaled c :: rest.map (Trade.scaled c)).getLast
          (List.cons_ne_nil _ _)).price =
            c * ((first :: rest).getLast (List.cons_ne_nil _ _)).price :=
        congrArg Trade.price (List.getLast_map (f := Trade.scaled c) (l := first :: rest)
          (List.cons_ne_nil _ _))
      have hvwap : weightedMean Trade.price Trade.qty
          (first.scaled c :: rest.map (Trade.scaled c)) =
            c * weightedMean Trade.price Trade.qty (first :: rest) := by
        rw [← weightedMean_mul]
        unfold weightedMean
        rw [hqty]
        exact congrArg (fun xs => List.sum xs / _) (List.map_map (l := first :: rest))
      have hvenues : (first.scaled c :: rest.map (Trade.scaled c)).map Trade.venueName =
          (first :: rest).map Trade.venueName := map_venueName_scaled c (first :: rest)
      rw [List.map_cons]
      unfold rollUp
      dsimp only
      rw [hqty]
      by_cases hvolume : ((first :: rest).map Trade.qty).sum ≤ 0
      · rw [if_pos hvolume, if_pos hvolume]
        rfl
      · rw [if_neg hvolume, if_neg hvolume, Option.map_some]
        refine congrArg some ?_
        simp only [Bar.scaled, Bar.mk.injEq, hprices, hlast, hvwap, hvenues, true_and, and_true,
          List.length_map, List.length_cons]
        refine ⟨rfl, max_map_mul hc Trade.price _ _, min_map_mul hc Trade.price _ _⟩

lemma diagnose_scaled (p : AggParams) (sec : Int) (raw kept : List Trade) (med : Option ℚ)
    (c : ℚ) :
    diagnose p sec (raw.map (Trade.scaled c)) (kept.map (Trade.scaled c)) (med.map (c * ·)) =
      (diagnose p sec raw kept med).map (Diag.scaled c) := by
  unfold diagnose
  rw [map_qty_scaled, map_venue_scaled, map_venueName_scaled, List.length_map, List.length_map,
    List.isEmpty_map]
  by_cases hempty : kept.isEmpty = true
  · rw [if_pos hempty, if_pos hempty]
    rfl
  · rw [if_neg hempty, if_neg hempty]
    by_cases hvolume : (kept.map Trade.qty).sum ≤ 0
    · rw [if_pos hvolume, if_pos hvolume]
      rfl
    · rw [if_neg hvolume, if_neg hvolume]
      rfl

/-- What the loop writes for a second, in the other unit. -/
lemma aggSecond_scaled (p : AggParams) (venuesIndex : Dict String ℕ) (nowNs sec : Int) {c : ℚ}
    (hc : 0 < c) {raw : List Trade} (hbefore : unitFloor ≤ median (raw.map Trade.price))
    (hafter : unitFloor ≤ c * median (raw.map Trade.price)) :
    aggSecond p venuesIndex nowNs sec (raw.map (Trade.scaled c)) =
      ((aggSecond p venuesIndex nowNs sec raw).1.map (Bar.scaled c),
        (aggSecond p venuesIndex nowNs sec raw).2.map (Diag.scaled c)) := by
  have hmed : (robustFilter (raw.map (Trade.scaled c)) p.madK p.minVenuesForFilter).2 =
      (robustFilter raw p.madK p.minVenuesForFilter).2.map (c * ·) := by
    rw [robustFilter_snd, robustFilter_snd, List.isEmpty_map, map_price_scaled, median_map_mul hc]
    by_cases hempty : raw.isEmpty = true
    · rw [if_pos hempty, if_pos hempty]
      rfl
    · rw [if_neg hempty, if_neg hempty]
      rfl
  unfold aggSecond
  dsimp only
  rw [robustFilter_scaled hc _ _ hbefore hafter, hmed, rollUp_scaled p venuesIndex nowNs sec hc,
    diagnose_scaled]

/-! ## The whole run -/

section Run

variable {p : AggParams} {c : ℚ} {xs : List Trade}

/-- No guard of the loop reads a price, so the same prints are collected. -/
lemma secondTrades_scaled (sec : Int) :
    secondTrades p (xs.map (Trade.scaled c)) sec =
      (secondTrades p xs sec).map (Trade.scaled c) :=
  List.filter_map

lemma seconds_scaled : seconds p (xs.map (Trade.scaled c)) = seconds p xs := by
  refine List.SortedLT.eq_of_mem_iff (Dict.sortedKeys_sortedLT _) (Dict.sortedKeys_sortedLT _) ?_
  intro sec
  have hmem : sec ∈ seconds p (xs.map (Trade.scaled c)) ↔ sec ∈ seconds p xs := by
    rw [mem_seconds_iff, mem_seconds_iff]
    constructor
    · intro h
      rcases h with ⟨t, ht, hadmits, hsec⟩
      rcases List.mem_map.1 ht with ⟨t', ht', rfl⟩
      exact ⟨t', ht', hadmits, hsec⟩
    · intro h
      rcases h with ⟨t, ht, hadmits, hsec⟩
      exact ⟨t.scaled c, List.mem_map.2 ⟨t, ht, rfl⟩, hadmits, hsec⟩
  exact hmem

lemma usedIndex_scaled : usedIndex p (xs.map (Trade.scaled c)) = usedIndex p xs := by
  have hvenues : ((xs.map (Trade.scaled c)).filter (admits p)).map Trade.venueName =
      (xs.filter (admits p)).map Trade.venueName := by
    rw [List.filter_map, map_venueName_scaled]
    rfl
  rw [usedIndex, hvenues, usedIndex]

lemma floor_scaled (hc : 0 < c) (hafter : MediansAboveFloor p (xs.map (Trade.scaled c))) {sec : Int}
    (hsec : sec ∈ seconds p xs) :
    unitFloor ≤ c * median ((secondTrades p xs sec).map Trade.price) := by
  have hscaled : sec ∈ seconds p (xs.map (Trade.scaled c)) := by
    rw [seconds_scaled]
    exact hsec
  have hfloor := hafter sec hscaled
  rwa [secondTrades_scaled, map_price_scaled, median_map_mul hc] at hfloor

/-- In every second the same prints survive. -/
theorem keptIn_scaled (hc : 0 < c) (hbefore : MediansAboveFloor p xs)
    (hafter : MediansAboveFloor p (xs.map (Trade.scaled c))) (sec : Int) :
    keptIn p (xs.map (Trade.scaled c)) sec = (keptIn p xs sec).map (Trade.scaled c) := by
  by_cases hsec : sec ∈ seconds p xs
  · rw [keptIn, secondTrades_scaled,
      robustFilter_scaled hc _ _ (hbefore sec hsec) (floor_scaled hc hafter hsec)]
    rfl
  · -- A second that the loop does not visit has no trades in either unit.
    have hnone : secondTrades p xs sec = [] := secondTrades_eq_nil hsec
    rw [keptIn, keptIn, secondTrades_scaled, hnone]
    rfl

/-- In a unit that is `c` times smaller, the seconds and the surviving prints are the same, and the
prices of bars and diagnostics are `c` times as large. -/
theorem buildAggBars_scaled (p : AggParams) (nowNs : Int) {xs : List Trade} {c : ℚ} (hc : 0 < c)
    (hbefore : MediansAboveFloor p xs) (hafter : MediansAboveFloor p (xs.map (Trade.scaled c))) :
    seconds p (xs.map (Trade.scaled c)) = seconds p xs ∧
      (∀ sec, keptIn p (xs.map (Trade.scaled c)) sec = (keptIn p xs sec).map (Trade.scaled c)) ∧
      (buildAggBars p nowNs (xs.map (Trade.scaled c))).1 =
        (buildAggBars p nowNs xs).1.map (Bar.scaled c) ∧
      (buildAggBars p nowNs (xs.map (Trade.scaled c))).2 =
        (buildAggBars p nowNs xs).2.map (Diag.scaled c) := by
  have hloop : (seconds p xs).map (fun sec =>
      aggSecond p (usedIndex p xs) nowNs sec (secondTrades p (xs.map (Trade.scaled c)) sec)) =
        (seconds p xs).map fun sec =>
          ((aggSecond p (usedIndex p xs) nowNs sec (secondTrades p xs sec)).1.map (Bar.scaled c),
            (aggSecond p (usedIndex p xs) nowNs sec (secondTrades p xs sec)).2.map
              (Diag.scaled c)) := by
    -- Both loops visit the same seconds, and in each of them the median is above the floor.
    refine List.map_congr_left ?_
    intro sec hsec
    rw [secondTrades_scaled]
    exact aggSecond_scaled p _ nowNs sec hc (hbefore sec hsec) (floor_scaled hc hafter hsec)
  refine ⟨seconds_scaled, keptIn_scaled hc hbefore hafter, ?_, ?_⟩
  · rw [buildAggBars_eq, buildAggBars_eq, seconds_scaled, usedIndex_scaled, hloop]
    simp only [List.filterMap_map, List.map_filterMap, Function.comp_def]
  · rw [buildAggBars_eq, buildAggBars_eq, seconds_scaled, usedIndex_scaled, hloop]
    simp only [List.filterMap_map, List.map_filterMap, Function.comp_def]

end Run

/-- Three venues agree on a price and a fourth prints ten times as much. -/
def fatFinger : List Trade :=
  [{ tsNs := 0, venue := some "okx", price := 60000, size := some 1 },
    { tsNs := 1, venue := some "kraken", price := 60000, size := some 1 },
    { tsNs := 2, venue := some "gemini", price := 600000, size := some 1 },
    { tsNs := 3, venue := some "bitstamp", price := 60000, size := some 2 }]

/-- Also where the token trades at `0.00006`, the fourth print is dropped. -/
theorem buildAggBars_scaled_fat_finger :
    (buildAggBars { symbol := "X-USD" } 7 (fatFinger.map (Trade.scaled (1 / 1000000000)))).1 =
      (buildAggBars { symbol := "X-USD" } 7 fatFinger).1.map (Bar.scaled (1 / 1000000000)) := by
  have hc : (0 : ℚ) < 1 / 1000000000 := by decide +kernel
  have hbefore : MediansAboveFloor { symbol := "X-USD" } fatFinger := by decide +kernel
  have hafter : MediansAboveFloor { symbol := "X-USD" }
      (fatFinger.map (Trade.scaled (1 / 1000000000))) := by decide +kernel
  exact (buildAggBars_scaled { symbol := "X-USD" } 7 hc hbefore hafter).2.2.1

end CryptoData
