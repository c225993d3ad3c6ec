import CryptoData.Query.Chunks

/-!
# Fill — filling what is missing in a frame of bars

`get_bars` resamples first and fills afterwards.  A resampled frame has a row for every window from
the first to the last, without prices where no bar lies (`aggWindows`), but `resample_bars` drops
those rows (`resampleBars_eq_dropna`), and nothing is missing in what it returns.  So a forward fill
changes nothing, and the frame is contiguous exactly if the stored bars are
(`get_bars_ffill_iff`).
-/

namespace CryptoData

open Foundation

/-! ## Windows -/

/-- The numbers `lo`, `lo + step`, … up to `hi`. -/
def steps (lo hi : Int) (step : ℕ) : List Int :=
  (List.range ((hi - lo) / step + 1).toNat).map fun i : ℕ => lo + (i : Int) * step

/-- The labels of all windows from that of the first timestamp to that of the last. -/
def windowsBetween (widthNs : ℕ) (ts : List Int) : List Int :=
  match ts.min?, ts.max? with
  | some first, some last => steps (windowLabel widthNs first) (windowLabel widthNs last) widthNs
  | _, _ => []

/-- `rs.agg(...)`: a row for each window; one without bars has no prices. -/
def aggWindows (widthNs : ℕ) (bars : List Bar) : List (Int × Option Bar) :=
  (windowsBetween widthNs (bars.map Bar.tsNs)).map fun label =>
    (label, rollWindow label (bars.filter fun b => decide (windowLabel widthNs b.tsNs = label)))

section Windows

variable {widthNs : ℕ} {ts : List Int}

lemma mem_steps {lo hi : Int} {step : ℕ} (hstep : 0 < step) {x : Int} :
    x ∈ steps lo hi step ↔ lo ≤ x ∧ x ≤ hi ∧ (step : Int) ∣ x - lo := by
  have hpos : (0 : Int) < step := by exact_mod_cast hstep
  rw [steps, List.mem_map]
  constructor
  · intro h
    rcases h with ⟨i, hi', rfl⟩
    have hlt : (i : Int) < (hi - lo) / step + 1 := Int.lt_toNat.1 (List.mem_range.1 hi')
    have hle : (i : Int) * step ≤ hi - lo :=
      (Int.le_ediv_iff_mul_le hpos).1 (Int.lt_add_one_iff.1 hlt)
    have hnonneg : (0 : Int) ≤ i * step := mul_nonneg (Int.natCast_nonneg i) hpos.le
    refine ⟨by omega, by omega, i, ?_⟩
    rw [add_sub_cancel_left, mul_comm]
  · intro h
    rcases h with ⟨hlo, hhi, n, hn⟩
    -- The number of steps is the quotient, which is not negative above `lo`.
    have hnonneg : 0 ≤ n := by
      by_contra hneg
      have hmul := mul_neg_of_pos_of_neg hpos (not_le.1 hneg)
      omega
    refine ⟨n.toNat, List.mem_range.2 (Int.lt_toNat.2 ?_), ?_⟩
    · rw [Int.toNat_of_nonneg hnonneg, Int.lt_add_one_iff, Int.le_ediv_iff_mul_le hpos, mul_comm,
        ← hn]
      omega
    · rw [Int.toNat_of_nonneg hnonneg, mul_comm, ← hn]
      omega

lemma steps_sorted (lo hi : Int) {step : ℕ} (hstep : 0 < step) :
    (steps lo hi step).Pairwise (· < ·) := by
  have hpos : (0 : Int) < step := by exact_mod_cast hstep
  refine List.pairwise_map.2 (List.pairwise_lt_range.imp ?_)
  intro i j hij
  exact add_lt_add_right (mul_lt_mul_of_pos_right (by exact_mod_cast hij) hpos) lo

lemma windowsBetween_sorted (hpos : 0 < widthNs) (ts : List Int) :
    (windowsBetween widthNs ts).Pairwise (· < ·) := by
  unfold windowsBetween
  split
  · exact steps_sorted _ _ hpos
  · exact List.Pairwise.nil

lemma dvd_windowLabel (ts : Int) : (widthNs : Int) ∣ windowLabel widthNs ts :=
  Dvd.intro_left _ rfl

/-- A window is between the first and the last if it is between two that have a timestamp. -/
lemma mem_windowsBetween (hpos : 0 < widthNs) {label : Int} :
    label ∈ windowsBetween widthNs ts ↔ (widthNs : Int) ∣ label ∧
      ∃ a ∈ ts, ∃ b ∈ ts, windowLabel widthNs a ≤ label ∧ label ≤ windowLabel widthNs b := by
  by_cases hts : ts = []
  · subst hts
    refine iff_of_false List.not_mem_nil ?_
    intro h
    rcases h with ⟨_, a, ha, _⟩
    cases ha
  · rcases Option.isSome_iff_exists.1 (List.isSome_min?_of_ne_nil hts) with ⟨first, hfirst⟩
    rcases Option.isSome_iff_exists.1 (List.isSome_max?_of_ne_nil hts) with ⟨last, hlast⟩
    have hmin := List.min?_eq_some_iff.1 hfirst
    have hmax := List.max?_eq_some_iff.1 hlast
    have hlabel : windowsBetween widthNs ts =
        steps (windowLabel widthNs first) (windowLabel widthNs last) widthNs := by
      rw [windowsBetween, hfirst, hlast]
    have hdvd : (widthNs : Int) ∣ label - windowLabel widthNs first ↔ (widthNs : Int) ∣ label :=
      dvd_sub_left (dvd_windowLabel first)
    rw [hlabel, mem_steps hpos, hdvd]
    constructor
    · intro h
      exact ⟨h.2.2, first, hmin.1, last, hmax.1, h.1, h.2.1⟩
    · intro h
      rcases h with ⟨hd, a, ha, b, hb, hlo, hhi⟩
      exact ⟨(windowLabel_mono hpos (hmin.2 a ha)).trans hlo,
        hhi.trans (windowLabel_mono hpos (hmax.2 b hb)), hd⟩

lemma windowLabel_mem_windowsBetween (hpos : 0 < widthNs) {t : Int} (ht : t ∈ ts) :
    windowLabel widthNs t ∈ windowsBetween widthNs ts :=
  (mem_windowsBetween hpos).2 ⟨dvd_windowLabel t, t, ht, t, ht, le_rfl, le_rfl⟩

end Windows

/-- `out.dropna(subset=["close"])` leaves the windows with bars. -/
theorem resampleBars_eq_dropna (bars : List Bar) {widthNs : ℕ} (pos : 0 < widthNs) :
    resampleBars bars (.windows widthNs pos) = (aggWindows widthNs bars).filterMap Prod.snd := by
  let label : Bar → Int := fun b => windowLabel widthNs b.tsNs
  let roll : Int → Option Bar := fun k =>
    rollWindow k (bars.filter fun b => decide (label b = k))
  have hkeys : (bucket label bars).sortedKeys =
      (windowsBetween widthNs (bars.map Bar.tsNs)).filter fun k => decide (k ∈ bars.map label) := by
    refine List.Pairwise.eq_of_mem_iff (Dict.sortedKeys_sortedLT _).pairwise
      ((windowsBetween_sorted pos _).filter _) ?_
    intro k
    rw [Dict.mem_sortedKeys, mem_keys_bucket, List.mem_filter, decide_eq_true_eq, List.mem_map]
    refine (and_iff_right_of_imp ?_).symm
    intro h
    rcases h with ⟨b, hb, rfl⟩
    exact windowLabel_mem_windowsBetween pos (List.mem_map.2 ⟨b, hb, rfl⟩)
  -- `dropna` takes a window out exactly if it rolls up nothing.
  have hempty : ∀ k, k ∉ bars.map label → roll k = none := by
    intro k hk
    have hnone : (bars.filter fun b => decide (label b = k)) = [] := by
      refine List.filter_eq_nil_iff.2 ?_
      intro b hb hlabel
      exact hk (List.mem_map.2 ⟨b, hb, of_decide_eq_true hlabel⟩)
    change rollWindow k _ = none
    rw [hnone]
    rfl
  rw [resampleBars_windows, aggWindows, List.filterMap_map]
  change (bucket label bars).sortedKeys.filterMap roll =
    (windowsBetween widthNs (bars.map Bar.tsNs)).filterMap roll
  rw [hkeys, List.filterMap_filter]
  refine List.filterMap_congr ?_
  intro k _
  by_cases hk : k ∈ bars.map label
  · exact if_pos (decide_eq_true hk)
  · rw [hempty k hk, ite_self]

/-! ## Filling -/

inductive Fill
  | none
  | ffill
  | zero
  deriving DecidableEq, Repr

/-- A row of the frame; a cell is `none` where the frame has `NaN`. -/
structure BarRow where
  tsNs : Int
  symbol : String
  venue : String
  «open» : Option ℚ
  high : Option ℚ
  low : Option ℚ
  close : Option ℚ
  volume : Option ℚ
  vwap : Option ℚ
  trades : Option ℕ
  sourcesMask : Option ℕ
  ingestedAtNs : Option Int
  deriving DecidableEq, Repr

namespace BarRow

/-- The row of a bar; it lacks no price. -/
def ofBar (b : Bar) : BarRow :=
  { tsNs := b.tsNs
    symbol := b.symbol
    venue := b.venue
    «open» := some b.open
    high := some b.high
    low := some b.low
    close := some b.close
    volume := some b.volume
    vwap := some b.vwap
    trades := some b.trades
    sourcesMask := some b.sourcesMask
    ingestedAtNs := b.ingestedAtNs }

/-- `.ffill()` of one row, after the filled row before it: each column for itself. -/
def ffillFrom (row prev : BarRow) : BarRow :=
  { row with
    «open» := row.open <|> prev.open
    high := row.high <|> prev.high
    low := row.low <|> prev.low
    close := row.close <|> prev.close
    vwap := row.vwap <|> prev.vwap }

/-- `.fillna(0)` of `volume` and `trades`. -/
def zeroActivity (row : BarRow) : BarRow :=
  { row with
    volume := some (row.volume.getD 0)
    trades := some (row.trades.getD 0) }

/-- `.fillna(0)` of all columns. -/
def zeroAll (row : BarRow) : BarRow :=
  { row with
    «open» := some (row.open.getD 0)
    high := some (row.high.getD 0)
    low := some (row.low.getD 0)
    close := some (row.close.getD 0)
    volume := some (row.volume.getD 0)
    vwap := some (row.vwap.getD 0)
    trades := some (row.trades.getD 0)
    sourcesMask := some (row.sourcesMask.getD 0)
    ingestedAtNs := some (row.ingestedAtNs.getD 0) }

end BarRow

/-- `.ffill()`, down the frame. -/
def ffillRows : Option BarRow → List BarRow → List BarRow
  | _, [] => []
  | none, row :: rows => row :: ffillRows (some row) rows
  | some prev, row :: rows =>
      row.ffillFrom prev :: ffillRows (some (row.ffillFrom prev)) rows

/-- The `if fill == ...` of `get_bars`. -/
def fillFrame (fill : Fill) (out : List BarRow) : List BarRow :=
  match fill with
  | .none => out
  | .ffill => (ffillRows none out).map BarRow.zeroActivity
  | .zero => out.map BarRow.zeroAll

/-- `get_bars(symbol, start, end, timeframe, sources, fill=fill, asof=asof)`. -/
def getBarsFilled (engine : QueryEngine) (s : Store Bar) (symbol : String) (startNs endNs : Int)
    (timeframe : Timeframe) (sources : List String) (fill : Fill) (asof : Option Int) :
    List BarRow :=
  fillFrame fill
    ((getBarsOn resampleStartDay engine s symbol startNs endNs timeframe sources asof).map
      BarRow.ofBar)

/-- There is nothing to fill in the rows of bars. -/
lemma ffillRows_ofBar :
    ∀ (bars : List Bar) (prev : Option BarRow),
      ffillRows prev (bars.map BarRow.ofBar) = bars.map BarRow.ofBar
  | [], none => rfl
  | [], some _ => rfl
  | b :: bars, none =>
      congrArg (List.cons (BarRow.ofBar b)) (ffillRows_ofBar bars (some (BarRow.ofBar b)))
  | b :: bars, some _ =>
      congrArg (List.cons (BarRow.ofBar b)) (ffillRows_ofBar bars (some (BarRow.ofBar b)))

/-- A forward fill changes nothing. -/
theorem fillFrame_ffill_ofBar (bars : List Bar) :
    fillFrame .ffill (bars.map BarRow.ofBar) = fillFrame .none (bars.map BarRow.ofBar) := by
  change (ffillRows none (bars.map BarRow.ofBar)).map BarRow.zeroActivity = _
  rw [ffillRows_ofBar, List.map_map]
  rfl

/-! ## What a forward fill is for -/

/-- A row for each window from the first stored bar to the last: the row of the windows with bars is
that of the unfilled frame, and the others carry the prices of the row before and no activity. -/
structure ForwardFilled (widthNs : ℕ) (stored : List Bar) (plain frame : List BarRow) : Prop where
  windows : frame.map BarRow.tsNs = windowsBetween widthNs (stored.map Bar.tsNs)
  resampled : ∀ row ∈ frame, (∃ b ∈ stored, windowLabel widthNs b.tsNs = row.tsNs) → row ∈ plain
  carried : ∀ prev row, [prev, row] <:+: frame →
    (¬ ∃ b ∈ stored, windowLabel widthNs b.tsNs = row.tsNs) →
      row.open = prev.open ∧ row.high = prev.high ∧ row.low = prev.low ∧
        row.close = prev.close ∧ row.vwap = prev.vwap ∧
          row.volume = some 0 ∧ row.trades = some 0

/-- Every window from the first stored bar to the last has one; at `1s`, which copies, the bars are
one in a second and on whole seconds, too. -/
structure Contiguous (timeframe : Timeframe) (stored : List Bar) : Prop where
  every : ∀ label ∈ windowsBetween timeframe.widthNs (stored.map Bar.tsNs),
    ∃ b ∈ stored, windowLabel timeframe.widthNs b.tsNs = label
  copied : timeframe = .oneSecond →
    (stored.map Bar.tsNs).Nodup ∧ ∀ b ∈ stored, b.tsNs % nsPerSec = 0

section Frame

variable {timeframe : Timeframe} {df : List Bar}

lemma windowsBetween_congr {widthNs : ℕ} (hpos : 0 < widthNs) {ts ts' : List Int}
    (h : ∀ t, t ∈ ts ↔ t ∈ ts') : windowsBetween widthNs ts = windowsBetween widthNs ts' := by
  refine List.Pairwise.eq_of_mem_iff (windowsBetween_sorted hpos _)
    (windowsBetween_sorted hpos _) ?_
  intro label
  rw [mem_windowsBetween hpos, mem_windowsBetween hpos]
  simp only [h]

lemma windowLabel_of_whole {t : Int} (h : t % nsPerSec = 0) : windowLabel 1000000000 t = t :=
  Int.ediv_mul_cancel (Int.dvd_of_emod_eq_zero h)

/-- The labels of the windows with bars are those of all windows if none between is empty. -/
lemma labels_windows_iff {widthNs : ℕ} (pos : 0 < widthNs) :
    (resampleBars df (.windows widthNs pos)).map Bar.tsNs =
        windowsBetween widthNs (df.map Bar.tsNs) ↔
      ∀ label ∈ windowsBetween widthNs (df.map Bar.tsNs),
        ∃ b ∈ df, windowLabel widthNs b.tsNs = label := by
  rw [resampleBars_windows_tsNs]
  constructor
  · intro h label hlabel
    rw [← h, Dict.mem_sortedKeys, mem_keys_bucket] at hlabel
    exact hlabel
  · intro h
    refine List.Pairwise.eq_of_mem_iff (Dict.sortedKeys_sortedLT _).pairwise
      (windowsBetween_sorted pos _) ?_
    intro label
    rw [Dict.mem_sortedKeys, mem_keys_bucket]
    constructor
    · intro hbar
      rcases hbar with ⟨b, hb, rfl⟩
      exact windowLabel_mem_windowsBetween pos (List.mem_map.2 ⟨b, hb, rfl⟩)
    · exact h label

/-- Copied timestamps are the labels of all windows if they are whole seconds without a gap. -/
lemma labels_copied_iff (hsorted : df.Pairwise fun a b => a.tsNs ≤ b.tsNs) :
    df.map Bar.tsNs = windowsBetween 1000000000 (df.map Bar.tsNs) ↔
      Contiguous .oneSecond df := by
  have hwindows : (windowsBetween 1000000000 (df.map Bar.tsNs)).Pairwise (· < ·) :=
    windowsBetween_sorted (by decide) _
  constructor
  · intro h
    have hwhole : ∀ b ∈ df, b.tsNs % nsPerSec = 0 := by
      intro b hb
      have hmem : b.tsNs ∈ windowsBetween 1000000000 (df.map Bar.tsNs) :=
        h ▸ List.mem_map.2 ⟨b, hb, rfl⟩
      exact Int.emod_eq_zero_of_dvd ((mem_windowsBetween (by decide)).1 hmem).1
    refine ⟨?_, fun _ => ⟨?_, hwhole⟩⟩
    · intro label hlabel
      change label ∈ windowsBetween 1000000000 (df.map Bar.tsNs) at hlabel
      rw [← h] at hlabel
      rcases List.mem_map.1 hlabel with ⟨b, hb, rfl⟩
      exact ⟨b, hb, windowLabel_of_whole (hwhole b hb)⟩
    · rw [h]
      exact hwindows.imp ne_of_lt
  · intro h
    rcases h.copied rfl with ⟨hnodup, hwhole⟩
    -- Sorted timestamps without duplicates increase, as the labels of the windows do.
    have hstrict : (df.map Bar.tsNs).Pairwise (· < ·) :=
      ((List.pairwise_map.2 hsorted).and hnodup).imp fun h => lt_of_le_of_ne h.1 h.2
    refine List.Pairwise.eq_of_mem_iff hstrict hwindows ?_
    intro label
    constructor
    · intro hlabel
      rcases List.mem_map.1 hlabel with ⟨b, hb, rfl⟩
      rw [← windowLabel_of_whole (hwhole b hb)]
      exact windowLabel_mem_windowsBetween (by decide) hlabel
    · intro hlabel
      rcases h.every label hlabel with ⟨b, hb, hb'⟩
      refine List.mem_map.2 ⟨b, hb, ?_⟩
      rw [← hb']
      exact (windowLabel_of_whole (hwhole b hb)).symm

/-- The labels of a resampled frame are those of all windows exactly if the frame is contiguous. -/
lemma labels_eq_iff (hsorted : df.Pairwise fun a b => a.tsNs ≤ b.tsNs) :
    (resampleBars df timeframe).map Bar.tsNs =
        windowsBetween timeframe.widthNs (df.map Bar.tsNs) ↔ Contiguous timeframe df := by
  cases timeframe with
  | oneSecond => exact labels_copied_iff hsorted
  | windows widthNs pos =>
      refine (labels_windows_iff pos).trans ?_
      exact ⟨fun h => ⟨h, fun hcopy => Timeframe.noConfusion hcopy⟩, fun h => h.every⟩

/-- The order of the stored bars does not matter. -/
lemma Contiguous.of_perm {stored : List Bar} (hperm : df.Perm stored)
    (h : Contiguous timeframe df) : Contiguous timeframe stored := by
  have hts : ∀ t, t ∈ stored.map Bar.tsNs ↔ t ∈ df.map Bar.tsNs :=
    fun t => (hperm.symm.map Bar.tsNs).mem_iff
  refine ⟨?_, ?_⟩
  · intro label hlabel
    rw [windowsBetween_congr timeframe.widthNs_pos hts] at hlabel
    rcases h.every label hlabel with ⟨b, hb, hb'⟩
    exact ⟨b, hperm.mem_iff.1 hb, hb'⟩
  · intro hcopy
    rcases h.copied hcopy with ⟨hnodup, hwhole⟩
    exact ⟨(hperm.map Bar.tsNs).nodup_iff.1 hnodup, fun b hb => hwhole b (hperm.mem_iff.2 hb)⟩

end Frame

/-- The rows that a query is about. -/
def storedRows (s : Store Bar) (symbol : String) (startNs endNs : Int) (sources : List String)
    (asof : Option Int) : List Bar :=
  let venues := if sources.isEmpty then ["agg"] else sources
  s.allRows.filter (selects symbol venues startNs endNs asof)

/-- A forward fill makes the bars of one source contiguous exactly if they are so before. -/
theorem get_bars_ffill_iff (engine : QueryEngine) (s : Store Bar) (symbol : String)
    (sources : List String) (hsources : sources.length ≤ 1) (timeframe : Timeframe)
    (hday : (timeframe.widthNs : Int) ∣ nsPerDay) (startNs endNs : Int) (asof : Option Int) :
    ForwardFilled timeframe.widthNs (storedRows s symbol startNs endNs sources asof)
        (getBarsFilled engine s symbol startNs endNs timeframe sources .none asof)
        (getBarsFilled engine s symbol startNs endNs timeframe sources .ffill asof) ↔
      Contiguous timeframe (storedRows s symbol startNs endNs sources asof) := by
  rcases exists_one_source hsources with ⟨source, hsource⟩
  let df := selectBars engine s symbol [source] startNs endNs asof
  have hperm : df.Perm (storedRows s symbol startNs endNs sources asof) := by
    unfold storedRows
    rw [hsource]
    exact selectBars_perm [source] startNs endNs asof
  -- Filled or not, the frame is the resampled one.
  have hplain : getBarsFilled engine s symbol startNs endNs timeframe sources .none asof =
      (resampleBars df timeframe).map BarRow.ofBar := by
    rw [getBarsFilled, getBarsOn_one_source hsource timeframe hday]
    rfl
  have hfilled : getBarsFilled engine s symbol startNs endNs timeframe sources .ffill asof =
      (resampleBars df timeframe).map BarRow.ofBar := by
    rw [← hplain]
    exact fillFrame_ffill_ofBar _
  have hlabels : ((resampleBars df timeframe).map BarRow.ofBar).map BarRow.tsNs =
      (resampleBars df timeframe).map Bar.tsNs := List.map_map
  have hwindows : windowsBetween timeframe.widthNs
      ((storedRows s symbol startNs endNs sources asof).map Bar.tsNs) =
        windowsBetween timeframe.widthNs (df.map Bar.tsNs) :=
    windowsBetween_congr timeframe.widthNs_pos fun t => (hperm.symm.map Bar.tsNs).mem_iff
  have hframe : (resampleBars df timeframe).map Bar.tsNs =
      windowsBetween timeframe.widthNs (df.map Bar.tsNs) ↔ Contiguous timeframe df :=
    labels_eq_iff selectBars_sorted_time
  rw [hplain, hfilled]
  constructor
  · intro h
    have heq := h.windows
    rw [hlabels, hwindows] at heq
    exact (hframe.1 heq).of_perm hperm
  · intro h
    have heq := (hlabels.trans (hframe.2 (h.of_perm hperm.symm))).trans hwindows.symm
    refine ⟨heq, fun row hrow _ => hrow, ?_⟩
    intro prev row hrows hnone
    -- No row is carried, since every window of the frame has a stored bar.
    have hrow : row ∈ (resampleBars df timeframe).map BarRow.ofBar :=
      hrows.subset (List.mem_cons_of_mem _ List.mem_cons_self)
    have hlabel : row.tsNs ∈ windowsBetween timeframe.widthNs
        ((storedRows s symbol startNs endNs sources asof).map Bar.tsNs) :=
      heq ▸ List.mem_map.2 ⟨row, hrow, rfl⟩
    exact absurd (h.every row.tsNs hlabel) hnone

/-- One bar in each of the given seconds. -/
def barsAtSeconds (seconds : List Int) : Store Bar :=
  Dict.empty.set ⟨⟨"bars_1s", "BTC-USD", "agg", "1970-01-01"⟩, .part 0⟩
    (seconds.map fun sec =>
      { tsNs := sec * nsPerSec, symbol := "BTC-USD", venue := "agg", «open» := 100, high := 103
        low := 99, close := 101, volume := 2, vwap := 101, trades := 4, sourcesMask := 3
        ingestedAtNs := none })

theorem get_bars_ffill_iff_next_minute :
    ForwardFilled 60000000000
      (storedRows (barsAtSeconds [5, 60]) "BTC-USD" 0 300000000000 [] none)
      (getBarsFilled sampleEngine (barsAtSeconds [5, 60]) "BTC-USD" 0 300000000000
        (.windows 60000000000 (by decide)) [] .none none)
      (getBarsFilled sampleEngine (barsAtSeconds [5, 60]) "BTC-USD" 0 300000000000
        (.windows 60000000000 (by decide)) [] .ffill none) := by
  refine (get_bars_ffill_iff sampleEngine (barsAtSeconds [5, 60]) "BTC-USD" [] (by decide)
    (.windows 60000000000 (by decide)) (by decide) 0 300000000000 none).2 ⟨?_, ?_⟩
  · decide +kernel
  · exact fun hcopy => Timeframe.noConfusion hcopy

/-- The minute between two bars stays empty. -/
theorem empty_minute_is_not_filled :
    (getBarsFilled sampleEngine (barsAtSeconds [5, 125]) "BTC-USD" 0 300000000000
        (.windows 60000000000 (by decide)) [] .ffill none).map BarRow.tsNs = [0, 120000000000] ∧
      ¬ ForwardFilled 60000000000
        (storedRows (barsAtSeconds [5, 125]) "BTC-USD" 0 300000000000 [] none)
        (getBarsFilled sampleEngine (barsAtSeconds [5, 125]) "BTC-USD" 0 300000000000
          (.windows 60000000000 (by decide)) [] .none none)
        (getBarsFilled sampleEngine (barsAtSeconds [5, 125]) "BTC-USD" 0 300000000000
          (.windows 60000000000 (by decide)) [] .ffill none) := by
  constructor
  · decide +kernel
  · intro h
    have hwindows := h.windows
    revert hwindows
    decide +kernel

end CryptoData
