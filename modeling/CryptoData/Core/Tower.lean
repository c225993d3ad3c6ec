import CryptoData.Core.Rollup

/-!
# Tower — resampling in two stages

`resample_bars` leaves the origin of the bins to pandas: the UTC midnight of the day of the first
row.  For a width that divides a day that makes no difference (`resampleStartDay_eq`).

Rolling up two neighbouring groups is combining their bars (`rollWindow_append`), so rolling up the
bars of finer windows is rolling up their rows (`rollWindow_filterMap`), column by column.  Hence
the tower law (`resample_tower`), but for the copy branch: `1s` copies what it is given, whatever
finer bins may have been made before.
-/

namespace CryptoData

open Foundation

/-! ## Bins from midnight -/

def nsPerDay : Int := 86400 * nsPerSec

/-- The UTC midnight of the day of `tsNs`. -/
def startOfDay (tsNs : Int) : Int :=
  tsNs / nsPerDay * nsPerDay

/-- The left edge of the bin `[o + kT, o + (k+1)T)` that holds `tsNs`. -/
def binLabel (origin : Int) (widthNs : ℕ) (tsNs : Int) : Int :=
  origin + windowLabel widthNs (tsNs - origin)

/-- `resample_bars(bars_1s, timeframe)` with the bins of pandas. -/
def resampleStartDay : List Bar → Timeframe → List Bar
  | bars, .oneSecond => bars
  | [], .windows _ _ => []
  | first :: rest, .windows widthNs _ =>
      let byBin := bucket (fun b : Bar => binLabel (startOfDay first.tsNs) widthNs b.tsNs)
        (first :: rest)
      byBin.sortedKeys.filterMap fun label => rollWindow label (byBin.getD label [])

lemma binLabel_startOfDay {widthNs : ℕ} (hday : (widthNs : Int) ∣ nsPerDay) (firstNs tsNs : Int) :
    binLabel (startOfDay firstNs) widthNs tsNs = windowLabel widthNs tsNs := by
  rcases hday with ⟨n, hn⟩
  have hpos : (widthNs : Int) ≠ 0 := by
    rintro hzero
    rw [hzero, zero_mul] at hn
    exact absurd hn (by decide)
  -- The midnight is a whole number of bins after the epoch.
  have horigin : startOfDay firstNs = firstNs / nsPerDay * n * widthNs := by
    unfold startOfDay
    rw [hn]
    ring
  unfold binLabel windowLabel
  rw [horigin, Int.sub_mul_ediv_right _ _ hpos]
  ring

theorem resampleStartDay_eq (bars : List Bar) {timeframe : Timeframe}
    (hday : (timeframe.widthNs : Int) ∣ nsPerDay) :
    resampleStartDay bars timeframe = resampleBars bars timeframe := by
  cases timeframe with
  | oneSecond => cases bars <;> rfl
  | windows widthNs pos =>
      cases bars with
      | nil => rfl
      | cons first rest =>
          have hlabel : (fun b : Bar => binLabel (startOfDay first.tsNs) widthNs b.tsNs) =
              fun b => windowLabel widthNs b.tsNs :=
            funext fun b => binLabel_startOfDay hday first.tsNs b.tsNs
          simp only [resampleStartDay, resampleBars, hlabel]

/-! ## Neighbouring groups -/

section Combine

variable {α K : Type*} [LinearOrder K]

lemma max_map_append (f : α → K) {xs ys : List α} (hxs : xs ≠ []) (hys : ys ≠ []) :
    ((xs ++ ys).map f).max (by simp [hxs]) =
      max ((xs.map f).max (by simpa using hxs)) ((ys.map f).max (by simpa using hys)) := by
  rw [List.max_eq_iff, List.map_append]
  constructor
  · rcases max_choice ((xs.map f).max (by simpa using hxs))
        ((ys.map f).max (by simpa using hys)) with h | h
    · rw [h]
      exact List.mem_append_left _ (List.max_mem _)
    · rw [h]
      exact List.mem_append_right _ (List.max_mem _)
  · intro b hb
    rcases List.mem_append.1 hb with hx | hy
    · exact le_max_of_le_left (List.le_max_of_mem hx)
    · exact le_max_of_le_right (List.le_max_of_mem hy)

lemma min_map_append (f : α → K) {xs ys : List α} (hxs : xs ≠ []) (hys : ys ≠ []) :
    ((xs ++ ys).map f).min (by simp [hxs]) =
      min ((xs.map f).min (by simpa using hxs)) ((ys.map f).min (by simpa using hys)) := by
  rw [List.min_eq_iff, List.map_append]
  constructor
  · rcases min_choice ((xs.map f).min (by simpa using hxs))
        ((ys.map f).min (by simpa using hys)) with h | h
    · rw [h]
      exact List.mem_append_left _ (List.min_mem _)
    · rw [h]
      exact List.mem_append_right _ (List.min_mem _)
  · intro b hb
    rcases List.mem_append.1 hb with hx | hy
    · exact min_le_of_left_le (List.min_le_of_mem hx)
    · exact min_le_of_right_le (List.min_le_of_mem hy)

lemma max?_append :
    ∀ xs ys : List K, (xs ++ ys).max? = Option.merge max xs.max? ys.max?
  | [], ys => by
      cases hys : ys.max? with
      | none => simp [hys]
      | some y => simp [hys]
  | x :: xs, ys => by
      rw [List.cons_append, List.max?_cons, List.max?_cons, max?_append xs ys]
      cases xs.max? with
      | none =>
          cases ys.max? with
          | none => rfl
          | some y => rfl
      | some a =>
          cases ys.max? with
          | none => rfl
          | some y => exact congrArg some (max_assoc x a y).symm

end Combine

/-- The bar of two neighbouring groups, from the bars of each. -/
def Bar.combine (label : Int) (a b : Bar) : Bar :=
  { tsNs := label
    symbol := a.symbol
    venue := a.venue
    «open» := a.open
    high := max a.high b.high
    low := min a.low b.low
    close := b.close
    volume := a.volume + b.volume
    vwap :=
      if a.volume + b.volume > 0 then
        (a.vwap * a.volume + b.vwap * b.volume) / (a.volume + b.volume)
      else b.close
    trades := a.trades + b.trades
    sourcesMask := max a.sourcesMask b.sourcesMask
    ingestedAtNs := Option.merge max a.ingestedAtNs b.ingestedAtNs }

lemma rollWindow_eq_none {label : Int} {group : List Bar} (h : rollWindow label group = none) :
    group = [] := by
  by_contra hne
  rcases exists_rollWindow label hne with ⟨c, hc⟩
  rw [hc] at h
  exact Option.some_ne_none c h

/-- The label of a bar is all that the label decides. -/
lemma rollWindow_relabel {label : Int} {group : List Bar} {c : Bar}
    (h : rollWindow label group = some c) (label' : Int) :
    rollWindow label' group = some { c with tsNs := label' } := by
  cases group with
  | nil => exact absurd h (Option.some_ne_none c).symm
  | cons first rest =>
      rw [← Option.some.inj h]
      rfl

/-- The bar of a group carries the notional of the group. -/
lemma rollWindow_notional {label : Int} {group : List Bar} {c : Bar}
    (h : rollWindow label group = some c) (hvolume : ∀ b ∈ group, 0 ≤ b.volume) :
    c.vwap * c.volume = (group.map fun b => b.vwap * b.volume).sum := by
  have hne : group ≠ [] := by
    rintro rfl
    exact absurd h (Option.some_ne_none c).symm
  rcases rollWindow_spec label hne hvolume with ⟨c', hc', _, hrolls⟩
  have hcc : c' = c := Option.some.inj (hc'.symm.trans h)
  subst hcc
  exact hrolls.totals.notional

lemma rollWindow_volume_nonneg {label : Int} {group : List Bar} {c : Bar}
    (h : rollWindow label group = some c) (hvolume : ∀ b ∈ group, 0 ≤ b.volume) :
    0 ≤ c.volume := by
  cases group with
  | nil => exact absurd h (Option.some_ne_none c).symm
  | cons first rest =>
      rw [← Option.some.inj h]
      refine List.sum_nonneg ?_
      intro v hv
      rcases List.mem_map.1 hv with ⟨b, hb, rfl⟩
      exact hvolume b hb

/-- Rolling up two neighbouring groups is combining their bars. -/
theorem rollWindow_append (label : Int) {label₁ label₂ : Int} {xs ys : List Bar} {a b : Bar}
    (ha : rollWindow label₁ xs = some a) (hb : rollWindow label₂ ys = some b)
    (hxs : ∀ x ∈ xs, 0 ≤ x.volume) (hys : ∀ y ∈ ys, 0 ≤ y.volume) :
    rollWindow label (xs ++ ys) = some (a.combine label b) := by
  have hnotional : a.vwap * a.volume + b.vwap * b.volume =
      ((xs ++ ys).map fun b => b.vwap * b.volume).sum := by
    rw [rollWindow_notional ha hxs, rollWindow_notional hb hys, List.map_append, List.sum_append]
  cases xs with
  | nil => exact absurd ha (Option.some_ne_none a).symm
  | cons x xs =>
      cases ys with
      | nil => exact absurd hb (Option.some_ne_none b).symm
      | cons y ys =>
          have hfirst := Option.some.inj ha
          have hsecond := Option.some.inj hb
          have hvolume : a.volume + b.volume = ((x :: xs ++ y :: ys).map Bar.volume).sum := by
            rw [← hfirst, ← hsecond, List.map_append, List.sum_append]
          have hclose : b.close = ((x :: xs ++ y :: ys).getLast (by simp)).close := by
            rw [List.getLast_append_right (List.cons_ne_nil y ys), ← hsecond]
          have hvwap : (a.combine label b).vwap =
              if ((x :: xs ++ y :: ys).map Bar.volume).sum > 0 then
                ((x :: xs ++ y :: ys).map fun b => b.vwap * b.volume).sum /
                  ((x :: xs ++ y :: ys).map Bar.volume).sum
              else ((x :: xs ++ y :: ys).getLast (by simp)).close := by
            rw [← hvolume, ← hnotional, ← hclose]
            rfl
          refine congrArg some ?_
          rw [Bar.mk.injEq]
          refine ⟨rfl, ?_, ?_, ?_, ?_, ?_, hclose.symm, hvolume.symm, hvwap.symm, ?_, ?_, ?_⟩
          · change x.symbol = a.symbol
            rw [← hfirst]
          · change x.venue = a.venue
            rw [← hfirst]
          · change x.open = a.open
            rw [← hfirst]
          · change _ = max a.high b.high
            rw [← hfirst, ← hsecond]
            exact max_map_append Bar.high (List.cons_ne_nil x xs) (List.cons_ne_nil y ys)
          · change _ = min a.low b.low
            rw [← hfirst, ← hsecond]
            exact min_map_append Bar.low (List.cons_ne_nil x xs) (List.cons_ne_nil y ys)
          · change ((x :: xs ++ y :: ys).map Bar.trades).sum = a.trades + b.trades
            rw [← hfirst, ← hsecond, List.map_append, List.sum_append]
          · change _ = max a.sourcesMask b.sourcesMask
            rw [← hfirst, ← hsecond]
            exact max_map_append Bar.sourcesMask (List.cons_ne_nil x xs) (List.cons_ne_nil y ys)
          · change ((x :: xs ++ y :: ys).filterMap Bar.ingestedAtNs).max? =
              Option.merge max a.ingestedAtNs b.ingestedAtNs
            rw [← hfirst, ← hsecond, List.filterMap_append]
            exact max?_append _ _

/-- A bar that is a roll-up is the roll-up of itself. -/
lemma rollWindow_singleton {label : Int} {group : List Bar} {c : Bar}
    (h : rollWindow label group = some c) (hvolume : ∀ b ∈ group, 0 ≤ b.volume) (label' : Int) :
    rollWindow label' [c] = some { c with tsNs := label' } := by
  have hne : group ≠ [] := by
    rintro rfl
    exact absurd h (Option.some_ne_none c).symm
  rcases rollWindow_spec label hne hvolume with ⟨c', hc', _, hrolls⟩
  have hcc : c' = c := Option.some.inj (hc'.symm.trans h)
  subst hcc
  have hvwap : (if c'.volume > 0 then c'.vwap * c'.volume / c'.volume else c'.close) = c'.vwap := by
    by_cases hpos : c'.volume > 0
    · rw [if_pos hpos, mul_div_cancel_right₀ _ hpos.ne']
    · rw [if_neg hpos]
      exact (hrolls.vwap (not_lt.1 hpos)).symm
  have hstamp : ([c'].filterMap Bar.ingestedAtNs).max? = c'.ingestedAtNs := by
    cases hs : c'.ingestedAtNs with
    | none => simp [hs]
    | some stamp => simp [hs]
  simp only [rollWindow, List.map_cons, List.map_nil, List.sum_cons, List.sum_nil, add_zero,
    List.max_singleton, List.min_singleton, List.getLast_singleton]
  rw [hvwap, hstamp]

/-- Rolling up the bars of groups is rolling up their rows. -/
theorem rollWindow_filterMap {group : Int → List Bar} (label : Int) :
    ∀ {ks : List Int}, (∀ k ∈ ks, ∀ b ∈ group k, 0 ≤ b.volume) →
      rollWindow label (ks.filterMap fun k => rollWindow k (group k)) =
        rollWindow label (ks.flatMap group)
  | [], _ => rfl
  | k :: ks, hvolume => by
      have hhead := hvolume k List.mem_cons_self
      have htail : ∀ j ∈ ks, ∀ b ∈ group j, 0 ≤ b.volume :=
        fun j hj => hvolume j (List.mem_cons_of_mem k hj)
      have hrest : ∀ b ∈ ks.flatMap group, 0 ≤ b.volume := by
        intro b hb
        rcases List.mem_flatMap.1 hb with ⟨j, hj, hbj⟩
        exact htail j hj b hbj
      have ih := rollWindow_filterMap label htail
      rw [List.flatMap_cons]
      cases hk : rollWindow k (group k) with
      | none =>
          simp only [List.filterMap_cons, hk]
          rw [ih, rollWindow_eq_none hk, List.nil_append]
      | some c =>
          simp only [List.filterMap_cons, hk]
          have hone := rollWindow_singleton hk hhead label
          cases hks : rollWindow label (ks.flatMap group) with
          | none =>
              rw [hks] at ih
              rw [rollWindow_eq_none ih, rollWindow_eq_none hks, List.append_nil, hone,
                rollWindow_relabel hk label]
          | some d =>
              rw [hks] at ih
              have hvolumes : ∀ b ∈ ks.filterMap fun k => rollWindow k (group k), 0 ≤ b.volume := by
                intro b hb
                rcases List.mem_filterMap.1 hb with ⟨j, hj, hbj⟩
                exact rollWindow_volume_nonneg hbj (htail j hj)
              have hc : ∀ b ∈ [c], 0 ≤ b.volume := by
                intro b hb
                rw [List.mem_singleton.1 hb]
                exact rollWindow_volume_nonneg hk hhead
              have hsplit := rollWindow_append label hone ih hc hvolumes
              have hrows := rollWindow_append label hk hks hhead hrest
              rw [hrows]
              exact hsplit

/-! ## Two stages -/

section Stages

variable {bars : List Bar} {fine coarse : ℕ}

/-- The bars of the finer windows of a window are the bars of its rows. -/
lemma rollWindow_stage (hsorted : bars.Pairwise fun a b => a.tsNs ≤ b.tsNs)
    (hvolume : ∀ b ∈ bars, 0 ≤ b.volume) (hfine : 0 < fine) (hdvd : fine ∣ coarse)
    (label : Int) :
    rollWindow label ((resampleBars bars (.windows fine hfine)).filter fun b =>
        decide (windowLabel coarse b.tsNs = label)) =
      rollWindow label (bars.filter fun b => decide (windowLabel coarse b.tsNs = label)) := by
  let group : Int → List Bar := fun k =>
    bars.filter fun b => decide (windowLabel fine b.tsNs = k)
  let ks := (bucket (fun b : Bar => windowLabel fine b.tsNs) bars).sortedKeys
  let inside := ks.filter fun k => decide (windowLabel coarse k = label)
  -- The bars with a label in the window are those of the finer windows inside it.
  have hselect : ((resampleBars bars (.windows fine hfine)).filter fun b =>
      decide (windowLabel coarse b.tsNs = label)) =
        inside.filterMap fun k => rollWindow k (group k) := by
    rw [resampleBars_windows, List.filter_filterMap, List.filterMap_filter]
    refine List.filterMap_congr ?_
    intro k _
    cases hk : rollWindow k (group k) with
    | none => simp
    | some c => simp [rollWindow_tsNs hk, Option.filter]
  have hgroup : ∀ k ∈ inside, ∀ b ∈ group k, 0 ≤ b.volume :=
    fun k _ b hb => hvolume b (List.mem_filter.1 hb).1
  have hlabels : bars.Pairwise fun a b => windowLabel fine a.tsNs ≤ windowLabel fine b.tsNs :=
    hsorted.imp fun h => windowLabel_mono hfine h
  have hinside : inside.Pairwise (· < ·) :=
    (Dict.sortedKeys_sortedLT _).pairwise.sublist List.filter_sublist
  rw [hselect, rollWindow_filterMap label hgroup, flatMap_filter_eq hlabels hinside]
  congr 1
  refine List.filter_congr ?_
  intro b hb
  refine decide_eq_decide.2 ?_
  have hcoarse := windowLabel_windowLabel hfine hdvd b.tsNs
  constructor
  · intro hmem
    have hlabel := of_decide_eq_true (List.mem_filter.1 hmem).2
    rw [hcoarse] at hlabel
    exact hlabel
  · intro hlabel
    refine List.mem_filter.2 ⟨Dict.mem_sortedKeys.2 (mem_keys_bucket.2 ⟨b, hb, rfl⟩), ?_⟩
    exact decide_eq_true (hcoarse.trans hlabel)

/-- A coarse window has a row exactly if it has a bar of a finer window. -/
lemma sortedKeys_stage (hfine : 0 < fine) (hdvd : fine ∣ coarse) :
    (bucket (fun b : Bar => windowLabel coarse b.tsNs)
        (resampleBars bars (.windows fine hfine))).sortedKeys =
      (bucket (fun b : Bar => windowLabel coarse b.tsNs) bars).sortedKeys := by
  have hlabels := resampleBars_windows_tsNs bars hfine
  refine List.Pairwise.eq_of_mem_iff (Dict.sortedKeys_sortedLT _).pairwise
    (Dict.sortedKeys_sortedLT _).pairwise ?_
  intro label
  rw [Dict.mem_sortedKeys, mem_keys_bucket, Dict.mem_sortedKeys, mem_keys_bucket]
  constructor
  · rintro ⟨c, hc, hlabel⟩
    have hkey : c.tsNs ∈ (bucket (fun b : Bar => windowLabel fine b.tsNs) bars).sortedKeys := by
      rw [← hlabels]
      exact List.mem_map_of_mem hc
    rcases mem_keys_bucket.1 (Dict.mem_sortedKeys.1 hkey) with ⟨b, hb, hts⟩
    refine ⟨b, hb, ?_⟩
    rw [← hlabel, ← hts, windowLabel_windowLabel hfine hdvd]
  · rintro ⟨b, hb, hlabel⟩
    have hkey : windowLabel fine b.tsNs ∈
        (resampleBars bars (.windows fine hfine)).map Bar.tsNs := by
      rw [hlabels]
      exact Dict.mem_sortedKeys.2 (mem_keys_bucket.2 ⟨b, hb, rfl⟩)
    rcases List.mem_map.1 hkey with ⟨c, hc, hts⟩
    refine ⟨c, hc, ?_⟩
    rw [hts, windowLabel_windowLabel hfine hdvd, hlabel]

end Stages

/-- Rolling up in two stages is rolling up at once, unless the second stage is the copy branch. -/
theorem resample_tower (bars : List Bar) (S T : Timeframe)
    (hsorted : bars.Pairwise fun a b => a.tsNs ≤ b.tsNs) (hvolume : ∀ b ∈ bars, 0 ≤ b.volume)
    (hdvd : S.widthNs ∣ T.widthNs) (hday : (T.widthNs : Int) ∣ nsPerDay)
    (hcopy : T = .oneSecond → S = .oneSecond) :
    resampleStartDay (resampleStartDay bars S) T = resampleStartDay bars T := by
  have hdayS : (S.widthNs : Int) ∣ nsPerDay :=
    dvd_trans (Int.natCast_dvd_natCast.2 hdvd) hday
  rw [resampleStartDay_eq _ hday, resampleStartDay_eq _ hday, resampleStartDay_eq _ hdayS]
  cases S with
  | oneSecond => rfl
  | windows fine hfine =>
      cases T with
      | oneSecond => exact absurd (hcopy rfl) Timeframe.noConfusion
      | windows coarse hcoarse =>
          have hwidths : fine ∣ coarse := hdvd
          rw [resampleBars_windows _ hcoarse, resampleBars_windows _ hcoarse,
            sortedKeys_stage hfine hwidths]
          refine List.filterMap_congr ?_
          intro label _
          exact rollWindow_stage hsorted hvolume hfine hwidths label

theorem resample_tower_hour :
    resampleStartDay (resampleStartDay
        [{ tsNs := 5000000000, symbol := "BTC-USD", venue := "agg", «open» := 100, high := 103,
           low := 99, close := 101, volume := 2, vwap := 101, trades := 4, sourcesMask := 3,
           ingestedAtNs := none },
         { tsNs := 605000000000, symbol := "BTC-USD", venue := "agg", «open» := 104, high := 104,
           low := 104, close := 104, volume := 0, vwap := 104, trades := 1, sourcesMask := 4,
           ingestedAtNs := some 7 }]
        (.windows 60000000000 (by decide))) (.windows 3600000000000 (by decide)) =
      resampleStartDay
        [{ tsNs := 5000000000, symbol := "BTC-USD", venue := "agg", «open» := 100, high := 103,
           low := 99, close := 101, volume := 2, vwap := 101, trades := 4, sourcesMask := 3,
           ingestedAtNs := none },
         { tsNs := 605000000000, symbol := "BTC-USD", venue := "agg", «open» := 104, high := 104,
           low := 104, close := 104, volume := 0, vwap := 104, trades := 1, sourcesMask := 4,
           ingestedAtNs := some 7 }]
        (.windows 3600000000000 (by decide)) :=
  resample_tower _ (.windows 60000000000 (by decide)) (.windows 3600000000000 (by decide))
    (by decide) (by decide +kernel) (by decide) (by decide) fun h => nomatch h

/-- `1s` copies: the half-seconds made before are not rolled up, and the rows of one half-second
stay apart if none were made. -/
theorem resample_tower_copy :
    ¬ ∀ (bars : List Bar) (S T : Timeframe),
      (bars.Pairwise fun a b => a.tsNs ≤ b.tsNs) → (∀ b ∈ bars, 0 ≤ b.volume) →
        S.widthNs ∣ T.widthNs → (T.widthNs : Int) ∣ nsPerDay →
          resampleStartDay (resampleStartDay bars S) T = resampleStartDay bars T := by
  intro h
  let row : Bar :=
    { tsNs := 5000000000, symbol := "BTC-USD", venue := "agg", «open» := 100, high := 100
      low := 100, close := 100, volume := 1, vwap := 100, trades := 1, sourcesMask := 1
      ingestedAtNs := none }
  have hlaw := h [row, row] (.windows 500000000 (by decide)) .oneSecond (by decide)
    (by decide +kernel) (by decide) (by decide)
  have hlength := congrArg List.length hlaw
  exact absurd hlength (by decide +kernel)

end CryptoData
