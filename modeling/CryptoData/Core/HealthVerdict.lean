import CryptoData.Core.Health
import Mathlib.Data.List.DropRight

/-!
# HealthVerdict — the verdict and the full history of a stream

The deque of a stream holds its last `rateWindowMaxLen` arrivals (`windows_healthRun`), so each
count of an evaluation is the count over the full history, cut off at that length (`countP_rtake`).
With the default windows this changes the verdict exactly for streams that are busy enough.  The
rates are doubles, which decide every comparison but that of equal rates: there the threshold of
some counts, `flippedTies`, is rounded to just above the rate.  `verdict_faithful_iff` has both.
-/

namespace CryptoData

open Foundation

/-! ## The retained arrivals -/

section Retained

variable {α : Type*} [LinearOrder α]

/-- Of a sorted list, the last `n` elements hold all that lie above a bound, or only such. -/
theorem countP_rtake (c : α) (n : ℕ) :
    ∀ l : List α, l.Pairwise (· ≤ ·) →
      (l.rtake n).countP (fun x => decide (x ≥ c)) = min (l.countP fun x => decide (x ≥ c)) n
  | [], _ => by simp
  | x :: l, h => by
      have hcons := List.pairwise_cons.1 h
      by_cases hx : x ≥ c
      · -- The whole list lies above the bound.
        have hall : ∀ y ∈ x :: l, decide (y ≥ c) = true := by
          intro y hy
          rcases List.mem_cons.1 hy with rfl | hy
          · exact decide_eq_true hx
          · exact decide_eq_true (le_trans hx (hcons.1 y hy))
        have htaken : ∀ y ∈ (x :: l).rtake n, decide (y ≥ c) = true :=
          fun y hy => hall y (List.mem_of_mem_drop hy)
        rw [List.countP_eq_length.2 htaken, List.countP_eq_length.2 hall, List.rtake,
          List.length_drop]
        omega
      · have hskip : (x :: l).countP (fun x => decide (x ≥ c)) =
            l.countP fun x => decide (x ≥ c) := by
          simp [hx]
        by_cases hlen : n ≤ l.length
        · have htail : (x :: l).rtake n = l.rtake n := by
            rw [List.rtake, List.rtake, List.length_cons, Nat.succ_sub hlen, List.drop_succ_cons]
          rw [htail, hskip]
          exact countP_rtake c n l hcons.2
        · have hwhole : (x :: l).rtake n = x :: l := by
            have hzero : (x :: l).length - n = 0 := by
              rw [List.length_cons]
              omega
            rw [List.rtake, hzero, List.drop_zero]
          have hle : l.countP (fun x => decide (x ≥ c)) ≤ l.length := List.countP_le_length
          rw [hwhole, hskip]
          omega

end Retained

/-- Appending to the bounded deque is appending to the history. -/
lemma recordTimestamp_rtake (arrivals : List Int) (ns : Int) :
    recordTimestamp (arrivals.rtake rateWindowMaxLen) ns =
      (arrivals ++ [ns]).rtake rateWindowMaxLen := by
  have hlen : (arrivals.rtake rateWindowMaxLen).length =
      min arrivals.length rateWindowMaxLen := by
    rw [List.rtake, List.length_drop]
    omega
  have hpos : 0 < rateWindowMaxLen := by decide
  rw [recordTimestamp, hlen]
  by_cases hroom : arrivals.length < rateWindowMaxLen
  · have hzero : arrivals.length - rateWindowMaxLen = 0 := by omega
    have hzero' : (arrivals ++ [ns]).length - rateWindowMaxLen = 0 := by
      rw [List.length_append, List.length_singleton]
      omega
    rw [if_pos (by omega), List.rtake, List.rtake, hzero, hzero', List.drop_zero, List.drop_zero]
  · have hone : (arrivals ++ [ns]).length - rateWindowMaxLen =
        arrivals.length - rateWindowMaxLen + 1 := by
      rw [List.length_append, List.length_singleton]
      omega
    have hin : arrivals.length - rateWindowMaxLen + 1 ≤ arrivals.length := by omega
    rw [if_neg (by omega), List.rtake, List.rtake, hone, List.drop_drop,
      List.drop_append_of_le_length hin]

/-- The arrival that an event adds to a stream. -/
def HealthEvent.arrival (key : StreamKey) : HealthEvent → Option Int
  | .record key' ns => if key' = key then some ns else none
  | .evaluate _ => none

/-- All arrivals of a stream in a run, in their order. -/
def history (key : StreamKey) (events : List HealthEvent) : List Int :=
  events.filterMap (HealthEvent.arrival key)

/-- A stream is known once it has an arrival, by its last arrivals. -/
theorem windows_healthRun (p : HealthParams) (key : StreamKey) (events : List HealthEvent) :
    (healthRun p events).windows.get? key =
      if history key events = [] then none
      else some ((history key events).rtake rateWindowMaxLen) := by
  induction events using List.reverseRecOn with
  | nil => rfl
  | append_singleton events e ih =>
      have hrun : healthRun p (events ++ [e]) = healthStep p (healthRun p events) e := by
        simp [healthRun, List.foldl_append]
      have hhistory : history key (events ++ [e]) =
          history key events ++ (e.arrival key).toList := by
        cases harrival : e.arrival key with
        | none => simp [history, harrival]
        | some ns => simp [history, harrival]
      rw [hrun, hhistory]
      cases e with
      | evaluate now =>
          rw [HealthEvent.arrival, Option.toList_none, List.append_nil]
          exact ih
      | record key' ns =>
          by_cases hkey : key' = key
          · subst hkey
            have hold : (healthRun p events).windows.getD key' [] =
                (history key' events).rtake rateWindowMaxLen := by
              rw [Dict.getD, ih]
              by_cases hnil : history key' events = []
              · rw [if_pos hnil, hnil, List.rtake_nil, Option.getD_none]
              · rw [if_neg hnil, Option.getD_some]
            have hset : (healthStep p (healthRun p events) (.record key' ns)).windows.get? key' =
                some (recordTimestamp ((healthRun p events).windows.getD key' []) ns) :=
              Dict.get?_set_self _ _ _
            rw [hset, hold, recordTimestamp_rtake, HealthEvent.arrival, if_pos rfl,
              Option.toList_some, if_neg (List.append_ne_nil_of_right_ne_nil _ (by simp))]
          · have hother : (healthStep p (healthRun p events) (.record key' ns)).windows.get? key =
                (healthRun p events).windows.get? key :=
              HealthTracker.windows_get?_record_ne _ (Ne.symm hkey) ns
            rw [hother, HealthEvent.arrival, if_neg hkey, Option.toList_none, List.append_nil]
            exact ih

/-! ## The two verdicts -/

/-- The number of arrivals in the last `windowS` seconds. -/
def lastCount (arrivals : List Int) (now windowS : Int) : ℕ :=
  arrivals.countP fun t => decide (now - windowS * 1000000000 ≤ t) && decide (t ≤ now)

/-- DOWN, by the rates over the full history. -/
def TrulyDown (arrivals : List Int) (now : Readings) : Prop :=
  0 < lastCount arrivals now.baseline 3600 ∧
    (lastCount arrivals now.recent 300 : ℚ) / 300 <
      1 / 10 * ((lastCount arrivals now.baseline 3600 : ℚ) / 3600)

/-- DOWN, as `evaluate()` with its defaults reports it after a run. -/
def ReportedDown (events : List HealthEvent) (now : StreamKey → Readings) (key : StreamKey) :
    Prop :=
  ∃ status ∈ ((healthRun {} events).evaluate {} now).2.get? key, status.up = false

section Verdict

variable {arrivals : List Int} {now : Readings} {recent baseline : ℕ}

/-- Both rates in whole numbers: 300 s against a tenth of 3600 s. -/
lemma rate_lt_iff (recent baseline : ℕ) :
    (recent : ℚ) / 300 < 1 / 10 * ((baseline : ℚ) / 3600) ↔ 120 * recent < baseline := by
  have hscale : (recent : ℚ) / 300 < 1 / 10 * ((baseline : ℚ) / 3600) ↔
      (120 * recent : ℚ) < baseline := by
    constructor
    · intro h
      linarith
    · intro h
      linarith
  rw [hscale]
  exact_mod_cast Iff.rfl

/-- The counts whose rate over 300 s is a tenth of the rate of 120 times as many over 3600 s, but
in doubles is below it. -/
def flippedTies : List ℕ :=
  [3, 6, 12, 17, 23, 24, 25, 27, 29, 31, 33, 34, 35, 37, 41, 45, 46, 48, 50, 54, 55, 58, 62, 63,
   66, 67, 68, 70, 71, 74, 77, 79, 82, 85, 90, 92, 93, 96, 97, 100, 105, 108, 110, 111, 113, 116,
   119, 124, 125, 126, 132, 134, 136, 139, 140, 141, 142, 147, 148, 149, 154, 158, 164]

/-- The comparison of `evaluate()` with its defaults, on the two counts. -/
def BelowThreshold (recent baseline : ℕ) : Prop :=
  double (recent / 300) < double (double (1 / 10) * double (baseline / 3600))

instance (recent baseline : ℕ) : Decidable (BelowThreshold recent baseline) :=
  inferInstanceAs (Decidable (_ < _))

/-- The threshold in doubles is within three roundings of a tenth of the baseline rate. -/
lemma threshold_bounds (baseline : ℕ) :
    (baseline : ℚ) / 36000 * (1 - 1 / 2 ^ 53) ^ 3 ≤
        double (double (1 / 10) * double (baseline / 3600)) ∧
      double (double (1 / 10) * double (baseline / 3600)) ≤
        (baseline : ℚ) / 36000 * (1 + 1 / 2 ^ 53) ^ 3 := by
  have hrate : (0 : ℚ) ≤ (baseline : ℚ) / 3600 := div_nonneg (Nat.cast_nonneg _) (by norm_num)
  have htenth := double_bounds (x := 1 / 10) (by norm_num)
  have hbaseline := double_bounds hrate
  have htenth' : (0 : ℚ) ≤ double (1 / 10) := double_nonneg (by norm_num)
  have hproduct := double_bounds (mul_nonneg htenth' (double_nonneg hrate))
  constructor
  · calc
      (baseline : ℚ) / 36000 * (1 - 1 / 2 ^ 53) ^ 3
          = 1 / 10 * (1 - 1 / 2 ^ 53) * ((baseline : ℚ) / 3600 * (1 - 1 / 2 ^ 53)) *
              (1 - 1 / 2 ^ 53) := by ring
      _ ≤ double (1 / 10) * double (baseline / 3600) * (1 - 1 / 2 ^ 53) := by
          refine mul_le_mul_of_nonneg_right ?_ (by norm_num)
          exact mul_le_mul htenth.1 hbaseline.1 (mul_nonneg hrate (by norm_num)) htenth'
      _ ≤ double (double (1 / 10) * double (baseline / 3600)) := hproduct.1
  · calc
      double (double (1 / 10) * double (baseline / 3600))
          ≤ double (1 / 10) * double (baseline / 3600) * (1 + 1 / 2 ^ 53) := hproduct.2
      _ ≤ 1 / 10 * (1 + 1 / 2 ^ 53) * ((baseline : ℚ) / 3600 * (1 + 1 / 2 ^ 53)) *
            (1 + 1 / 2 ^ 53) := by
          refine mul_le_mul_of_nonneg_right ?_ (by norm_num)
          exact mul_le_mul htenth.2 hbaseline.2 (double_nonneg hrate) (by norm_num)
      _ = (baseline : ℚ) / 36000 * (1 + 1 / 2 ^ 53) ^ 3 := by ring

/-- Different rates of at most 20000 messages an hour are further apart than all rounding. -/
lemma belowThreshold_iff_of_ne {recent baseline : ℕ} (hlen : baseline ≤ rateWindowMaxLen)
    (hne : baseline ≠ 120 * recent) :
    BelowThreshold recent baseline ↔ 120 * recent < baseline := by
  have hlen' : (baseline : ℚ) ≤ 20000 := by exact_mod_cast hlen
  have hrate := double_bounds (x := (recent : ℚ) / 300)
    (div_nonneg (Nat.cast_nonneg _) (by norm_num))
  have hthreshold := threshold_bounds baseline
  have hnonneg : (0 : ℚ) ≤ recent := Nat.cast_nonneg _
  constructor
  · intro hbelow
    by_contra hnot
    have hgap : baseline + 1 ≤ 120 * recent := by omega
    have hgap' : (baseline : ℚ) + 1 ≤ 120 * recent := by exact_mod_cast hgap
    unfold BelowThreshold at hbelow
    norm_num at hrate hthreshold
    linarith
  · intro hlt
    have hgap' : (120 * recent : ℚ) + 1 ≤ baseline := by exact_mod_cast hlt
    unfold BelowThreshold
    norm_num at hrate hthreshold ⊢
    linarith

/-- The equal rates that the deque can hold: an evaluation of both sides for each count. -/
lemma belowThreshold_tie_iff {recent : ℕ} (hlen : 120 * recent ≤ rateWindowMaxLen) :
    BelowThreshold recent (120 * recent) ↔ recent ∈ flippedTies := by
  have hall : ∀ n < 167, (BelowThreshold n (120 * n) ↔ n ∈ flippedTies) := by decide +kernel
  have hmax : rateWindowMaxLen = 20000 := rfl
  exact hall recent (by omega)

/-- On the counts of a deque the doubles are wrong about the flipped ties only. -/
lemma belowThreshold_iff {recent baseline : ℕ} (hlen : baseline ≤ rateWindowMaxLen) :
    BelowThreshold recent baseline ↔
      120 * recent < baseline ∨ baseline = 120 * recent ∧ recent ∈ flippedTies := by
  by_cases htie : baseline = 120 * recent
  · subst htie
    rw [belowThreshold_tie_iff hlen]
    simp
  · rw [belowThreshold_iff_of_ne hlen htie]
    simp [htie]

lemma trulyDown_iff :
    TrulyDown arrivals now ↔
      120 * lastCount arrivals now.recent 300 < lastCount arrivals now.baseline 3600 := by
  rw [TrulyDown, rate_lt_iff]
  constructor
  · intro h
    exact h.2
  · intro h
    exact ⟨lt_of_le_of_lt (Nat.zero_le _) h, h⟩

/-- Arrivals that are not later than the reading are counted by their lower bound alone. -/
lemma countInWindow_rtake {reading windowS : Int} (hsorted : arrivals.Pairwise (· ≤ ·))
    (hpast : ∀ t ∈ arrivals, t ≤ reading) :
    countInWindow (arrivals.rtake rateWindowMaxLen) reading (windowS * 1000000000) =
      min (lastCount arrivals reading windowS) rateWindowMaxLen := by
  have hcount : lastCount arrivals reading windowS =
      arrivals.countP fun t => decide (t ≥ reading - windowS * 1000000000) := by
    refine List.countP_congr ?_
    intro t ht
    simp [hpast t ht]
  rw [hcount]
  exact countP_rtake _ _ arrivals hsorted

/-- The verdict on the last arrivals compares the counts cut off at the length of the deque. -/
lemma statusOf_rtake_down_iff
    (hclock : (arrivals ++ [now.recent, now.baseline]).Pairwise (· ≤ ·)) :
    (HealthTracker.statusOf {} now (arrivals.rtake rateWindowMaxLen)).up = false ↔
      BelowThreshold (min (lastCount arrivals now.recent 300) rateWindowMaxLen)
        (min (lastCount arrivals now.baseline 3600) rateWindowMaxLen) := by
  have happend := List.pairwise_append.1 hclock
  have hrecent : countInWindow (arrivals.rtake rateWindowMaxLen) now.recent (300 * 1000000000) =
      min (lastCount arrivals now.recent 300) rateWindowMaxLen :=
    countInWindow_rtake happend.1 fun t ht => happend.2.2 t ht _ (by simp)
  have hbaseline :
      countInWindow (arrivals.rtake rateWindowMaxLen) now.baseline (3600 * 1000000000) =
        min (lastCount arrivals now.baseline 3600) rateWindowMaxLen :=
    countInWindow_rtake happend.1 fun t ht => happend.2.2 t ht _ (by simp)
  have hsecs : double (((300 * 1000000000 : Int) : ℚ) / 1000000000) = 300 ∧
      double (((3600 * 1000000000 : Int) : ℚ) / 1000000000) = 3600 := by
    decide +kernel
  rw [statusOf_down_iff, ratePerSec_eq, ratePerSec_eq, hrecent, hbaseline, hsecs.1, hsecs.2]
  constructor
  · intro h
    exact h.2
  · intro h
    refine ⟨?_, h⟩
    -- An empty baseline has nothing below it.
    intro hzero
    have hnonneg : (0 : ℚ) ≤
        double ((min (lastCount arrivals now.recent 300) rateWindowMaxLen : ℕ) / 300) :=
      double_nonneg (div_nonneg (Nat.cast_nonneg _) (by norm_num))
    rw [BelowThreshold, hzero, mul_zero, double_zero] at h
    exact absurd h (not_lt.2 hnonneg)

end Verdict

lemma reportedDown_iff {events : List HealthEvent} {key : StreamKey} {now : StreamKey → Readings}
    (hclock : (history key events ++ [(now key).recent, (now key).baseline]).Pairwise (· ≤ ·)) :
    ReportedDown events now key ↔
      BelowThreshold (min (lastCount (history key events) (now key).recent 300) rateWindowMaxLen)
        (min (lastCount (history key events) (now key).baseline 3600) rateWindowMaxLen) := by
  rw [← statusOf_rtake_down_iff hclock, ReportedDown, HealthTracker.evaluate_report,
    windows_healthRun]
  by_cases hnil : history key events = []
  · rw [if_pos hnil, hnil]
    constructor
    · rintro ⟨status, hstatus, _⟩
      cases hstatus
    · intro h
      rw [List.rtake_nil, statusOf_down_iff] at h
      exact absurd rfl h.1
  · rw [if_neg hnil]
    simp

/-- For a stream whose clock does not go back, the verdict is that of the full history unless the
rates are equal at a flipped tie, or more than 166 messages are recent and the last hour holds more
than 120 times as many. -/
theorem verdict_faithful_iff (events : List HealthEvent) (key : StreamKey)
    (now : StreamKey → Readings)
    (hclock : (history key events ++ [(now key).recent, (now key).baseline]).Pairwise (· ≤ ·)) :
    (ReportedDown events now key ↔ TrulyDown (history key events) (now key)) ↔
      (lastCount (history key events) (now key).recent 300 ≤ 166 →
        lastCount (history key events) (now key).baseline 3600 =
            120 * lastCount (history key events) (now key).recent 300 →
          lastCount (history key events) (now key).recent 300 ∉ flippedTies) ∧
      (166 < lastCount (history key events) (now key).recent 300 →
        lastCount (history key events) (now key).baseline 3600 ≤
          120 * lastCount (history key events) (now key).recent 300) := by
  have hmax : rateWindowMaxLen = 20000 := rfl
  rw [reportedDown_iff hclock, trulyDown_iff, belowThreshold_iff (min_le_right _ _), hmax]
  generalize lastCount (history key events) (now key).recent 300 = recent
  generalize lastCount (history key events) (now key).baseline 3600 = baseline
  by_cases hfew : recent ≤ 166
  · -- The deque holds the recent messages, and enough of the others.
    have hkept : min recent 20000 = recent := by omega
    have htie : min baseline 20000 = 120 * recent ↔ baseline = 120 * recent := by omega
    have hlt : 120 * recent < min baseline 20000 ↔ 120 * recent < baseline := by omega
    rw [hkept, htie, hlt]
    by_cases hequal : baseline = 120 * recent
    · simp [hequal, hfew, Nat.not_lt.2 hfew]
    · simp [hequal, Nat.not_lt.2 hfew]
  · -- A full deque of old messages cannot outweigh this many recent ones.
    have hnot : ¬ 120 * min recent 20000 < min baseline 20000 := by omega
    have htie : ¬ min baseline 20000 = 120 * min recent 20000 := by omega
    simp only [hnot, htie, hfew, false_and, or_self, false_iff, not_lt, false_imp_iff, true_and]
    omega

/-- 241 messages of which one is recent, beside another stream and an evaluation on the way: both
verdicts are DOWN. -/
theorem verdict_faithful_burst :
    let key : StreamKey := ("okx", "BTC-USD", "trades")
    let events := List.replicate 240 (HealthEvent.record key 0) ++
      [.evaluate fun _ => ⟨200000000000, 200000000000⟩,
        .record ("kraken", "BTC-USD", "trades") 3000000000000, .record key 3500000000000]
    let now : Readings := ⟨3600000000000, 3600000000000⟩
    (ReportedDown events (fun _ => now) key ↔ TrulyDown (history key events) now) ∧
      TrulyDown (history key events) now := by
  intro key events now
  have hclock : (history key events ++ [now.recent, now.baseline]).Pairwise (· ≤ ·) := by
    decide +kernel
  have hrecent : lastCount (history key events) now.recent 300 = 1 := by decide +kernel
  have hbaseline : lastCount (history key events) now.baseline 3600 = 241 := by decide +kernel
  refine ⟨(verdict_faithful_iff events key (fun _ => now) hclock).2 ⟨?_, ?_⟩, ?_⟩
  · intro _ hequal
    rw [hrecent, hbaseline] at hequal
    exact absurd hequal (by decide)
  · intro hmany
    rw [hrecent] at hmany
    exact absurd hmany (by decide)
  · rw [trulyDown_iff, hrecent, hbaseline]
    decide

/-- Three messages of the last 360 are recent, exactly a tenth of the hourly rate: not DOWN, and
reported DOWN because `0.1 * (360 / 3600)` is above `3 / 300` in doubles. -/
example :
    let key : StreamKey := ("okx", "BTC-USD", "trades")
    let events := List.replicate 357 (HealthEvent.record key 0) ++
      List.replicate 3 (HealthEvent.record key 3500000000000)
    let now : Readings := ⟨3600000000000, 3600000000000⟩
    ((healthRun {} events).evaluate {} fun _ => now).2.get? key =
      some ⟨double (3 / 300), double (360 / 3600), false⟩ := by
  decide +kernel

/-- 20041 messages at the start of the hour, 167 in its last five minutes: a rate below a tenth of
the baseline, and reported up. -/
theorem busy_stream_reported_up :
    let key : StreamKey := ("okx", "BTC-USD", "trades")
    let events := List.replicate 20041 (HealthEvent.record key 0) ++
      List.replicate 167 (HealthEvent.record key 3500000000000)
    let now : Readings := ⟨3600000000000, 3600000000000⟩
    TrulyDown (history key events) now ∧ ¬ ReportedDown events (fun _ => now) key := by
  intro key events now
  have hburst : ∀ (n : ℕ) (t : Int),
      history key (List.replicate n (HealthEvent.record key t)) = List.replicate n t := by
    intro n t
    refine List.filterMap_replicate_of_some ?_
    rw [HealthEvent.arrival, if_pos rfl]
  have hhistory : history key events =
      List.replicate 20041 0 ++ List.replicate 167 3500000000000 := by
    rw [← hburst, ← hburst]
    exact List.filterMap_append
  have hrecent : lastCount (history key events) now.recent 300 = 167 := by
    rw [hhistory, lastCount, List.countP_append, List.countP_replicate, List.countP_replicate]
    rfl
  have hbaseline : lastCount (history key events) now.baseline 3600 = 20208 := by
    rw [hhistory, lastCount, List.countP_append, List.countP_replicate, List.countP_replicate]
    rfl
  have hclock : (history key events ++ [now.recent, now.baseline]).Pairwise (· ≤ ·) := by
    have hbounds : ∀ t ∈ List.replicate 20041 (0 : Int) ++ List.replicate 167 3500000000000,
        t ≤ 3600000000000 := by
      intro t ht
      rcases List.mem_append.1 ht with ht | ht
      · rw [List.eq_of_mem_replicate ht]
        decide
      · rw [List.eq_of_mem_replicate ht]
        decide
    rw [hhistory]
    refine List.pairwise_append.2 ⟨List.pairwise_append.2 ⟨?_, ?_, ?_⟩, by decide, ?_⟩
    · exact List.pairwise_replicate.2 (Or.inr (le_refl 0))
    · exact List.pairwise_replicate.2 (Or.inr (le_refl _))
    · intro x hx y hy
      rw [List.eq_of_mem_replicate hx, List.eq_of_mem_replicate hy]
      decide
    · intro x hx y hy
      have hy' : y = 3600000000000 := by simpa [now] using hy
      rw [hy']
      exact hbounds x hx
  have hmax : rateWindowMaxLen = 20000 := rfl
  have hheld : ¬ BelowThreshold (min 167 rateWindowMaxLen) (min 20208 rateWindowMaxLen) := by
    decide +kernel
  rw [trulyDown_iff, reportedDown_iff hclock, hrecent, hbaseline]
  exact ⟨by decide, hheld⟩

end CryptoData
