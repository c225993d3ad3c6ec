import CryptoData.Foundation.Binary64
import CryptoData.Foundation.Dict
import Mathlib.Algebra.Order.Field.Basic
import Mathlib.Algebra.Order.Ring.Rat
import Mathlib.Data.String.Basic
import Mathlib.Tactic.Linarith

/-!
# Health — message rates and the DOWN verdict

A `HealthTracker` keeps the arrival times of each stream in a bounded deque.  `evaluate` compares
the rate over a recent window with the rate over a longer baseline window; both windows end at the
time of the evaluation, so both counts decay while a feed is silent.  Rates are doubles: every
quotient and product is rounded (`double`).

The verdict of an evaluation is a function of the retained arrival times and of two clock readings
(`evaluate_report`).  What that means for a silent feed is `down_until_aged`: it is reported DOWN
as long as its baseline has not aged, or as long as its recent window is empty and its baseline
window is not; once its last message leaves the baseline window it is reported up again.
-/

namespace CryptoData

open Foundation

/-! ## The algorithm -/

/-- `(venue, symbol, stream)`. -/
abbrev StreamKey := String × String × String

/-- The `maxlen` of the deque of a `_RateWindow`. -/
def rateWindowMaxLen : ℕ := 20000

/-- `self.timestamps.append(ns)` on a bounded deque: the oldest entry makes room. -/
def recordTimestamp (timestamps : List Int) (ns : Int) : List Int :=
  if timestamps.length < rateWindowMaxLen then timestamps ++ [ns]
  else timestamps.drop 1 ++ [ns]

/-- `rate_per_sec(window_ns)` at the clock reading `now`. -/
def ratePerSec (timestamps : List Int) (now windowNs : Int) : ℚ :=
  if timestamps.isEmpty then
    0
  else
    let cutoff := now - windowNs
    let count := timestamps.countP fun t => decide (t ≥ cutoff)
    double (count / double ((windowNs : ℚ) / 1000000000))

structure HealthTracker where
  windows : Dict StreamKey (List Int)
  down : Dict StreamKey Bool

/-- The keyword arguments of `evaluate`. -/
structure HealthParams where
  recentWindowS : Int := 300
  baselineWindowS : Int := 3600
  thresholdRatio : ℚ := double (1 / 10)

structure HealthStatus where
  recentPerS : ℚ
  baselinePerS : ℚ
  up : Bool
  deriving DecidableEq, Repr

/-- The two clock readings that an evaluation takes for one stream. -/
structure Readings where
  recent : Int
  baseline : Int

namespace HealthTracker

def init : HealthTracker :=
  ⟨Dict.empty, Dict.empty⟩

/-- `record(venue, symbol, stream)` at the clock reading `ns`. -/
def record (s : HealthTracker) (key : StreamKey) (ns : Int) : HealthTracker :=
  { s with windows := s.windows.set key (recordTimestamp (s.windows.getD key []) ns) }

/-- One entry of the report. -/
def statusOf (p : HealthParams) (now : Readings) (timestamps : List Int) : HealthStatus :=
  let recent := ratePerSec timestamps now.recent (p.recentWindowS * 1000000000)
  let baseline := ratePerSec timestamps now.baseline (p.baselineWindowS * 1000000000)
  { recentPerS := recent
    baselinePerS := baseline
    -- An empty baseline counts as up.
    up := decide (baseline = 0 ∨ recent ≥ double (p.thresholdRatio * baseline)) }

/-- `evaluate(...)`: the tracker with its new `_down` map, and the report. -/
def evaluate (p : HealthParams) (now : StreamKey → Readings) (s : HealthTracker) :
    HealthTracker × Dict StreamKey HealthStatus :=
  let report := s.windows.mapValues fun key timestamps => statusOf p (now key) timestamps
  ({ s with down := report.entries.foldl (fun down e => down.set e.1 !e.2.up) s.down }, report)

/-- `self._down.get(key, False)`. -/
def isDown (s : HealthTracker) (key : StreamKey) : Bool :=
  s.down.getD key false

end HealthTracker

/-! ## Runs -/

inductive HealthEvent
  | record (key : StreamKey) (ns : Int)
  | evaluate (now : StreamKey → Readings)

def healthStep (p : HealthParams) (s : HealthTracker) : HealthEvent → HealthTracker
  | .record key ns => s.record key ns
  | .evaluate now => (s.evaluate p now).1

def healthRun (p : HealthParams) (events : List HealthEvent) : HealthTracker :=
  events.foldl (healthStep p) HealthTracker.init

/-- The retained arrival times of a stream. -/
def HealthTracker.arrivals (s : HealthTracker) (key : StreamKey) : List Int :=
  s.windows.getD key []

namespace HealthTracker

/-- The report has one entry per recorded stream, computed from its arrivals alone. -/
theorem evaluate_report (p : HealthParams) (now : StreamKey → Readings) (s : HealthTracker)
    (key : StreamKey) :
    (s.evaluate p now).2.get? key = (s.windows.get? key).map (statusOf p (now key)) :=
  Dict.get?_mapValues _ _ _

/-- `_down` repeats the report for the streams in it and is unchanged elsewhere. -/
theorem isDown_evaluate (p : HealthParams) (now : StreamKey → Readings) (s : HealthTracker)
    (key : StreamKey) :
    (s.evaluate p now).1.isDown key =
      match (s.evaluate p now).2.get? key with
      | some status => !status.up
      | none => s.isDown key := by
  have hfold := Dict.get?_foldl_set Prod.fst
    (fun e : StreamKey × HealthStatus => !e.2.up) key (s.evaluate p now).2.entries s.down
    (s.evaluate p now).2.nodup
  have hdown : (s.evaluate p now).1.down.get? key =
      (((s.evaluate p now).2.entries.find? fun e => decide (e.1 = key)).map
        fun e => !e.2.up).or (s.down.get? key) := hfold
  unfold isDown Dict.getD
  rw [hdown]
  unfold Dict.get?
  cases ((s.evaluate p now).2.entries.find? fun e => decide (e.1 = key)) with
  | none => rfl
  | some e => rfl

/-- Only a message of the stream itself changes its arrivals. -/
lemma windows_get?_record_ne (s : HealthTracker) {key key' : StreamKey} (h : key ≠ key')
    (ns : Int) : (s.record key' ns).windows.get? key = s.windows.get? key :=
  Dict.get?_set_ne _ _ h

end HealthTracker

/-! ## Rates -/

section Rates

variable {timestamps : List Int} {now now' windowNs : Int}

/-- The number of arrivals in the window that ends at `now`. -/
def countInWindow (timestamps : List Int) (now windowNs : Int) : ℕ :=
  timestamps.countP fun t => decide (t ≥ now - windowNs)

lemma ratePerSec_eq (timestamps : List Int) (now windowNs : Int) :
    ratePerSec timestamps now windowNs =
      double (countInWindow timestamps now windowNs / double ((windowNs : ℚ) / 1000000000)) := by
  cases timestamps with
  | nil => simp [ratePerSec, countInWindow]
  | cons t ts => rfl

lemma window_pos (hw : 0 < windowNs) : (0 : ℚ) < double ((windowNs : ℚ) / 1000000000) :=
  double_pos (div_pos (by exact_mod_cast hw) (by norm_num))

lemma quotient_nonneg (hw : 0 < windowNs) :
    0 ≤ (countInWindow timestamps now windowNs : ℚ) / double ((windowNs : ℚ) / 1000000000) :=
  div_nonneg (Nat.cast_nonneg _) (window_pos hw).le

lemma ratePerSec_nonneg (hw : 0 < windowNs) : 0 ≤ ratePerSec timestamps now windowNs := by
  rw [ratePerSec_eq]
  exact double_nonneg (quotient_nonneg hw)

lemma ratePerSec_eq_zero_iff (hw : 0 < windowNs) :
    ratePerSec timestamps now windowNs = 0 ↔ ∀ t ∈ timestamps, t < now - windowNs := by
  rw [ratePerSec_eq, double_eq_zero_iff (quotient_nonneg hw), div_eq_zero_iff]
  have hne := (window_pos hw).ne'
  simp only [hne, or_false, Nat.cast_eq_zero, countInWindow, List.countP_eq_zero, ge_iff_le,
    decide_eq_true_eq, not_le]

lemma ratePerSec_pos_iff (hw : 0 < windowNs) :
    0 < ratePerSec timestamps now windowNs ↔ ∃ t ∈ timestamps, now - windowNs ≤ t := by
  rw [(ratePerSec_nonneg hw).lt_iff_ne, ne_comm, Ne, ratePerSec_eq_zero_iff hw]
  simp

/-- A rate can only grow with the set of arrivals that its window counts. -/
lemma ratePerSec_le_of_subset (hw : 0 < windowNs)
    (h : ∀ t ∈ timestamps, now - windowNs ≤ t → now' - windowNs ≤ t) :
    ratePerSec timestamps now windowNs ≤ ratePerSec timestamps now' windowNs := by
  have hcount : countInWindow timestamps now windowNs ≤
      countInWindow timestamps now' windowNs := by
    apply List.countP_mono_left
    intro t ht hin
    have hin' : now - windowNs ≤ t := by simpa using hin
    simpa using h t ht hin'
  rw [ratePerSec_eq, ratePerSec_eq]
  refine double_mono (quotient_nonneg hw) ?_
  exact div_le_div_of_nonneg_right (by exact_mod_cast hcount) (window_pos hw).le

end Rates

/-! ## A silent feed -/

section Silent

variable (p : HealthParams)

/-- The last message has left the baseline window. -/
def AgedOut (arrivals : List Int) (now : Readings) : Prop :=
  ∀ t ∈ arrivals, t < now.baseline - p.baselineWindowS * 1000000000

/-- Nothing that the baseline counted at `now₀` has left it at `now`; or the recent window is empty
and the baseline window is not. -/
def StillHeld (arrivals : List Int) (now₀ now : Readings) : Prop :=
  (∀ t ∈ arrivals, now₀.baseline - p.baselineWindowS * 1000000000 ≤ t →
      now.baseline - p.baselineWindowS * 1000000000 ≤ t) ∨
    (∀ t ∈ arrivals, t < now.recent - p.recentWindowS * 1000000000) ∧
      ∃ t ∈ arrivals, now.baseline - p.baselineWindowS * 1000000000 ≤ t

variable {p} {arrivals : List Int} {now₀ now : Readings}

open HealthTracker

lemma statusOf_down_iff :
    (statusOf p now arrivals).up = false ↔
      ratePerSec arrivals now.baseline (p.baselineWindowS * 1000000000) ≠ 0 ∧
        ratePerSec arrivals now.recent (p.recentWindowS * 1000000000) <
          double (p.thresholdRatio *
            ratePerSec arrivals now.baseline (p.baselineWindowS * 1000000000)) := by
  simp [statusOf]

/-- The explicit guard: an empty baseline is never DOWN. -/
theorem statusOf_up_of_agedOut (hbaseline : 0 < p.baselineWindowS)
    (h : AgedOut p arrivals now) : (statusOf p now arrivals).up = true := by
  have hw : 0 < p.baselineWindowS * 1000000000 := by linarith
  have hzero : ratePerSec arrivals now.baseline (p.baselineWindowS * 1000000000) = 0 :=
    (ratePerSec_eq_zero_iff hw).2 h
  simp [statusOf, hzero]

/-- One later evaluation of a stream that was DOWN and has been silent since. -/
theorem statusOf_down_of_stillHeld (hrecent : 0 < p.recentWindowS)
    (hbaseline : 0 < p.baselineWindowS) (hratio : 0 < p.thresholdRatio)
    (hle : now₀.recent ≤ now.recent) (hdown : (statusOf p now₀ arrivals).up = false)
    (hheld : StillHeld p arrivals now₀ now) : (statusOf p now arrivals).up = false := by
  have hR : 0 < p.recentWindowS * 1000000000 := by linarith
  have hB : 0 < p.baselineWindowS * 1000000000 := by linarith
  rcases statusOf_down_iff.1 hdown with ⟨hne, hlt⟩
  refine statusOf_down_iff.2 ?_
  rcases hheld with hkept | ⟨hquiet, hsome⟩
  · -- The recent count can only have fallen, and the baseline count has not.
    have hfall : ratePerSec arrivals now.recent (p.recentWindowS * 1000000000) ≤
        ratePerSec arrivals now₀.recent (p.recentWindowS * 1000000000) := by
      apply ratePerSec_le_of_subset hR
      intro t _ ht
      linarith
    -- Every arrival that the baseline counted at the report is still counted.
    have hstay : ratePerSec arrivals now₀.baseline (p.baselineWindowS * 1000000000) ≤
        ratePerSec arrivals now.baseline (p.baselineWindowS * 1000000000) :=
      ratePerSec_le_of_subset hB hkept
    have hpos : 0 < ratePerSec arrivals now₀.baseline (p.baselineWindowS * 1000000000) :=
      lt_of_le_of_ne (ratePerSec_nonneg hB) (Ne.symm hne)
    refine ⟨(lt_of_lt_of_le hpos hstay).ne', ?_⟩
    calc
      ratePerSec arrivals now.recent (p.recentWindowS * 1000000000)
          ≤ ratePerSec arrivals now₀.recent (p.recentWindowS * 1000000000) := hfall
      _ < double (p.thresholdRatio *
            ratePerSec arrivals now₀.baseline (p.baselineWindowS * 1000000000)) := hlt
      _ ≤ double (p.thresholdRatio *
            ratePerSec arrivals now.baseline (p.baselineWindowS * 1000000000)) :=
          double_mono (mul_nonneg hratio.le hpos.le) (mul_le_mul_of_nonneg_left hstay hratio.le)
  -- Nothing recent against something in the baseline.
  · have hzero := (ratePerSec_eq_zero_iff hR).2 hquiet
    have hpos := (ratePerSec_pos_iff hB).2 hsome
    exact ⟨hpos.ne', by simpa [hzero] using double_pos (mul_pos hratio hpos)⟩

/-- A stretch of the run in which the stream has no message leaves its arrivals alone. -/
lemma windows_get?_silent (p : HealthParams) (key : StreamKey) :
    ∀ (later : List HealthEvent) (s : HealthTracker),
      (∀ ns, HealthEvent.record key ns ∉ later) →
        (later.foldl (healthStep p) s).windows.get? key = s.windows.get? key
  | [], _, _ => rfl
  | e :: later, s, hsilent => by
      have hrest : ∀ ns, HealthEvent.record key ns ∉ later := fun ns h =>
        hsilent ns (List.mem_cons_of_mem e h)
      have hstep : (healthStep p s e).windows.get? key = s.windows.get? key := by
        cases e with
        | record key' ns =>
            have hne : key ≠ key' := by
              intro heq
              exact hsilent ns (by simp [heq])
            exact windows_get?_record_ne s hne ns
        | evaluate now => rfl
      rw [List.foldl_cons, windows_get?_silent p key later _ hrest, hstep]

/-- What one later evaluation says about a stream that is silent since it was reported DOWN. -/
lemma evaluate_silent (key : StreamKey) (s₀ s : HealthTracker) (now : StreamKey → Readings)
    (hsame : s.windows.get? key = s₀.windows.get? key) {arrivals : List Int}
    (harrivals : s₀.windows.get? key = some arrivals) :
    (s.evaluate p now).2.get? key = some (statusOf p (now key) arrivals) ∧
      (s.evaluate p now).1.isDown key = !(statusOf p (now key) arrivals).up := by
  have hreport : (s.evaluate p now).2.get? key = some (statusOf p (now key) arrivals) := by
    rw [evaluate_report, hsame, harrivals]
    rfl
  refine ⟨hreport, ?_⟩
  rw [isDown_evaluate, hreport]

/-- Over a silent stretch whose evaluations are all still held, `is_down` stays true. -/
lemma isDown_silent_run (hrecent : 0 < p.recentWindowS) (hbaseline : 0 < p.baselineWindowS)
    (hratio : 0 < p.thresholdRatio) {key : StreamKey} {now₀ : Readings} {arrivals : List Int}
    (hdown : (statusOf p now₀ arrivals).up = false) :
    ∀ (later : List HealthEvent) (s : HealthTracker), s.windows.get? key = some arrivals →
      s.isDown key = true → (∀ ns, HealthEvent.record key ns ∉ later) →
        (∀ now, HealthEvent.evaluate now ∈ later → now₀.recent ≤ (now key).recent ∧
          StillHeld p arrivals now₀ (now key)) →
        (later.foldl (healthStep p) s).isDown key = true
  | [], _, _, hs, _, _ => hs
  | e :: later, s, harrivals, hs, hsilent, hheld => by
      have hsilent' : ∀ ns, HealthEvent.record key ns ∉ later := fun ns h =>
        hsilent ns (List.mem_cons_of_mem e h)
      have hstep : (healthStep p s e).windows.get? key = some arrivals := by
        have hone := windows_get?_silent p key [e] s fun ns h =>
          hsilent ns (List.mem_cons.2 (Or.inl (List.mem_singleton.1 h)))
        simpa [harrivals] using hone
      -- A record of another stream leaves the flag; an evaluation repeats the verdict.
      have hstay : (healthStep p s e).isDown key = true := by
        cases e with
        | record key' ns => exact hs
        | evaluate now =>
            have hnow := hheld now List.mem_cons_self
            have hverdict := statusOf_down_of_stillHeld hrecent hbaseline hratio hnow.1 hdown hnow.2
            have heval := (evaluate_silent (p := p) key s s now rfl harrivals).2
            simpa [healthStep, hverdict] using heval
      exact isDown_silent_run hrecent hbaseline hratio hdown later _ hstep hstay hsilent'
        fun now h => hheld now (List.mem_cons_of_mem e h)

end Silent

/-- A stream that was reported DOWN and is silent since: at every later evaluation it is DOWN again
if the verdict is still held and up again if its last message has aged out, and `is_down` stays
true over every stretch of held evaluations. -/
theorem down_until_aged (p : HealthParams) (hrecent : 0 < p.recentWindowS)
    (hwindows : p.recentWindowS < p.baselineWindowS) (hratio : 0 < p.thresholdRatio)
    (before later : List HealthEvent) (key : StreamKey) (now₀ : StreamKey → Readings)
    (status : HealthStatus)
    (hreport : ((healthRun p before).evaluate p now₀).2.get? key = some status)
    (hdown : status.up = false) (hsilent : ∀ ns, HealthEvent.record key ns ∉ later)
    (htimes : ∀ now, HealthEvent.evaluate now ∈ later →
      (now₀ key).recent ≤ (now key).recent) :
    (∀ mid now rest, later = mid ++ HealthEvent.evaluate now :: rest →
      ∃ status',
        ((healthRun p (before ++ HealthEvent.evaluate now₀ :: mid)).evaluate p now).2.get? key =
          some status' ∧
        (((healthRun p (before ++ HealthEvent.evaluate now₀ :: mid)).evaluate p now).1.isDown key =
          !status'.up) ∧
        (StillHeld p ((healthRun p before).arrivals key) (now₀ key) (now key) →
          status'.up = false) ∧
        (AgedOut p ((healthRun p before).arrivals key) (now key) → status'.up = true)) ∧
      ((∀ now, HealthEvent.evaluate now ∈ later →
          StillHeld p ((healthRun p before).arrivals key) (now₀ key) (now key)) →
        (healthRun p (before ++ HealthEvent.evaluate now₀ :: later)).isDown key = true) := by
  have hbaseline : 0 < p.baselineWindowS := lt_trans hrecent hwindows
  rw [HealthTracker.evaluate_report] at hreport
  rcases Option.map_eq_some_iff.1 hreport with ⟨arrivals, harrivals, rfl⟩
  have hsame : (healthRun p before).arrivals key = arrivals := by
    simp [HealthTracker.arrivals, Dict.getD, harrivals]
  have hsplit : ∀ events, healthRun p (before ++ HealthEvent.evaluate now₀ :: events) =
      events.foldl (healthStep p) ((healthRun p before).evaluate p now₀).1 := by
    intro events
    simp [healthRun, List.foldl_append, healthStep]
  rw [hsame]
  constructor
  · intro mid now rest hlater
    have hmem : HealthEvent.evaluate now ∈ later := by simp [hlater]
    have hmid : ∀ ns, HealthEvent.record key ns ∉ mid := fun ns h =>
      hsilent ns (by simp [hlater, h])
    -- Silence keeps the arrivals that the report was computed from.
    have hkept := windows_get?_silent p key mid ((healthRun p before).evaluate p now₀).1 hmid
    rcases evaluate_silent (p := p) key (healthRun p before) _ now hkept harrivals with
      ⟨hget, hflag⟩
    refine ⟨HealthTracker.statusOf p (now key) arrivals, ?_, ?_, ?_, ?_⟩
    · rw [hsplit]
      exact hget
    · rw [hsplit]
      exact hflag
    · intro hheld
      exact statusOf_down_of_stillHeld hrecent hbaseline hratio (htimes now hmem) hdown hheld
    · intro haged
      exact statusOf_up_of_agedOut hbaseline haged
  · intro hheld
    rw [hsplit]
    refine isDown_silent_run hrecent hbaseline hratio hdown later _ harrivals ?_ hsilent ?_
    · have hflag := (evaluate_silent (p := p) key (healthRun p before) (healthRun p before) now₀ rfl
        harrivals).2
      simpa [hdown] using hflag
    · intro now hnow
      exact ⟨htimes now hnow, hheld now hnow⟩

/-- One message at time 0, DOWN after 1000 s and still DOWN after 2000 s. -/
theorem down_until_aged_sample :
    (healthRun {} [HealthEvent.record ("okx", "BTC-USD", "trades") 0,
      HealthEvent.evaluate fun _ => ⟨1000000000000, 1000000000000⟩,
      HealthEvent.evaluate fun _ => ⟨2000000000000, 2000000000000⟩]).isDown
        ("okx", "BTC-USD", "trades") = true := by
  have hrun := down_until_aged {} (by decide) (by decide) (by decide +kernel)
    [HealthEvent.record ("okx", "BTC-USD", "trades") 0]
    [HealthEvent.evaluate fun _ => ⟨2000000000000, 2000000000000⟩] ("okx", "BTC-USD", "trades")
    (fun _ => ⟨1000000000000, 1000000000000⟩)
    (HealthTracker.statusOf {} ⟨1000000000000, 1000000000000⟩ [0]) (by decide +kernel)
    (by decide +kernel) (by simp) (by
      intro now hnow
      simp only [List.mem_singleton, HealthEvent.evaluate.injEq] at hnow
      subst hnow
      decide)
  apply hrun.2
  intro now hnow
  simp only [List.mem_singleton, HealthEvent.evaluate.injEq] at hnow
  subst hnow
  exact Or.inl (by decide +kernel)

/-- Silence that outlives the baseline: DOWN after 1000 s, up again after 5000 s without a message.
The same happens when a burst of 120 messages ages out while one later message is still recent. -/
theorem silent_feed_reported_up :
    (healthRun {} [HealthEvent.record ("okx", "BTC-USD", "trades") 0,
        HealthEvent.evaluate fun _ => ⟨1000000000000, 1000000000000⟩]).isDown
          ("okx", "BTC-USD", "trades") = true ∧
      (healthRun {} [HealthEvent.record ("okx", "BTC-USD", "trades") 0,
        HealthEvent.evaluate fun _ => ⟨1000000000000, 1000000000000⟩,
        HealthEvent.evaluate fun _ => ⟨5000000000000, 5000000000000⟩]).isDown
          ("okx", "BTC-USD", "trades") = false ∧
      (healthRun {} (List.replicate 120 (HealthEvent.record ("okx", "BTC-USD", "trades") 0) ++
        [HealthEvent.record ("okx", "BTC-USD", "trades") 3500000000000,
          HealthEvent.evaluate fun _ => ⟨3550000000000, 3550000000000⟩])).isDown
          ("okx", "BTC-USD", "trades") = true ∧
      (healthRun {} (List.replicate 120 (HealthEvent.record ("okx", "BTC-USD", "trades") 0) ++
        [HealthEvent.record ("okx", "BTC-USD", "trades") 3500000000000,
          HealthEvent.evaluate fun _ => ⟨3550000000000, 3550000000000⟩,
          HealthEvent.evaluate fun _ => ⟨3650000000000, 3650000000000⟩])).isDown
          ("okx", "BTC-USD", "trades") = false := by
  decide +kernel

end CryptoData
