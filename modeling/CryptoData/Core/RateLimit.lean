import CryptoData.Foundation.Dict
import CryptoData.Foundation.Metering
import Mathlib.Algebra.Order.Ring.Rat
import Mathlib.Tactic.NormNum

/-!
# RateLimit — the token bucket of a venue

`acquire(n)` loops: read the clock, credit the time since the last refill, take `n` tokens if there
are enough, otherwise sleep and try again.  Up to the `await` of the sleep an iteration runs without
interruption, so tasks interleave by whole iterations.

Every iteration is a draw on one meter (`Limiter.run_draws`), which makes the bound on the tokens
granted in an interval a fact about meters: `token_bucket_bound`.
-/

namespace CryptoData

open Foundation

/-! ## The algorithm -/

structure TokenBucket where
  ratePerSec : ℚ
  capacity : ℚ
  tokens : ℚ
  lastRefill : ℚ
  deriving DecidableEq, Repr

namespace TokenBucket

/-- `TokenBucket.per_minute(requests_per_minute, burst)` at the clock reading `now`. -/
def perMinute (requestsPerMinute : ℚ) (burst : Option ℚ) (now : ℚ) : TokenBucket :=
  let rate := requestsPerMinute / 60
  let cap := burst.getD (max 1 (rate * 2))
  ⟨rate, cap, cap, now⟩

/-- One iteration of the loop of `acquire(n)`: the bucket, and how long the task sleeps; `none` is
the `return`. -/
def iterate (b : TokenBucket) (n now : ℚ) : TokenBucket × Option ℚ :=
  let elapsed := now - b.lastRefill
  let refilled :=
    { b with tokens := min b.capacity (b.tokens + elapsed * b.ratePerSec), lastRefill := now }
  if refilled.tokens ≥ n then
    ({ refilled with tokens := refilled.tokens - n }, none)
  else
    let need := n - refilled.tokens
    (refilled, some (need / b.ratePerSec))

end TokenBucket

/-- The bucket, and the tasks inside `acquire` with the number of tokens they ask for. -/
structure Limiter where
  bucket : TokenBucket
  waiting : Dict ℕ ℚ

/-- What happens next on the event loop: a task calls `acquire(n)`, or a task in `acquire` runs one
iteration, at its first entry or when it wakes up. -/
inductive LimiterStep
  | call (task : ℕ) (n : ℚ)
  | iterate (task : ℕ) (now : ℚ)

namespace Limiter

/-- The limiter after a step, and the iteration that took place with what it granted. -/
def step (s : Limiter) : LimiterStep → Limiter × Option (Draw ℚ)
  -- A task is in one call at a time.
  | .call task n =>
      match s.waiting.get? task with
      | some _ => (s, none)
      | none => ({ s with waiting := s.waiting.set task n }, none)
  | .iterate task now =>
      match s.waiting.get? task with
      | none => (s, none)
      | some n =>
          let out := s.bucket.iterate n now
          match out.2 with
          | none => (⟨out.1, s.waiting.erase task⟩, some ⟨now, n⟩)
          | some _ => (⟨out.1, s.waiting⟩, some ⟨now, 0⟩)

def run (s : Limiter) (steps : List LimiterStep) : Limiter :=
  steps.foldl (fun s e => (s.step e).1) s

/-- The iterations of a run, in order, with what each granted. -/
def iterations : Limiter → List LimiterStep → List (Draw ℚ)
  | _, [] => []
  | s, e :: steps => ((s.step e).2.toList) ++ iterations (s.step e).1 steps

end Limiter

/-- The clock reading of a step. -/
def LimiterStep.reading : LimiterStep → Option ℚ
  | .call _ _ => none
  | .iterate _ now => some now

/-- The amount of a call. -/
def LimiterStep.asked : LimiterStep → Option ℚ
  | .call _ n => some n
  | .iterate _ _ => none

/-! ## The bucket as a meter -/

namespace TokenBucket

def meter (b : TokenBucket) : Meter ℚ :=
  ⟨b.ratePerSec, b.capacity⟩

def level (b : TokenBucket) : Level ℚ :=
  ⟨b.tokens, b.lastRefill⟩

/-- An iteration either grants `n` in full, or nothing. -/
lemma iterate_spec (b : TokenBucket) (n now : ℚ) :
    (b.iterate n now).1.meter = b.meter ∧
      ((n ≤ (b.meter.refill b.level now).amount ∧ (b.iterate n now).2 = none ∧
          (b.iterate n now).1.level = b.meter.draw b.level ⟨now, n⟩) ∨
        ((b.meter.refill b.level now).amount < n ∧ (∃ sleep, (b.iterate n now).2 = some sleep) ∧
          (b.iterate n now).1.level = b.meter.draw b.level ⟨now, 0⟩)) := by
  by_cases h : min b.capacity (b.tokens + (now - b.lastRefill) * b.ratePerSec) ≥ n
  · have hrun : b.iterate n now =
        ({ b with
            tokens := min b.capacity (b.tokens + (now - b.lastRefill) * b.ratePerSec) - n
            lastRefill := now }, none) := if_pos h
    rw [hrun]
    exact ⟨rfl, Or.inl ⟨h, rfl, rfl⟩⟩
  · have hrun : b.iterate n now =
        ({ b with
            tokens := min b.capacity (b.tokens + (now - b.lastRefill) * b.ratePerSec)
            lastRefill := now },
          some ((n - min b.capacity (b.tokens + (now - b.lastRefill) * b.ratePerSec)) /
            b.ratePerSec)) := if_neg h
    rw [hrun]
    refine ⟨rfl, Or.inr ⟨not_le.1 h, ⟨_, rfl⟩, ?_⟩⟩
    simp [level, meter, Meter.draw, Meter.refill]

end TokenBucket

/-! ## Runs -/

namespace Limiter

/-- The tokens are between zero and the capacity, and nobody waits for a negative amount. -/
structure Inv (s : Limiter) : Prop where
  nonneg : 0 ≤ s.bucket.tokens
  le_capacity : s.bucket.tokens ≤ s.bucket.capacity
  waiting_nonneg : ∀ e ∈ s.waiting.entries, 0 ≤ e.2

variable {s : Limiter} {e : LimiterStep} {steps : List LimiterStep}

/-- A step that is not an iteration of a waiting task leaves the bucket; an iteration draws from
it no more than there is. -/
lemma step_spec (hs : s.Inv) (hrate : 0 ≤ s.bucket.ratePerSec) (hasked : ∀ n ∈ e.asked, 0 ≤ n)
    (hclock : ∀ now ∈ e.reading, s.bucket.lastRefill ≤ now) :
    (s.step e).1.bucket.meter = s.bucket.meter ∧
      (∀ w ∈ (s.step e).1.waiting.entries, 0 ≤ w.2) ∧
        (((s.step e).2 = none ∧ (s.step e).1.bucket = s.bucket) ∨
          ∃ d, (s.step e).2 = some d ∧ d.now ∈ e.reading ∧ 0 ≤ d.amount ∧
            d.amount ≤ (s.bucket.meter.refill s.bucket.level d.now).amount ∧
              (s.step e).1.bucket.level = s.bucket.meter.draw s.bucket.level d) := by
  cases e with
  | call task n =>
      cases hget : s.waiting.get? task with
      | some m =>
          have hstep : s.step (.call task n) = (s, none) := by simp [step, hget]
          rw [hstep]
          exact ⟨rfl, hs.waiting_nonneg, Or.inl ⟨rfl, rfl⟩⟩
      | none =>
          have hstep : s.step (.call task n) =
              ({ s with waiting := s.waiting.set task n }, none) := by
            simp [step, hget]
          rw [hstep]
          refine ⟨rfl, ?_, Or.inl ⟨rfl, rfl⟩⟩
          rintro ⟨j, w⟩ hw
          rcases Dict.mem_set_iff.1 hw with ⟨_, rfl⟩ | ⟨_, hw⟩
          · exact hasked w rfl
          · exact hs.waiting_nonneg _ hw
  | iterate task now =>
      cases hget : s.waiting.get? task with
      | none =>
          have hstep : s.step (.iterate task now) = (s, none) := by simp [step, hget]
          rw [hstep]
          exact ⟨rfl, hs.waiting_nonneg, Or.inl ⟨rfl, rfl⟩⟩
      | some n =>
          rcases s.bucket.iterate_spec n now with
            ⟨hmeter, ⟨hpaid, hnone, hlevel⟩ | ⟨_, ⟨sleep, hsome⟩, hlevel⟩⟩
          · have hstep : s.step (.iterate task now) =
                (⟨(s.bucket.iterate n now).1, s.waiting.erase task⟩, some ⟨now, n⟩) := by
              simp [step, hget, hnone]
            have hn : 0 ≤ n := hs.waiting_nonneg _ (Dict.get?_eq_some_iff.1 hget)
            rw [hstep]
            refine ⟨hmeter, ?_, Or.inr ⟨⟨now, n⟩, rfl, rfl, hn, hpaid, hlevel⟩⟩
            intro w hw
            exact hs.waiting_nonneg w (List.mem_of_mem_filter hw)
          · have hstep : s.step (.iterate task now) =
                (⟨(s.bucket.iterate n now).1, s.waiting⟩, some ⟨now, 0⟩) := by
              simp [step, hget, hsome]
            have hkept : s.bucket.tokens ≤ (s.bucket.meter.refill s.bucket.level now).amount :=
              Meter.le_refill (m := s.bucket.meter) (l := s.bucket.level) hrate hs.le_capacity
                (hclock now rfl)
            rw [hstep]
            exact ⟨hmeter, hs.waiting_nonneg,
              Or.inr ⟨⟨now, 0⟩, rfl, rfl, le_refl 0, le_trans hs.nonneg hkept, hlevel⟩⟩

/-- What a run may be given: amounts that are not negative, and a clock that does not go back. -/
structure Feasible (s : Limiter) (steps : List LimiterStep) : Prop where
  asked_nonneg : ∀ e ∈ steps, ∀ n ∈ e.asked, 0 ≤ n
  clock : (s.bucket.lastRefill :: steps.filterMap LimiterStep.reading).Pairwise (· ≤ ·)

lemma Feasible.step (h : s.Feasible (e :: steps)) (hs : s.Inv) (hrate : 0 ≤ s.bucket.ratePerSec) :
    (s.step e).1.Inv ∧ (s.step e).1.Feasible steps := by
  have hasked := h.asked_nonneg e List.mem_cons_self
  have htail : ∀ f ∈ steps, ∀ n ∈ f.asked, 0 ≤ n :=
    fun f hf => h.asked_nonneg f (List.mem_cons_of_mem e hf)
  have hpairs := List.pairwise_cons.1 h.clock
  have hclock : ∀ now ∈ e.reading, s.bucket.lastRefill ≤ now := by
    intro now hnow
    exact hpairs.1 now (List.mem_filterMap.2 ⟨e, List.mem_cons_self, hnow⟩)
  have hlater : (steps.filterMap LimiterStep.reading).Sublist
      ((e :: steps).filterMap LimiterStep.reading) :=
    (List.sublist_cons_self e steps).filterMap LimiterStep.reading
  rcases step_spec hs hrate hasked hclock with
    ⟨hmeter, hwaiting, ⟨_, hbucket⟩ | ⟨d, _, hreading, hamount, hpaid, hlevel⟩⟩
  · refine ⟨⟨?_, ?_, hwaiting⟩, ⟨htail, ?_⟩⟩
    · rw [hbucket]
      exact hs.nonneg
    · rw [hbucket]
      exact hs.le_capacity
    · rw [hbucket]
      exact h.clock.sublist (hlater.cons_cons _)
  · have hmem := Meter.draw_mem hamount hpaid
    have htokens : (s.step e).1.bucket.tokens = (s.bucket.meter.draw s.bucket.level d).amount :=
      congrArg Level.amount hlevel
    have hcapacity : (s.step e).1.bucket.capacity = s.bucket.capacity :=
      congrArg Meter.capacity hmeter
    have hsince : (s.step e).1.bucket.lastRefill = d.now := congrArg Level.since hlevel
    refine ⟨⟨?_, ?_, hwaiting⟩, ⟨htail, ?_⟩⟩
    · rw [htokens]
      exact hmem.1
    · rw [htokens, hcapacity]
      exact hmem.2
    · have hcons : (e :: steps).filterMap LimiterStep.reading =
          d.now :: steps.filterMap LimiterStep.reading := List.filterMap_cons_some hreading
      rw [hsince, ← hcons]
      exact hpairs.2

/-- The iterations of a run are draws on the meter of its bucket. -/
theorem run_draws (hs : s.Inv) (hrate : 0 ≤ s.bucket.ratePerSec) (h : s.Feasible steps) :
    s.bucket.meter.Draws s.bucket.level (s.iterations steps) := by
  induction steps generalizing s with
  | nil => exact trivial
  | cons e steps ih =>
      have hnext := h.step hs hrate
      have hclock : ∀ now ∈ e.reading, s.bucket.lastRefill ≤ now := by
        intro now hnow
        exact (List.pairwise_cons.1 h.clock).1 now
          (List.mem_filterMap.2 ⟨e, List.mem_cons_self, hnow⟩)
      rcases step_spec hs hrate (h.asked_nonneg e List.mem_cons_self) hclock with
        ⟨hmeter, _, ⟨hnone, hbucket⟩ | ⟨d, hsome, hreading, hamount, hpaid, hlevel⟩⟩
      · have hrest := ih hnext.1 (by rw [hbucket]; exact hrate) hnext.2
        rw [hbucket] at hrest
        simpa [iterations, hnone] using hrest
      · have hkept : (s.step e).1.bucket.ratePerSec = s.bucket.ratePerSec :=
          congrArg Meter.rate hmeter
        have hrest := ih hnext.1 (by rw [hkept]; exact hrate) hnext.2
        rw [hmeter, hlevel] at hrest
        have hiter : s.iterations (e :: steps) = d :: (s.step e).1.iterations steps := by
          simp [iterations, hsome]
        rw [hiter]
        exact ⟨hclock d.now hreading, hamount, hpaid, hrest⟩

theorem run_inv (hs : s.Inv) (hrate : 0 ≤ s.bucket.ratePerSec) (h : s.Feasible steps) (k : ℕ) :
    (s.run (steps.take k)).Inv ∧ (s.run (steps.take k)).bucket.meter = s.bucket.meter := by
  induction steps generalizing s k with
  | nil =>
      rw [List.take_nil]
      exact ⟨hs, rfl⟩
  | cons e steps ih =>
      cases k with
      | zero => exact ⟨hs, rfl⟩
      | succ k =>
          have hnext := h.step hs hrate
          have hmeter : (s.step e).1.bucket.meter = s.bucket.meter :=
            (step_spec hs hrate (h.asked_nonneg e List.mem_cons_self) fun now hnow =>
              (List.pairwise_cons.1 h.clock).1 now
                (List.mem_filterMap.2 ⟨e, List.mem_cons_self, hnow⟩)).1
          have hkept : (s.step e).1.bucket.ratePerSec = s.bucket.ratePerSec :=
            congrArg Meter.rate hmeter
          have hrun : s.run ((e :: steps).take (k + 1)) = (s.step e).1.run (steps.take k) := rfl
          have hrest := ih hnext.1 (by rw [hkept]; exact hrate) hnext.2 k
          rw [hrun, ← hmeter]
          exact hrest

end Limiter

/-- However the tasks interleave, the tokens stay between zero and the capacity, and an interval
grants at most the capacity and what is credited in it. -/
theorem token_bucket_bound (s : Limiter) (steps : List LimiterStep)
    (hrate : 0 < s.bucket.ratePerSec) (hnonneg : 0 ≤ s.bucket.tokens)
    (hcapacity : s.bucket.tokens ≤ s.bucket.capacity)
    (hwaiting : ∀ w ∈ s.waiting.entries, 0 ≤ w.2) (hasked : ∀ e ∈ steps, ∀ n ∈ e.asked, 0 ≤ n)
    (hclock : (s.bucket.lastRefill :: steps.filterMap LimiterStep.reading).Pairwise (· ≤ ·)) :
    (∀ k, 0 ≤ (s.run (steps.take k)).bucket.tokens ∧
        (s.run (steps.take k)).bucket.tokens ≤ s.bucket.capacity) ∧
      ∀ t₁ t₂, t₁ ≤ t₂ → drawnIn t₁ t₂ (s.iterations steps) ≤
        s.bucket.capacity + s.bucket.ratePerSec * (t₂ - t₁) := by
  have hs : s.Inv := ⟨hnonneg, hcapacity, hwaiting⟩
  have hfeasible : s.Feasible steps := ⟨hasked, hclock⟩
  have hrate' := le_of_lt hrate
  constructor
  · intro k
    rcases Limiter.run_inv hs hrate' hfeasible k with ⟨hinv, hmeter⟩
    have hcap : (s.run (steps.take k)).bucket.capacity = s.bucket.capacity :=
      congrArg Meter.capacity hmeter
    refine ⟨hinv.nonneg, ?_⟩
    rw [← hcap]
    exact hinv.le_capacity
  · intro t₁ t₂ hle
    exact (Limiter.run_draws hs hrate' hfeasible).drawnIn_le (m := s.bucket.meter) hrate'
      (le_trans hnonneg hcapacity) hle

/-- Two tasks on the bucket of sixty requests a minute: the second waits for the first. -/
theorem token_bucket_bound_two_tasks :
    let s : Limiter := ⟨TokenBucket.perMinute 60 none 0, Dict.empty⟩
    let steps : List LimiterStep := [.call 1 2, .iterate 1 0, .call 2 1, .iterate 2 0, .iterate 2 1]
    s.iterations steps = [⟨0, 2⟩, ⟨0, 0⟩, ⟨1, 1⟩] ∧
      drawnIn (-1) 1 (s.iterations steps) ≤ 2 + 1 * (1 - (-1)) := by
  have hiter : (⟨TokenBucket.perMinute 60 none 0, Dict.empty⟩ : Limiter).iterations
      [.call 1 2, .iterate 1 0, .call 2 1, .iterate 2 0, .iterate 2 1] =
        [⟨0, 2⟩, ⟨0, 0⟩, ⟨1, 1⟩] := by decide +kernel
  refine ⟨hiter, ?_⟩
  have hbound := (token_bucket_bound ⟨TokenBucket.perMinute 60 none 0, Dict.empty⟩
    [.call 1 2, .iterate 1 0, .call 2 1, .iterate 2 0, .iterate 2 1] (by decide +kernel)
    (by decide +kernel) (by decide +kernel) (by intro w hw; cases hw)
    (by simp [LimiterStep.asked]) (by decide +kernel)).2 (-1) 1 (by norm_num)
  have hcap : (TokenBucket.perMinute 60 none 0).capacity = 2 := by decide +kernel
  have hrate : (TokenBucket.perMinute 60 none 0).ratePerSec = 1 := by decide +kernel
  simpa only [hcap, hrate] using hbound

end CryptoData
