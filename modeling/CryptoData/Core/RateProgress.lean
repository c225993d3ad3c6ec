import CryptoData.Core.RateLimit

/-!
# RateProgress — how often a task is turned away by the bucket

A task that finds too few tokens sleeps for the time the missing ones take, and tries again.  The
sleep is long enough unless another task is granted tokens meanwhile, so every further failure of a
task is paid for by a grant to another one: `acquire_progress`.  A call for more than the capacity
never returns.  All this is in exact arithmetic: with doubles a sleep can end a rounding too early.
-/

namespace CryptoData

open Foundation

namespace Limiter

/-! ## What a task sees of a run -/

/-- The reading of a try of `task`. -/
def tryOf (task : ℕ) : LimiterStep → Option ℚ
  | .call _ _ => none
  | .iterate t now => if t = task then some now else none

/-- The reading at which the sleep of `task` ends, if the step sends it to sleep. -/
def sleepsUntil (task : ℕ) (s : Limiter) : LimiterStep → Option ℚ
  | .call _ _ => none
  | .iterate t now =>
      if t = task then
        (s.waiting.get? t).bind fun n => (s.bucket.iterate n now).2.map fun sleep => now + sleep
      else none

/-- No sleep of `task` ends early. -/
def Punctual (task : ℕ) : Limiter → List LimiterStep → Prop
  | _, [] => True
  | s, e :: steps =>
      (∀ wake ∈ s.sleepsUntil task e, ∀ now ∈ steps.filterMap (tryOf task), wake ≤ now) ∧
        Punctual task (s.step e).1 steps

instance Punctual.decide (task : ℕ) :
    ∀ (s : Limiter) (steps : List LimiterStep), Decidable (Punctual task s steps)
  | _, [] => .isTrue trivial
  | s, e :: steps =>
      have := Punctual.decide task (s.step e).1 steps
      inferInstanceAs (Decidable ((∀ wake ∈ s.sleepsUntil task e,
        ∀ now ∈ steps.filterMap (tryOf task), wake ≤ now) ∧ Punctual task (s.step e).1 steps))

/-- Whether the step begins a call of `task`. -/
def entersAt (task : ℕ) (s : Limiter) : LimiterStep → Bool
  | .call t _ => decide (t = task) && (s.waiting.get? t).isNone
  | .iterate _ _ => false

/-- Whether the step grants tokens to another task while `task` waits. -/
def paysOther (task : ℕ) (s : Limiter) : LimiterStep → Bool
  | .call _ _ => false
  | .iterate t now =>
      decide (t ≠ task) && (s.waiting.get? task).isSome &&
        (s.step (.iterate t now)).2.any fun d => decide (0 < d.amount)

/-- The steps of a run that satisfy `p` in the state they are taken in. -/
def stepsWhere (p : Limiter → LimiterStep → Bool) : Limiter → List LimiterStep → ℕ
  | _, [] => 0
  | s, e :: steps => (p s e).toNat + stepsWhere p (s.step e).1 steps

/-- The tries of `task` that end in a sleep. -/
def turnedAway (task : ℕ) : Limiter → List LimiterStep → ℕ :=
  stepsWhere fun s e => (s.sleepsUntil task e).isSome

/-- The calls of `task`. -/
def entered (task : ℕ) : Limiter → List LimiterStep → ℕ :=
  stepsWhere (entersAt task)

/-- The grants to other tasks while `task` waits. -/
def paidOthers (task : ℕ) : Limiter → List LimiterStep → ℕ :=
  stepsWhere (paysOther task)

/-! ## A step, seen from one task -/

variable {s : Limiter} {e : LimiterStep} {steps : List LimiterStep} {task : ℕ} {n : ℚ}

/-- Nothing in the bucket changes that a waiting task could notice: it stays, or is drawn on for
nothing at a reading of the step. -/
def Unspent (s : Limiter) (e : LimiterStep) : Prop :=
  (s.step e).1.bucket = s.bucket ∨
    ∃ now ∈ e.reading, (s.step e).1.bucket.level = s.bucket.meter.draw s.bucket.level ⟨now, 0⟩

/-- What a step can mean for `task`. -/
inductive Seen (task : ℕ) (s : Limiter) (e : LimiterStep) : Prop
  /-- The task calls `acquire`. -/
  | enters (n : ℚ) : e = .call task n → (s.step e).1.waiting.get? task = some n →
      s.sleepsUntil task e = none →
        s.entersAt task e = true → s.paysOther task e = false → Seen task s e
  /-- The task waits as before, if at all, and nothing is taken from the bucket if it does. -/
  | idle : (s.step e).1.waiting.get? task = s.waiting.get? task →
      (s.waiting.get? task = none ∨ s.Unspent e) → s.sleepsUntil task e = none →
        s.entersAt task e = false → s.paysOther task e = false → Seen task s e
  /-- Another task is granted tokens while this one waits. -/
  | pays : (s.step e).1.waiting.get? task = s.waiting.get? task →
      s.sleepsUntil task e = none → s.entersAt task e = false → s.paysOther task e = true →
        Seen task s e
  /-- The task is granted its tokens. -/
  | granted : (s.step e).1.waiting.get? task = none → s.sleepsUntil task e = none →
      s.entersAt task e = false → s.paysOther task e = false → Seen task s e
  /-- The task is turned away. -/
  | turned (n now : ℚ) : e = .iterate task now → s.waiting.get? task = some n →
      (s.step e).1.waiting.get? task = some n →
        (s.bucket.meter.refill s.bucket.level now).amount < n →
          (s.step e).1.bucket.level = s.bucket.meter.draw s.bucket.level ⟨now, 0⟩ →
            s.sleepsUntil task e =
              some (now + (n - (s.bucket.meter.refill s.bucket.level now).amount) /
                s.bucket.ratePerSec) →
              s.entersAt task e = false → s.paysOther task e = false → Seen task s e

lemma step_iterate_of_none {t : ℕ} (h : s.waiting.get? t = none) (now : ℚ) :
    s.step (.iterate t now) = (s, none) := by
  simp [step, h]

lemma step_iterate_of_paid {t : ℕ} {now : ℚ} (h : s.waiting.get? t = some n)
    (hpaid : (s.bucket.iterate n now).2 = none) :
    s.step (.iterate t now) =
      (⟨(s.bucket.iterate n now).1, s.waiting.erase t⟩, some ⟨now, n⟩) := by
  simp [step, h, hpaid]

lemma step_iterate_of_short {t : ℕ} {now sleep : ℚ} (h : s.waiting.get? t = some n)
    (hshort : (s.bucket.iterate n now).2 = some sleep) :
    s.step (.iterate t now) = (⟨(s.bucket.iterate n now).1, s.waiting⟩, some ⟨now, 0⟩) := by
  simp [step, h, hshort]

/-- The sleep of a failed iteration is the time the missing tokens take. -/
lemma iterate_short {now : ℚ} (h : (s.bucket.meter.refill s.bucket.level now).amount < n) :
    (s.bucket.iterate n now).2 =
      some ((n - (s.bucket.meter.refill s.bucket.level now).amount) / s.bucket.ratePerSec) := by
  have hshort : ¬ min s.bucket.capacity
      (s.bucket.tokens + (now - s.bucket.lastRefill) * s.bucket.ratePerSec) ≥ n := not_le.2 h
  exact congrArg Prod.snd (if_neg hshort)

lemma seen_call (t : ℕ) (m : ℚ) : Seen task s (.call t m) := by
  cases hget : s.waiting.get? t with
  | some w =>
      have hstep : s.step (.call t m) = (s, none) := by simp [step, hget]
      refine .idle ?_ (Or.inr (Or.inl ?_)) rfl ?_ rfl
      · rw [hstep]
      · rw [hstep]
      · simp [entersAt, hget]
  | none =>
      have hstep : s.step (.call t m) = ({ s with waiting := s.waiting.set t m }, none) := by
        simp [step, hget]
      by_cases ht : t = task
      · subst ht
        refine .enters m rfl ?_ rfl ?_ rfl
        · rw [hstep]
          exact Dict.get?_set_self s.waiting t m
        · simp [entersAt, hget]
      · refine .idle ?_ (Or.inr (Or.inl ?_)) rfl ?_ rfl
        · rw [hstep]
          exact Dict.get?_set_ne s.waiting m (Ne.symm ht)
        · rw [hstep]
        · simp [entersAt, ht]

lemma seen_iterate_own (now : ℚ) : Seen task s (.iterate task now) := by
  have hother : s.paysOther task (.iterate task now) = false := by simp [paysOther]
  cases hget : s.waiting.get? task with
  | none =>
      have hstep := step_iterate_of_none hget now
      refine .idle ?_ (Or.inr (Or.inl ?_)) ?_ rfl hother
      · rw [hstep]
      · rw [hstep]
      · simp [sleepsUntil, hget]
  | some m =>
      rcases s.bucket.iterate_spec m now with
        ⟨_, ⟨_, hnone, _⟩ | ⟨hshort, _, hlevel⟩⟩
      · have hstep := step_iterate_of_paid hget hnone
        refine .granted ?_ ?_ rfl hother
        · rw [hstep]
          refine Dict.get?_eq_none_iff.2 ?_
          intro hmem
          exact (Dict.mem_keys_erase.1 hmem).1 rfl
        · simp [sleepsUntil, hget, hnone]
      · have hsleep := iterate_short (s := s) hshort
        have hstep := step_iterate_of_short hget hsleep
        refine .turned m now rfl hget ?_ hshort ?_ ?_ rfl hother
        · rw [hstep]
          exact hget
        · rw [hstep]
          exact hlevel
        · simp [sleepsUntil, hget, hsleep]

lemma seen_iterate_other (hs : s.Inv) {t : ℕ} (ht : t ≠ task) (now : ℚ) :
    Seen task s (.iterate t now) := by
  have hsleeps : s.sleepsUntil task (.iterate t now) = none := if_neg ht
  cases hget : s.waiting.get? t with
  | none =>
      have hstep := step_iterate_of_none hget now
      refine .idle ?_ (Or.inr (Or.inl ?_)) hsleeps rfl ?_
      · rw [hstep]
      · rw [hstep]
      · simp [paysOther, hstep]
  | some m =>
      rcases s.bucket.iterate_spec m now with
        ⟨_, ⟨_, hnone, hlevel⟩ | ⟨_, ⟨sleep, hsome⟩, hlevel⟩⟩
      · have hstep := step_iterate_of_paid hget hnone
        have hkept : (s.step (.iterate t now)).1.waiting.get? task = s.waiting.get? task := by
          rw [hstep]
          exact Dict.get?_erase_ne s.waiting (Ne.symm ht)
        have hm : 0 ≤ m := hs.waiting_nonneg _ (Dict.get?_eq_some_iff.1 hget)
        rcases lt_or_eq_of_le hm with hpos | hzero
        · cases hown : s.waiting.get? task with
          | none =>
              refine .idle hkept (Or.inl hown) hsleeps rfl ?_
              simp [paysOther, hown]
          | some w =>
              refine .pays hkept hsleeps rfl ?_
              simp [paysOther, hstep, ht, hpos, hown]
        · -- A call of `acquire(0)` is granted nothing.
          subst hzero
          refine .idle hkept (Or.inr (Or.inr ⟨now, rfl, ?_⟩)) hsleeps rfl ?_
          · rw [hstep]
            exact hlevel
          · simp [paysOther, hstep]
      · have hstep := step_iterate_of_short hget hsome
        refine .idle ?_ (Or.inr (Or.inr ⟨now, rfl, ?_⟩)) hsleeps rfl ?_
        · rw [hstep]
        · rw [hstep]
          exact hlevel
        · simp [paysOther, hstep]

lemma seen (hs : s.Inv) (task : ℕ) (e : LimiterStep) : Seen task s e := by
  cases e with
  | call t m => exact seen_call t m
  | iterate t now =>
      by_cases ht : t = task
      · subst ht
        exact seen_iterate_own now
      · exact seen_iterate_other hs ht now

/-! ## Runs -/

/-- The next try of `task` comes when its tokens are there. -/
def Ready (task : ℕ) (s : Limiter) (steps : List LimiterStep) : Prop :=
  ∀ n, s.waiting.get? task = some n → ∃ wake, s.bucket.meter.Affords s.bucket.level n wake ∧
    ∀ now ∈ steps.filterMap (tryOf task), wake ≤ now

/-- No call of `task` asks for more than the bucket can hold. -/
def Modest (task : ℕ) (s : Limiter) (steps : List LimiterStep) : Prop :=
  (∀ n, s.waiting.get? task = some n → n ≤ s.bucket.capacity) ∧
    ∀ n, .call task n ∈ steps → n ≤ s.bucket.capacity

lemma tries_tail (e : LimiterStep) (steps : List LimiterStep) :
    ∀ now ∈ steps.filterMap (tryOf task), now ∈ (e :: steps).filterMap (tryOf task) :=
  fun _ hnow => ((List.sublist_cons_self e steps).filterMap (tryOf task)).subset hnow

lemma Ready.idle (hrate : 0 ≤ s.bucket.ratePerSec)
    (hmeter : (s.step e).1.bucket.meter = s.bucket.meter)
    (hclock : ∀ now ∈ e.reading, s.bucket.lastRefill ≤ now)
    (hunspent : s.waiting.get? task = none ∨ s.Unspent e)
    (hkept : (s.step e).1.waiting.get? task = s.waiting.get? task)
    (h : s.Ready task (e :: steps)) : (s.step e).1.Ready task steps := by
  intro n hn
  rw [hkept] at hn
  rcases h n hn with ⟨wake, hwake, hreading⟩
  refine ⟨wake, ?_, fun now hnow => hreading now (tries_tail e steps now hnow)⟩
  rw [hmeter]
  rcases hunspent with hnone | hsame | ⟨now, hnow, hlevel⟩
  · rw [hnone] at hn
    cases hn
  · rw [hsame]
    exact hwake
  · rw [hlevel]
    exact hwake.draw_zero hrate (hclock now hnow)

lemma Modest.step (hcapacity : (s.step e).1.bucket.capacity = s.bucket.capacity)
    (hwaiting : ∀ n, (s.step e).1.waiting.get? task = some n →
      s.waiting.get? task = some n ∨ e = .call task n)
    (h : s.Modest task (e :: steps)) : (s.step e).1.Modest task steps := by
  rw [Modest, hcapacity]
  refine ⟨?_, fun n hn => h.2 n (List.mem_cons_of_mem e hn)⟩
  intro n hn
  rcases hwaiting n hn with hold | rfl
  · exact h.1 n hold
  · exact h.2 n List.mem_cons_self

/-- The failures of a task against its calls and the grants to others: one more when the task may be
waiting with a sleep that is not long enough. -/
theorem turnedAway_le (hs : s.Inv) (hrate : 0 < s.bucket.ratePerSec) (h : s.Feasible steps)
    (hmodest : s.Modest task steps) (hpunctual : Punctual task s steps) :
    turnedAway task s steps ≤ entered task s steps + paidOthers task s steps + 1 ∧
      (s.Ready task steps →
        turnedAway task s steps ≤ entered task s steps + paidOthers task s steps) := by
  induction steps generalizing s with
  | nil => exact ⟨Nat.zero_le _, fun _ => Nat.zero_le _⟩
  | cons e steps ih =>
      have hnext := h.step hs (le_of_lt hrate)
      have hclock : ∀ now ∈ e.reading, s.bucket.lastRefill ≤ now := by
        intro now hnow
        exact (List.pairwise_cons.1 h.clock).1 now
          (List.mem_filterMap.2 ⟨e, List.mem_cons_self, hnow⟩)
      have hmeter := (step_spec hs (le_of_lt hrate)
        (h.asked_nonneg e List.mem_cons_self) hclock).1
      have hkeptRate : (s.step e).1.bucket.ratePerSec = s.bucket.ratePerSec :=
        congrArg Meter.rate hmeter
      have hcapacity : (s.step e).1.bucket.capacity = s.bucket.capacity :=
        congrArg Meter.capacity hmeter
      have hlater : (s.step e).1.Modest task steps →
          turnedAway task (s.step e).1 steps ≤
              entered task (s.step e).1 steps + paidOthers task (s.step e).1 steps + 1 ∧
            ((s.step e).1.Ready task steps →
              turnedAway task (s.step e).1 steps ≤
                entered task (s.step e).1 steps + paidOthers task (s.step e).1 steps) :=
        fun hm => ih hnext.1 (by rw [hkeptRate]; exact hrate) hnext.2 hm hpunctual.2
      have haway : turnedAway task s (e :: steps) =
          (s.sleepsUntil task e).isSome.toNat + turnedAway task (s.step e).1 steps := rfl
      have hentered : entered task s (e :: steps) =
          (s.entersAt task e).toNat + entered task (s.step e).1 steps := rfl
      have hpaid : paidOthers task s (e :: steps) =
          (s.paysOther task e).toNat + paidOthers task (s.step e).1 steps := rfl
      rw [haway, hentered, hpaid]
      rcases seen hs task e with
        ⟨n, rfl, hsome, hsleep, henter, hpay⟩ | ⟨hkept, hunspent, hsleep, henter, hpay⟩ |
          ⟨hkept, hsleep, henter, hpay⟩ | ⟨hnone, hsleep, henter, hpay⟩ |
            ⟨n, now, rfl, hwas, hsome, hshort, hlevel, hsleep, henter, hpay⟩
      all_goals
        rw [hsleep, henter, hpay]
        simp only [Option.isSome_none, Option.isSome_some, Bool.toNat_true, Bool.toNat_false,
          Nat.zero_add]
      · have hrest := (hlater (hmodest.step hcapacity fun m hm => by
          rw [hsome] at hm
          cases hm
          exact Or.inr rfl)).1
        exact ⟨by omega, fun _ => by omega⟩
      · have hrest := hlater (hmodest.step hcapacity fun m hm => Or.inl (hkept ▸ hm))
        exact ⟨hrest.1, fun hready =>
          hrest.2 (hready.idle (le_of_lt hrate) hmeter hclock hunspent hkept)⟩
      · -- The tokens of the other task may be those this one waits for.
        have hrest := (hlater (hmodest.step hcapacity fun m hm => Or.inl (hkept ▸ hm))).1
        exact ⟨by omega, fun _ => by omega⟩
      · have hgone : ∀ m, (s.step e).1.waiting.get? task ≠ some m := by
          intro m hm
          rw [hnone] at hm
          cases hm
        have hrest := (hlater (hmodest.step hcapacity fun m hm => absurd hm (hgone m))).2
          fun m hm => absurd hm (hgone m)
        exact ⟨Nat.le_succ_of_le hrest, fun _ => hrest⟩
      · have hready : (s.step (.iterate task now)).1.Ready task steps := by
          intro m hm
          rw [hsome] at hm
          cases hm
          refine ⟨_, ?_, fun later hin => hpunctual.1 _ hsleep later hin⟩
          rw [hmeter, hlevel]
          exact Meter.affords_of_short hrate (hmodest.1 n hwas)
        have hrest := (hlater (hmodest.step hcapacity fun m hm => by
          rw [hsome] at hm
          cases hm
          exact Or.inl hwas)).2 hready
        refine ⟨by omega, fun hbefore => ?_⟩
        -- A task whose tokens are due is not turned away.
        rcases hbefore n hwas with ⟨wake, hwake, hreading⟩
        have htry : now ∈ (LimiterStep.iterate task now :: steps).filterMap (tryOf task) :=
          List.mem_filterMap.2 ⟨_, List.mem_cons_self, if_pos rfl⟩
        have hdue := hwake now (hreading now htry) (hclock now rfl)
        exact absurd hshort (not_lt.2 hdue)

lemma step_waiting_of_over (h : s.waiting.get? task = some n) (hover : s.bucket.capacity < n) :
    (s.step e).1.waiting.get? task = some n ∧ (s.step e).1.bucket.capacity = s.bucket.capacity := by
  cases e with
  | call t m =>
      cases hget : s.waiting.get? t with
      | some w =>
          have hstep : s.step (.call t m) = (s, none) := by simp [step, hget]
          rw [hstep]
          exact ⟨h, rfl⟩
      | none =>
          have hstep : s.step (.call t m) = ({ s with waiting := s.waiting.set t m }, none) := by
            simp [step, hget]
          have hne : task ≠ t := by
            rintro rfl
            rw [h] at hget
            cases hget
          rw [hstep]
          exact ⟨(Dict.get?_set_ne s.waiting m hne).trans h, rfl⟩
  | iterate t now =>
      cases hget : s.waiting.get? t with
      | none =>
          rw [step_iterate_of_none hget now]
          exact ⟨h, rfl⟩
      | some m =>
          rcases s.bucket.iterate_spec m now with
            ⟨hmeter, ⟨hpaid, hnone, _⟩ | ⟨_, ⟨sleep, hsome⟩, _⟩⟩
          · have hne : task ≠ t := by
              rintro rfl
              rw [h] at hget
              cases hget
              exact absurd (le_trans hpaid (Meter.refill_le_capacity _ _ _)) (not_le.2 hover)
            rw [step_iterate_of_paid hget hnone]
            exact ⟨(Dict.get?_erase_ne s.waiting hne).trans h, congrArg Meter.capacity hmeter⟩
          · rw [step_iterate_of_short hget hsome]
            exact ⟨h, congrArg Meter.capacity hmeter⟩

/-- A call for more than the capacity waits through every run. -/
theorem waiting_of_over (h : s.waiting.get? task = some n) (hover : s.bucket.capacity < n) :
    (s.run steps).waiting.get? task = some n := by
  induction steps generalizing s with
  | nil => exact h
  | cons e steps ih =>
      have hstep := step_waiting_of_over (e := e) h hover
      exact ih hstep.1 (by rw [hstep.2]; exact hover)

end Limiter

/-- However the tasks interleave, a task whose calls the bucket can hold is turned away at most once
for each of its calls and once for each grant to another task meanwhile; a call for more than the capacity
never returns. -/
theorem acquire_progress (s : Limiter) (steps : List LimiterStep) (task : ℕ)
    (hrate : 0 < s.bucket.ratePerSec) (hnonneg : 0 ≤ s.bucket.tokens)
    (hcapacity : s.bucket.tokens ≤ s.bucket.capacity)
    (hwaiting : ∀ w ∈ s.waiting.entries, 0 ≤ w.2) (hasked : ∀ e ∈ steps, ∀ n ∈ e.asked, 0 ≤ n)
    (hclock : (s.bucket.lastRefill :: steps.filterMap LimiterStep.reading).Pairwise (· ≤ ·))
    (hpunctual : Limiter.Punctual task s steps) :
    (s.waiting.get? task = none → (∀ n, .call task n ∈ steps → n ≤ s.bucket.capacity) →
        Limiter.turnedAway task s steps ≤
          Limiter.entered task s steps + Limiter.paidOthers task s steps) ∧
      ∀ n, s.waiting.get? task = some n → s.bucket.capacity < n →
        ∀ k, (s.run (steps.take k)).waiting.get? task = some n := by
  constructor
  · intro hidle hmodest
    have hgone : ∀ n, s.waiting.get? task ≠ some n := by
      intro n hn
      rw [hidle] at hn
      cases hn
    exact (Limiter.turnedAway_le ⟨hnonneg, hcapacity, hwaiting⟩ hrate ⟨hasked, hclock⟩
      ⟨fun n hn => absurd hn (hgone n), hmodest⟩ hpunctual).2 fun n hn => absurd hn (hgone n)
  · intro n hn hover k
    exact Limiter.waiting_of_over hn hover

/-- The second task is turned away once, and once more after the third has taken its token. -/
theorem acquire_progress_three_tasks :
    let s : Limiter := ⟨TokenBucket.perMinute 60 none 0, Dict.empty⟩
    let steps : List LimiterStep := [.call 1 2, .iterate 1 0, .call 2 1, .iterate 2 0, .call 3 1,
      .iterate 3 1, .iterate 2 1, .iterate 2 2]
    Limiter.turnedAway 2 s steps = 2 ∧ (s.run steps).waiting.get? 2 = none ∧
      Limiter.turnedAway 2 s steps ≤
        Limiter.entered 2 s steps + Limiter.paidOthers 2 s steps := by
  refine ⟨by decide +kernel, by decide +kernel, ?_⟩
  refine (acquire_progress _ _ 2 (by decide +kernel) (by decide +kernel) (by decide +kernel)
    (by intro w hw; cases hw) (by simp [LimiterStep.asked]) (by decide +kernel)
    (by decide +kernel)).1 rfl ?_
  intro n hn
  have hone : n = 1 := by simpa using hn
  have hcap : (TokenBucket.perMinute 60 none 0).capacity = 2 := by decide +kernel
  rw [hone, hcap]
  norm_num

end CryptoData
