import Mathlib.Order.MinMax

/-!
# Period — half-open periods, some of them open-ended

A period starts at an instant and ends before another one, or never.  It may be empty.

An open-ended period is apart from another one exactly if that one is over by the time both have
started (`apart_openEnded_iff`).
-/

namespace Foundation

variable {τ : Type*} [LinearOrder τ]

structure Period (τ : Type*) where
  start : τ
  stop : Option τ
  deriving DecidableEq, Repr

namespace Period

def covers (p : Period τ) (t : τ) : Bool :=
  decide (p.start ≤ t) && p.stop.all fun stop => decide (t < stop)

@[simp] theorem covers_iff {p : Period τ} {t : τ} :
    p.covers t = true ↔ p.start ≤ t ∧ ∀ stop ∈ p.stop, t < stop := by
  cases h : p.stop with
  | none => simp [covers, h]
  | some stop => simp [covers, h]

/-- No instant lies in both. -/
def Apart (p q : Period τ) : Prop :=
  ∀ t, ¬ (p.covers t = true ∧ q.covers t = true)

theorem Apart.symm {p q : Period τ} (h : p.Apart q) : q.Apart p :=
  fun t hboth => h t hboth.symm

/-- Shorter periods stay apart. -/
theorem Apart.mono {p p' q q' : Period τ} (h : p.Apart q)
    (hp : ∀ t, p'.covers t = true → p.covers t = true)
    (hq : ∀ t, q'.covers t = true → q.covers t = true) : p'.Apart q' :=
  fun t hboth => h t ⟨hp t hboth.1, hq t hboth.2⟩

theorem apart_openEnded_iff {p : Period τ} {start : τ} :
    p.Apart ⟨start, none⟩ ↔ ∃ stop ∈ p.stop, stop ≤ max start p.start := by
  constructor
  · intro h
    by_contra hno
    -- The later of the two starts lies in both.
    apply h (max start p.start)
    rw [covers_iff, covers_iff]
    refine ⟨⟨le_max_right _ _, ?_⟩, le_max_left _ _, by simp⟩
    intro stop hstop
    by_contra hover
    exact hno ⟨stop, hstop, not_lt.1 hover⟩
  · rintro ⟨stop, hstop, hle⟩ t ⟨hp, hopen⟩
    rw [covers_iff] at hp hopen
    exact absurd (hle.trans (max_le hopen.1 hp.1)) (not_le.2 (hp.2 stop hstop))

/-- End an open-ended period; one that has an end keeps it. -/
def close (p : Period τ) (stop : τ) : Period τ :=
  { p with stop := some (p.stop.getD stop) }

theorem covers_of_covers_close {p : Period τ} {stop t : τ} (h : (p.close stop).covers t = true) :
    p.covers t = true := by
  rw [covers_iff] at h ⊢
  refine ⟨h.1, ?_⟩
  intro stop' hstop'
  refine h.2 stop' ?_
  simp only [close, Option.mem_def.1 hstop', Option.getD_some]
  rfl

end Period

end Foundation
