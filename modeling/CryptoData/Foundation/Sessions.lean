import Mathlib.Data.List.Basic

/-!
# Sessions — a machine that lives through reconnects

A feed arrives in sessions: each of them is a list of messages.  A machine reads the messages one
after the other and keeps its state over the end of a session, while what the other side means by
a message may depend on the session it came in.

A `Moment` is a place in the feed: the messages of the earlier sessions, those before it in its own
session, and the message that arrives.  What the machine puts out over the whole feed is what it
puts out at its moments (`outputs_flatten`).  Each moment lies in one of the sessions
(`since_prefix_of_mem`), and a later one has the message of an earlier one behind it
(`moments_pairwise`).
-/

namespace Foundation

variable {α σ β : Type*}

/-! ## Moments -/

structure Moment (α : Type*) where
  earlier : List α
  before : List α
  message : α

namespace Moment

/-- Everything that has arrived before the message. -/
def past (m : Moment α) : List α :=
  m.earlier ++ m.before

/-- The session up to and including the message. -/
def since (m : Moment α) : List α :=
  m.before ++ [m.message]

end Moment

def sessionMoments (earlier : List α) : List α → List α → List (Moment α)
  | _, [] => []
  | before, a :: rest => ⟨earlier, before, a⟩ :: sessionMoments earlier (before ++ [a]) rest

/-- The moments of a feed, behind what has arrived in earlier sessions. -/
def momentsFrom : List α → List (List α) → List (Moment α)
  | _, [] => []
  | earlier, session :: sessions =>
      sessionMoments earlier [] session ++ momentsFrom (earlier ++ session) sessions

def moments (sessions : List (List α)) : List (Moment α) :=
  momentsFrom [] sessions

lemma mem_sessionMoments {earlier : List α} {m : Moment α} :
    ∀ {before session : List α}, m ∈ sessionMoments earlier before session →
      m.earlier = earlier ∧ before <+: m.before ∧ m.since <+: before ++ session
  | _, [], h => absurd h List.not_mem_nil
  | before, a :: rest, h => by
      rcases List.mem_cons.1 h with rfl | hrest
      · refine ⟨rfl, List.prefix_rfl, ?_⟩
        exact (List.prefix_append_right_inj before).2 (List.prefix_append [a] rest)
      · rcases mem_sessionMoments hrest with ⟨hearlier, hbefore, hsince⟩
        have hcons : before ++ [a] ++ rest = before ++ a :: rest :=
          List.append_assoc before [a] rest
        exact ⟨hearlier, (List.prefix_append before [a]).trans hbefore, hcons ▸ hsince⟩

lemma mem_momentsFrom {m : Moment α} :
    ∀ {earlier : List α} {sessions : List (List α)}, m ∈ momentsFrom earlier sessions →
      earlier <+: m.earlier ∧ ∃ session ∈ sessions, m.since <+: session
  | _, [], h => absurd h List.not_mem_nil
  | earlier, session :: sessions, h => by
      rcases List.mem_append.1 h with hhere | hlater
      · rcases mem_sessionMoments hhere with ⟨hearlier, _, hsince⟩
        exact ⟨hearlier ▸ List.prefix_rfl, session, List.mem_cons_self, hsince⟩
      · rcases mem_momentsFrom hlater with ⟨hearlier, other, hother, hsince⟩
        exact ⟨(List.prefix_append earlier session).trans hearlier, other,
          List.mem_cons_of_mem _ hother, hsince⟩

/-- What a session has brought up to a moment is the beginning of one of the sessions. -/
theorem since_prefix_of_mem {sessions : List (List α)} {m : Moment α} (h : m ∈ moments sessions) :
    ∃ session ∈ sessions, m.since <+: session :=
  (mem_momentsFrom h).2

/-- The second moment has the message of the first behind it. -/
def Moment.Precedes (m m' : Moment α) : Prop :=
  m.past ++ [m.message] <+: m'.past

lemma sessionMoments_pairwise (earlier : List α) :
    ∀ before session : List α, (sessionMoments earlier before session).Pairwise Moment.Precedes
  | _, [] => List.Pairwise.nil
  | before, a :: rest => by
      refine List.Pairwise.cons ?_ (sessionMoments_pairwise earlier (before ++ [a]) rest)
      intro m hm
      rcases mem_sessionMoments hm with ⟨hearlier, hbefore, _⟩
      have hpast : earlier ++ (before ++ [a]) <+: earlier ++ m.before :=
        (List.prefix_append_right_inj earlier).2 hbefore
      rw [Moment.Precedes, Moment.past, Moment.past, hearlier, List.append_assoc]
      exact hpast

lemma momentsFrom_pairwise :
    ∀ (sessions : List (List α)) (earlier : List α),
      (momentsFrom earlier sessions).Pairwise Moment.Precedes
  | [], _ => List.Pairwise.nil
  | session :: sessions, earlier => by
      refine List.pairwise_append.2
        ⟨sessionMoments_pairwise _ _ _, momentsFrom_pairwise sessions _, ?_⟩
      intro m hm m' hm'
      rcases mem_sessionMoments hm with ⟨hearlier, _, hsince⟩
      have hlater : earlier ++ session <+: m'.past :=
        (mem_momentsFrom hm').1.trans (List.prefix_append _ _)
      have hhere : m.past ++ [m.message] <+: earlier ++ session := by
        rw [Moment.past, hearlier, List.append_assoc]
        exact (List.prefix_append_right_inj earlier).2 hsince
      exact hhere.trans hlater

/-- The moments stand in the order of the feed. -/
theorem moments_pairwise (sessions : List (List α)) :
    (moments sessions).Pairwise Moment.Precedes :=
  momentsFrom_pairwise sessions []

/-! ## The machine -/

variable (step : σ → α → σ × List β)

def stateAfter (start : σ) (messages : List α) : σ :=
  messages.foldl (fun s a => (step s a).1) start

def outputs : σ → List α → List β
  | _, [] => []
  | s, a :: messages => (step s a).2 ++ outputs (step s a).1 messages

/-- What is put out at a moment. -/
def outputAt (start : σ) (m : Moment α) : List β :=
  (step (stateAfter step start m.past) m.message).2

lemma stateAfter_concat (start : σ) (messages : List α) (a : α) :
    stateAfter step start (messages ++ [a]) = (step (stateAfter step start messages) a).1 := by
  rw [stateAfter, List.foldl_append]
  rfl

/-- What every message preserves holds after all of them. -/
theorem stateAfter_induction {P : σ → Prop} (h : ∀ s a, P s → P (step s a).1) :
    ∀ (messages : List α) {start : σ}, P start → P (stateAfter step start messages)
  | [], _, hstart => hstart
  | a :: messages, start, hstart => stateAfter_induction h messages (h start a hstart)

/-- The state at a later moment comes from the one that the earlier moment has left. -/
lemma stateAfter_of_precedes (start : σ) {m m' : Moment α} (h : m.Precedes m') :
    ∃ messages, stateAfter step start m'.past =
      stateAfter step (step (stateAfter step start m.past) m.message).1 messages := by
  rcases h with ⟨messages, hpast⟩
  refine ⟨messages, ?_⟩
  have hsplit : stateAfter step start (m.past ++ [m.message] ++ messages) =
      stateAfter step (stateAfter step start (m.past ++ [m.message])) messages :=
    List.foldl_append
  rw [← hpast, hsplit, stateAfter_concat]

lemma outputs_append :
    ∀ (messages later : List α) (start : σ),
      outputs step start (messages ++ later) =
        outputs step start messages ++ outputs step (stateAfter step start messages) later
  | [], _, _ => rfl
  | a :: messages, later, start => by
      rw [List.cons_append, outputs, outputs_append messages later, outputs, List.append_assoc]
      rfl

/-- Whatever is put out is put out by a step. -/
lemma exists_step_of_mem_outputs {b : β} :
    ∀ {messages : List α} {start : σ}, b ∈ outputs step start messages →
      ∃ s a, b ∈ (step s a).2
  | a :: _, start, h => by
      rcases List.mem_append.1 h with hhere | hlater
      · exact ⟨start, a, hhere⟩
      · exact exists_step_of_mem_outputs hlater

lemma outputs_session (start : σ) (earlier : List α) :
    ∀ before session : List α,
      (sessionMoments earlier before session).flatMap (outputAt step start) =
        outputs step (stateAfter step start (earlier ++ before)) session
  | _, [] => rfl
  | before, a :: session => by
      rw [sessionMoments, List.flatMap_cons, outputs_session start earlier (before ++ [a]) session,
        ← List.append_assoc, stateAfter_concat]
      rfl

lemma outputs_sessions (start : σ) :
    ∀ (sessions : List (List α)) (earlier : List α),
      (momentsFrom earlier sessions).flatMap (outputAt step start) =
        outputs step (stateAfter step start earlier) sessions.flatten
  | [], _ => rfl
  | session :: sessions, earlier => by
      have hstate : stateAfter step start (earlier ++ session) =
          stateAfter step (stateAfter step start earlier) session := List.foldl_append
      rw [momentsFrom, List.flatMap_append, outputs_session, List.append_nil,
        outputs_sessions start sessions, List.flatten_cons, outputs_append, hstate]

theorem outputs_flatten (start : σ) (sessions : List (List α)) :
    outputs step start sessions.flatten = (moments sessions).flatMap (outputAt step start) :=
  (outputs_sessions step start sessions []).symm

end Foundation
