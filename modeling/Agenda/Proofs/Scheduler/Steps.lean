import Agenda.Proofs.Retention.Expired
import Agenda.Proofs.Scheduler.Jobs

/-!
# Enough steps

The scheduler is run up to an instant in a bounded number of steps. The bound is never reached, because
the times of a schedule are whole seconds and a run handles each of the events that it has listed once:
what a job still has to do before the instant becomes less with each of its steps.

* `purgeSteps`, `dispatchSteps`: bounds for the steps of the jobs before an instant.
* `stepsBefore_rests`: after that many steps, no job goes on before the instant.
* `Reaches.runUntil`: so the scheduler can be run up to any instant.
-/
namespace Agenda.Scheduler

open Reminders

variable {Scheduled : Instant → Prop} {upcoming : Instant → Option Instant}
  {start now t u w : Instant} {cancel : Option Instant} {setup : Setup} {s s' : State} {n : Nat}
  {p : Job Empty} {d : Job Sending}

/-! ## Rounds -/

/-- The whole seconds from an instant until `t`. -/
def secondsUntil (t now : Instant) : Nat := (t.seconds - now.seconds).toNat

theorem secondsUntil_mono (h : now ≤ u) : secondsUntil t u ≤ secondsUntil t now := by
  rw [Instant.le_def] at h
  simp only [secondsUntil]
  omega

/-- The runs that can begin before `t` if the next one is due then. -/
def rounds (t due : Instant) : Nat := if due < t then secondsUntil t due + 1 else 0

/-- After an instant, no more runs can begin than there are seconds left. -/
theorem rounds_le (hwhole : u.nanos = 0) (hlt : now < u) : rounds t u ≤ secondsUntil t now := by
  rw [Instant.lt_def] at hlt
  unfold rounds
  split
  · rename_i ht
    rw [Instant.lt_def] at ht
    simp only [secondsUntil]
    omega
  · exact Nat.zero_le _

theorem rounds_le_of_le {due : Instant} (h : now ≤ due) :
    rounds t due ≤ secondsUntil t now + 1 := by
  unfold rounds
  split
  · exact Nat.succ_le_succ (secondsUntil_mono h)
  · exact Nat.zero_le _

/-! ## Steps of one job -/

/-- A bound for the steps that the purge takes before `t`. -/
def purgeSteps (t : Instant) : Phase Empty → Nat
  | .waiting due => rounds t due
  | _ => 0

/-- A bound for the steps that the dispatch takes before `t` if at most `n` events are stored. -/
def dispatchSteps (t : Instant) (n : Nat) (clock : Instant) : Phase Sending → Nat
  | .waiting due => rounds t due * (n + 1)
  | .running (some w) sending =>
    if w < t then sending.rest.length + 1 + secondsUntil t (max clock w) * (n + 1) else 0
  | _ => 0

section
variable (htells : Tells Scheduled start upcoming) (hwhole : ∀ u, Scheduled u → u.nanos = 0)
  (hstart : start ≤ now)
include htells hwhole hstart

theorem rounds_idle {due : Instant} (h : upcoming now = some due) :
    rounds t due ≤ secondsUntil t now := by
  have hnext := htells now hstart
  rw [h] at hnext
  exact rounds_le (hwhole due hnext.1.1) hnext.1.2

theorem purgeSteps_idle : purgeSteps t (.idle upcoming now) ≤ secondsUntil t now := by
  unfold Phase.idle
  cases hup : upcoming now with
  | some due => exact rounds_idle htells hwhole hstart hup
  | none => exact Nat.zero_le _

theorem dispatchSteps_idle :
    dispatchSteps t n now (.idle upcoming now) ≤ secondsUntil t now * (n + 1) := by
  unfold Phase.idle
  cases hup : upcoming now with
  | some due => exact Nat.mul_le_mul_right _ (rounds_idle htells hwhole hstart hup)
  | none => exact Nat.zero_le _

end

/-- Handing over the next message leaves fewer events, or none. -/
theorem publishNext_cases (delay : Duration) (now : Instant) (w : World) (es : List Event) :
    (publishNext delay now w es).2.backend = w.backend ∧
    ((publishNext delay now w es).1 = .finished ∨ ∃ wakeUp sending,
      (publishNext delay now w es).1 = .pausing wakeUp sending ∧
        sending.rest.length < es.length) := by
  induction es with
  | nil => exact ⟨rfl, .inl rfl⟩
  | cons e es ih =>
    unfold publishNext
    cases publish w.accepts e with
    | none =>
      obtain ⟨hb, hf | ⟨wakeUp, sending, hp, hlt⟩⟩ := ih
      · exact ⟨hb, .inl hf⟩
      · exact ⟨hb, .inr ⟨wakeUp, sending, hp, Nat.lt_succ_of_lt hlt⟩⟩
    | some m => exact ⟨rfl, .inr ⟨_, _, rfl, Nat.lt_succ_self _⟩⟩

theorem dispatchSteps_after (htells : Tells Scheduled start upcoming)
    (hwhole : ∀ u, Scheduled u → u.nanos = 0) (hstart : start ≤ now) (delay : Duration) (w : World)
    (es : List Event) :
    dispatchSteps t n now (.after upcoming now (publishNext delay now w es).1) ≤
      es.length + secondsUntil t now * (n + 1) := by
  obtain ⟨-, hf | ⟨wakeUp, sending, hp, hlt⟩⟩ := publishNext_cases delay now w es
  · rw [hf]
    exact (dispatchSteps_idle htells hwhole hstart).trans (Nat.le_add_left _ _)
  · rw [hp]
    cases wakeUp with
    | none => exact Nat.zero_le _
    | some w =>
      have hmono : secondsUntil t (max now w) * (n + 1) ≤ secondsUntil t now * (n + 1) :=
        Nat.mul_le_mul_right _ (secondsUntil_mono (le_max_left now w))
      simp only [Phase.after, dispatchSteps]
      split <;> omega

/-- Time that passes leaves less to do. -/
theorem dispatchSteps_mono {clock : Instant} (p : Phase Sending) (h : clock ≤ now) :
    dispatchSteps t n now p ≤ dispatchSteps t n clock p := by
  unfold dispatchSteps
  split
  · exact le_refl _
  · rename_i w sending
    have hmono : secondsUntil t (max now w) * (n + 1) ≤ secondsUntil t (max clock w) * (n + 1) :=
      Nat.mul_le_mul_right _ (secondsUntil_mono (max_le_max_right w h))
    split <;> omega
  · exact le_refl _

/-! ## What is stored -/

theorem length_purge {b : Backend} {p : Nat × Backend} (h : Retention.purge now b = .ok p) :
    p.2.store.events.length ≤ b.store.events.length := by
  rw [Retention.purge_eq h, (Retention.sweep_removesExpired (.refl _) now).stored.length_eq]
  exact List.length_filter_le _ _

theorem length_mark {e : Event} {b b' : Backend} (h : mark e b = .ok b') :
    b'.store.events.length = b.store.events.length := by
  obtain ⟨-, hs, -⟩ := Backend.change_ok h
  rw [(Store.update_ok hs).2, Store.replaced, List.length_map]

theorem length_beginPurge (now : Instant) (w : World) :
    (purgeWork.begin now w).2.backend.store.events.length ≤ w.backend.store.events.length := by
  dsimp only [purgeWork]
  cases hp : Retention.purge now w.backend with
  | ok p => exact length_purge hp
  | error err => exact le_refl _

theorem backend_beginDispatch (delay : Duration) (now : Instant) (w : World) :
    ((dispatchWork delay).begin now w).2.backend = w.backend := by
  unfold dispatchWork
  dsimp only
  split
  · exact (publishNext_cases ..).1
  · rfl

theorem length_goOnDispatch (delay : Duration) (now : Instant) (sending : Sending) (w : World) :
    ((dispatchWork delay).goOn now sending w).2.backend.store.events.length =
      w.backend.store.events.length := by
  unfold dispatchWork
  dsimp only
  rw [(publishNext_cases ..).1]
  split
  · cases hm : mark sending.event w.backend with
    | ok b => exact length_mark hm
    | error err => rfl
  · rfl

theorem length_stepPurge (s : State) :
    (s.stepPurge setup).backend.store.events.length ≤ s.backend.store.events.length := by
  show (s.purge.step purgeWork setup.upcoming s.clock s.toWorld).2.backend.store.events.length ≤ _
  cases s.purge with
  | waiting due => exact length_beginPurge s.clock s.toWorld
  | running wakeUp rest => cases rest
  | ended => exact le_refl _

theorem length_stepDispatch (s : State) :
    (s.stepDispatch setup).backend.store.events.length = s.backend.store.events.length := by
  show (s.dispatch.step (dispatchWork setup.delay) setup.upcoming s.clock
    s.toWorld).2.backend.store.events.length = _
  cases s.dispatch with
  | waiting due =>
    show ((dispatchWork setup.delay).begin s.clock s.toWorld).2.backend.store.events.length = _
    rw [backend_beginDispatch]
  | running wakeUp sending => exact length_goOnDispatch setup.delay s.clock sending s.toWorld
  | ended => rfl

/-- No step stores an event. -/
theorem length_step? (h : s.step? setup t = some s') :
    s'.backend.store.events.length ≤ s.backend.store.events.length := by
  obtain ⟨w, -, -, -, ⟨-, rfl⟩ | ⟨-, rfl⟩⟩ := step?_cases h
  · exact length_stepPurge (s.advance w)
  · exact (length_stepDispatch (s.advance w)).le

/-! ## Steps of both jobs -/

/-- A bound for the steps of both jobs before `t` if at most `n` events are stored. -/
def steps (t : Instant) (n : Nat) (s : State) : Nat :=
  purgeSteps t s.purge + dispatchSteps t n s.clock s.dispatch

/-! ## The limit -/

section
variable (htells : Tells Scheduled start setup.upcoming) (hcancel : ∀ c ∈ cancel, ¬ Scheduled c)
include htells hcancel

theorem purgeSteps_le (h : BothLive setup start cancel s p d) :
    purgeSteps t s.purge ≤ secondsUntil t s.clock + 1 := by
  have hlive := h.purge
  unfold purgeSteps
  split
  · rename_i due hp
    rw [hp] at hlive
    exact rounds_le_of_le (hlive.le_due htells hcancel)
  · exact Nat.zero_le _

theorem dispatchSteps_le (h : BothLive setup start cancel s p d) :
    dispatchSteps t n s.clock s.dispatch ≤
      (State.pending s.dispatch).length + (secondsUntil t s.clock + 1) * (n + 1) := by
  have hlive := h.dispatch
  unfold dispatchSteps
  split
  · rename_i due hp
    rw [hp] at hlive
    have hrounds : rounds t due * (n + 1) ≤ (secondsUntil t s.clock + 1) * (n + 1) :=
      Nat.mul_le_mul_right _ (rounds_le_of_le (hlive.le_due htells hcancel))
    exact hrounds.trans (Nat.le_add_left _ _)
  · rename_i w sending hp
    have hmono : secondsUntil t (max s.clock w) * (n + 1) ≤ secondsUntil t s.clock * (n + 1) :=
      Nat.mul_le_mul_right _ (secondsUntil_mono (le_max_left s.clock w))
    rw [hp, Nat.add_mul]
    simp only [State.pending]
    split <;> omega
  · exact Nat.zero_le _

theorem steps_le_stepLimit (h : BothLive setup start cancel s p d) :
    steps t s.backend.store.events.length s ≤ s.stepLimit t := by
  have hpurge := purgeSteps_le htells hcancel h (t := t)
  have hdispatch := dispatchSteps_le htells hcancel h (t := t) (n := s.backend.store.events.length)
  have hevents : (secondsUntil t s.clock + 1) * (s.backend.store.events.length + 2) ≤
      (secondsUntil t s.clock + 2) *
        (s.backend.store.events.length + (State.pending s.dispatch).length + 2) :=
    Nat.mul_le_mul (Nat.le_succ _) (by omega)
  have hpending : (State.pending s.dispatch).length ≤ (secondsUntil t s.clock + 2) *
      (s.backend.store.events.length + (State.pending s.dispatch).length + 2) :=
    le_trans (by omega) (Nat.le_mul_of_pos_left _ (Nat.succ_pos _))
  rw [Nat.mul_add _ _ 2] at hevents
  rw [Nat.mul_add _ _ 1] at hdispatch
  unfold steps State.stepLimit
  rw [Nat.mul_assoc]
  simp only [secondsUntil] at *
  omega

end

/-! ## Enough steps -/

section
variable (htells : Tells Scheduled start setup.upcoming) (hcancel : ∀ c ∈ cancel, ¬ Scheduled c)
  (hwhole : ∀ u, Scheduled u → u.nanos = 0)
include htells hcancel hwhole

/-- The purge has fewer steps left after one. -/
theorem purgeSteps_lt (h : BothLive setup start cancel s p d) (hw : w ∈ s.purge.wakeUp?) (hlt : w < t)
    (hle : w ≤ s.clock) : purgeSteps t (s.stepPurge setup).purge < purgeSteps t s.purge := by
  have hlive := h.purge
  have hstart : start ≤ s.clock := hlive.start_le htells hcancel
  show purgeSteps t (s.purge.step purgeWork setup.upcoming s.clock s.toWorld).1 < _
  cases hp : s.purge with
  | waiting due =>
    rw [hp] at hw hlive
    obtain rfl : due = w := Option.some.inj hw
    have hclock : s.clock = due := le_antisymm (hlive.le_due htells hcancel) hle
    have hidle : purgeSteps t (.idle setup.upcoming s.clock) ≤ secondsUntil t s.clock :=
      purgeSteps_idle htells hwhole hstart
    have hbefore : purgeSteps t (.waiting due) = secondsUntil t s.clock + 1 := by
      simp only [purgeSteps, rounds, if_pos hlt, hclock]
    rw [hbefore]
    exact Nat.lt_succ_of_le hidle
  | running wakeUp rest => cases rest
  | ended => rw [hp] at hw; cases hw

/-- So has the dispatch. -/
theorem dispatchSteps_lt (h : BothLive setup start cancel s p d) (hw : w ∈ s.dispatch.wakeUp?)
    (hlt : w < t) (hle : w ≤ s.clock) (hn : s.backend.store.events.length ≤ n) :
    dispatchSteps t n s.clock (s.stepDispatch setup).dispatch <
      dispatchSteps t n s.clock s.dispatch := by
  have hlive := h.dispatch
  have hstart : start ≤ s.clock := hlive.start_le htells hcancel
  show dispatchSteps t n s.clock
    (s.dispatch.step (dispatchWork setup.delay) setup.upcoming s.clock s.toWorld).1 < _
  cases hp : s.dispatch with
  | waiting due =>
    rw [hp] at hw hlive
    obtain rfl : due = w := Option.some.inj hw
    have hclock : s.clock = due := le_antisymm (hlive.le_due htells hcancel) hle
    have hbefore : dispatchSteps t n s.clock (.waiting due) =
        (secondsUntil t s.clock + 1) * (n + 1) := by
      simp only [dispatchSteps, rounds, if_pos hlt, hclock]
    have hafter : dispatchSteps t n s.clock
        (.after setup.upcoming s.clock ((dispatchWork setup.delay).begin s.clock s.toWorld).1) ≤
          n + secondsUntil t s.clock * (n + 1) := by
      dsimp only [dispatchWork]
      cases hl : s.backend.list with
      | ok es =>
        rw [Backend.list_ok hl]
        have hdue : (dueEvents s.clock s.backend.store.events).length ≤ n :=
          (List.length_filter_le _ _).trans hn
        exact (dispatchSteps_after htells hwhole hstart _ _ _).trans (Nat.add_le_add_right hdue _)
      | error err =>
        exact (dispatchSteps_idle htells hwhole hstart).trans (Nat.le_add_left _ _)
    rw [hbefore, Nat.add_mul]
    refine lt_of_le_of_lt hafter ?_
    omega
  | running wakeUp sending =>
    rw [hp] at hw
    obtain rfl : wakeUp = some w := hw
    have hbefore : dispatchSteps t n s.clock (.running (some w) sending) =
        sending.rest.length + 1 + secondsUntil t s.clock * (n + 1) := by
      simp only [dispatchSteps, if_pos hlt, max_eq_left hle]
    rw [hbefore]
    refine lt_of_le_of_lt (dispatchSteps_after htells hwhole hstart _ _ _) ?_
    omega
  | ended => rw [hp] at hw; cases hw

/-- **One step.** After it, there are fewer steps left. -/
theorem steps_lt (h : BothLive setup start cancel s p d) (ht : ∀ c ∈ cancel, t ≤ max start c)
    (hn : s.backend.store.events.length ≤ n) (hstep : s.step? setup t = some s') :
    steps t n s' < steps t n s := by
  obtain ⟨w, hlt, hpurge, hdispatch, hcase⟩ := step?_cases hstep
  have hlive := h.advance hpurge hdispatch fun c hc => hlt.le.trans (ht c hc)
  have hle := le_clock_advance w s
  have hmono : dispatchSteps t n (s.advance w).clock s.dispatch ≤
      dispatchSteps t n s.clock s.dispatch := by
    rw [clock_advance]
    exact dispatchSteps_mono _ (le_max_left _ _)
  unfold steps
  rcases hcase with ⟨hw, rfl⟩ | ⟨hw, rfl⟩
  · exact Nat.add_lt_add_of_lt_of_le (purgeSteps_lt htells hcancel hwhole hlive hw hlt hle) hmono
  · have hless := dispatchSteps_lt htells hcancel hwhole hlive hw hlt hle hn
    exact Nat.add_lt_add_of_le_of_lt (le_refl _) (hless.trans_le hmono)

/-- As many steps as there are left at most, and no job goes on any more. -/
theorem stepsBefore_rests (limit : Nat) (h : Reaches setup start cancel s p d)
    (ht : ∀ c ∈ cancel, t ≤ max start c) (hn : s.backend.store.events.length ≤ n)
    (hlimit : steps t n s ≤ limit) : (State.stepsBefore setup t limit s).step? setup t = none ∧
      ∃ p' d', Reaches setup start cancel (State.stepsBefore setup t limit s) p' d' := by
  induction limit generalizing s p d with
  | zero =>
    refine ⟨?_, p, d, h⟩
    rw [State.stepsBefore, Option.eq_none_iff_forall_ne_some]
    intro s' hstep
    have hless := steps_lt htells hcancel hwhole (h.bothLive htells hcancel) ht hn hstep
    omega
  | succ limit ih =>
    unfold State.stepsBefore
    cases hstep : s.step? setup t with
    | none => exact ⟨hstep, p, d, h⟩
    | some s' =>
      have hless := steps_lt htells hcancel hwhole (h.bothLive htells hcancel) ht hn hstep
      obtain ⟨p', d', h'⟩ := h.step ht hstep
      exact ih h' ((length_step? hstep).trans hn) (by omega)

/-- **Running.** The scheduler can be run up to any instant: all that its jobs have to do before is
done. -/
theorem Reaches.runUntil (h : Reaches setup start cancel s p d)
    (ht : ∀ c ∈ cancel, t ≤ max start c) :
    ∃ p' d', Reaches setup start cancel (s.runUntil setup t) p' d' := by
  have hsteps := steps_le_stepLimit htells hcancel (h.bothLive htells hcancel) (t := t)
  obtain ⟨hrests, p', d', h'⟩ := stepsBefore_rests htells hcancel hwhole _ h ht (le_refl _) hsteps
  exact ⟨_, _, h'.advance ht hrests⟩

end

end Agenda.Scheduler
