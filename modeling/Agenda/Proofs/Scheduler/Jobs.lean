import Agenda.Proofs.Scheduler.Durations
import Agenda.Scheduler

/-!
# Both jobs of the scheduler

The scheduler lets the job go on that wakes up first. Neither job depends on what the other does, nor on
what clients do to the store in between, so each of them lives the life of a job.

* `Job.goOn`: what is recorded of a job that goes on.
* `Reaches`: the states of the scheduler, with the records of both jobs.
* `Reaches.bothLive`: the records are lives of the jobs as they are in the state.
-/
namespace Agenda.Scheduler

variable {ρ σ : Type} {Scheduled : Instant → Prop} {upcoming : Instant → Option Instant}
  {start now t w : Instant} {cancel : Option Instant} {p : Phase ρ} {j : Job ρ}

/-! ## The record of one job -/

/-- A run that is on its way in a phase has not ended. -/
def Phase.runEnd? (now : Instant) : Phase ρ → Option Instant
  | running _ _ => none
  | _ => some now

theorem Phase.runEnd?_after (upcoming : Instant → Option Instant) (now : Instant)
    (p : Progress ρ) : (Phase.after upcoming now p).runEnd? now = p.end? now := by
  cases p with
  | finished =>
    unfold Phase.after Phase.idle
    cases upcoming now <;> rfl
  | pausing wakeUp rest => rfl

namespace Job

/-- Time passes, unless it is later already. -/
def sleep (t : Instant) (j : Job ρ) : Job ρ := { j with clock := max j.clock t }

/-- The phase of the job changes; it stops only once. -/
def become (p : Phase ρ) (runs : List Run) (j : Job ρ) : Job ρ where
  clock := j.clock
  phase := p
  runs := runs
  stopped := j.stopped.or (if p.isEnded then some j.clock else none)

/-- The job goes on: it begins a run, or its run goes on. -/
def goOn (work : Work σ ρ) (upcoming : Instant → Option Instant) (s : σ) (j : Job ρ) : Job ρ :=
  let p := (j.phase.step work upcoming j.clock s).1
  match j.phase, j.runs with
  | .waiting _, runs => j.become p (⟨j.clock, p.runEnd? j.clock⟩ :: runs)
  | .running _ _, r :: runs => j.become p (⟨r.began, p.runEnd? j.clock⟩ :: runs)
  | _, runs => j.become p runs

/-- The job is cancelled. -/
def stop (j : Job ρ) : Job ρ := j.become j.phase.cancel j.runs

end Job

/-- The record of a job that is in this phase now. -/
structure Recorded (upcoming : Instant → Option Instant) (start : Instant) (cancel : Option Instant)
    (now : Instant) (p : Phase ρ) (j : Job ρ) : Prop where
  life : Life upcoming start cancel j
  clock : j.clock = now
  phase : j.phase = p

namespace Recorded

theorem initial : Recorded upcoming start cancel start (.idle upcoming start : Phase ρ)
    (.since start (.idle upcoming start) []) :=
  ⟨.start, rfl, rfl⟩

theorem sleep (h : Recorded upcoming start cancel now p j) (hwake : ∀ w ∈ p.wakeUp?, t ≤ w)
    (hcancel : ∀ c ∈ cancel, t ≤ max start c) :
    Recorded upcoming start cancel (max now t) p (j.sleep t) := by
  obtain ⟨h, rfl, rfl⟩ := h
  rcases le_total t j.clock with hle | hle
  · have hsame : j.sleep t = j := by rw [Job.sleep, max_eq_left hle]
    rw [hsame, max_eq_left hle]
    exact ⟨h, rfl, rfl⟩
  · have hlater : j.sleep t = { j with clock := t } := by rw [Job.sleep, max_eq_right hle]
    rw [hlater, max_eq_right hle]
    exact ⟨h.sleep t hle hwake fun _ => hcancel, rfl, rfl⟩

section
variable (htells : Tells Scheduled start upcoming) (hcancel : ∀ c ∈ cancel, ¬ Scheduled c)
include htells hcancel

theorem start_le (h : Recorded upcoming start cancel now p j) : start ≤ now :=
  h.clock ▸ (h.life.sound htells hcancel).start_le

/-- A job that waits is not late. -/
theorem le_due {due : Instant}
    (h : Recorded upcoming start cancel now (.waiting due : Phase ρ) j) : now ≤ due := by
  obtain ⟨h, rfl, hp⟩ := h
  exact ((h.sound htells hcancel).waiting hp).2.clock

/-- At its wake-up time the job goes on, whatever its work. -/
theorem goOn (work : Work σ ρ) (s : σ) (h : Recorded upcoming start cancel now p j)
    (hw : w ∈ p.wakeUp?) (hle : w ≤ now) :
    Recorded upcoming start cancel now (p.step work upcoming now s).1
      (j.goOn work upcoming s) := by
  obtain ⟨clock, phase, runs, stopped⟩ := j
  have hsound := h.life.sound htells hcancel
  obtain ⟨h, rfl, rfl⟩ := h
  cases phase with
  | waiting due =>
    obtain rfl : due = w := Option.some.inj hw
    obtain ⟨halive, hdue⟩ := hsound.waiting rfl
    obtain rfl : stopped = none := halive
    obtain rfl : clock = due := le_antisymm hdue.clock hle
    have hlife := h.begin (work.begin clock s).1
    rw [← Phase.runEnd?_after upcoming] at hlife
    exact ⟨hlife, rfl, rfl⟩
  | running wakeUp rest =>
    obtain rfl : wakeUp = some w := hw
    obtain ⟨halive, hidle⟩ := hsound.running rfl
    obtain rfl : stopped = none := halive
    cases runs with
    | nil => cases hidle
    | cons r runs =>
      obtain ⟨began, ended⟩ := r
      obtain rfl : ended = none := hidle
      have hlife := h.goOn hle (work.goOn clock rest s).1
      rw [← Phase.runEnd?_after upcoming] at hlife
      exact ⟨hlife, rfl, rfl⟩
  | ended => cases hw

theorem cancelled {c : Instant} (h : Recorded upcoming start cancel now p j) (hc : c ∈ cancel)
    (hle : c ≤ now) : Recorded upcoming start cancel now p.cancel j.stop := by
  obtain ⟨clock, phase, runs, stopped⟩ := j
  have hsound := h.life.sound htells hcancel
  obtain ⟨h, rfl, rfl⟩ := h
  cases stopped with
  | none => exact ⟨h.cancel rfl hc hle, rfl, rfl⟩
  | some t =>
    obtain rfl : phase = .ended := hsound.ended_iff.2 ⟨t, rfl⟩
    exact ⟨h, rfl, rfl⟩

end

end Recorded

/-! ## Both jobs -/

variable {setup : Setup} {s s' : State}

theorem clock_advance (t : Instant) (s : State) : (s.advance t).clock = max s.clock t := by
  show (if s.clock < t then t else s.clock) = max s.clock t
  split
  · rename_i hlt
    exact (max_eq_right hlt.le).symm
  · rename_i hle
    exact (max_eq_left (not_lt.1 hle)).symm

theorem le_clock_advance (t : Instant) (s : State) : t ≤ (s.advance t).clock := by
  rw [clock_advance]
  exact le_max_right s.clock t

/-- The wake-up time of a job that has none before `t`. -/
theorem le_of_wakeUpBefore?_eq_none (h : State.wakeUpBefore? t p = none) (hw : w ∈ p.wakeUp?) :
    t ≤ w := by
  rw [State.wakeUpBefore?, Option.filter_eq_none_iff] at h
  exact not_lt.1 fun hlt => h w hw (decide_eq_true hlt)

theorem mem_of_wakeUpBefore? (h : State.wakeUpBefore? t p = some w) : w ∈ p.wakeUp? ∧ w < t := by
  obtain ⟨hw, hlt⟩ := Option.filter_eq_some_iff.1 h
  exact ⟨hw, of_decide_eq_true hlt⟩

/-- **One step.** The job that wakes up first goes on, if that is before `t`. -/
theorem step?_cases (h : s.step? setup t = some s') : ∃ w < t,
    (∀ w' ∈ s.purge.wakeUp?, w ≤ w') ∧ (∀ w' ∈ s.dispatch.wakeUp?, w ≤ w') ∧
    ((w ∈ s.purge.wakeUp? ∧ s' = (s.advance w).stepPurge setup) ∨
      (w ∈ s.dispatch.wakeUp? ∧ s' = (s.advance w).stepDispatch setup)) := by
  unfold State.step? at h
  cases hp : State.wakeUpBefore? t s.purge with
  | none =>
    have hlate (w) (hw : w ∈ s.purge.wakeUp?) : t ≤ w := le_of_wakeUpBefore?_eq_none hp hw
    cases hd : State.wakeUpBefore? t s.dispatch with
    | none => rw [hp, hd] at h; cases h
    | some d =>
      obtain ⟨hmem, hlt⟩ := mem_of_wakeUpBefore? hd
      rw [hp, hd] at h
      exact ⟨d, hlt, fun w hw => hlt.le.trans (hlate w hw),
        fun w hw => (Option.mem_unique hmem hw).le, .inr ⟨hmem, (Option.some.inj h).symm⟩⟩
  | some p =>
    obtain ⟨hmem, hlt⟩ := mem_of_wakeUpBefore? hp
    have hfirst (w) (hw : w ∈ s.purge.wakeUp?) : p ≤ w := (Option.mem_unique hmem hw).le
    cases hd : State.wakeUpBefore? t s.dispatch with
    | none =>
      rw [hp, hd] at h
      exact ⟨p, hlt, hfirst, fun w hw => hlt.le.trans (le_of_wakeUpBefore?_eq_none hd hw),
        .inl ⟨hmem, (Option.some.inj h).symm⟩⟩
    | some d =>
      obtain ⟨hmem', hlt'⟩ := mem_of_wakeUpBefore? hd
      have hfirst' (w) (hw : w ∈ s.dispatch.wakeUp?) : d ≤ w := (Option.mem_unique hmem' hw).le
      rw [hp, hd] at h
      dsimp only at h
      split at h
      · rename_i hle
        exact ⟨p, hlt, hfirst, fun w hw => hle.trans (hfirst' w hw),
          .inl ⟨hmem, (Option.some.inj h).symm⟩⟩
      · rename_i hgt
        exact ⟨d, hlt', fun w hw => (not_le.1 hgt).le.trans (hfirst w hw), hfirst',
          .inr ⟨hmem', (Option.some.inj h).symm⟩⟩

/-- The states of the scheduler, with the records of both jobs. A job that wakes up first goes on, time
passes until one wakes up, and both are cancelled. Clients and the broker may change what the jobs work
on at any time. -/
inductive Reaches (setup : Setup) (start : Instant) (cancel : Option Instant) :
    State → Job Empty → Job Sending → Prop where
  | start (accepts : Event → Bool) (b : Backend) :
      Reaches setup start cancel (Scheduler.start setup start accepts b)
        (.since start (.idle setup.upcoming start) []) (.since start (.idle setup.upcoming start) [])
  | purge {s : State} {p : Job Empty} {d : Job Sending} (h : Reaches setup start cancel s p d)
      (w : Instant) (hw : w ∈ s.purge.wakeUp?) (hfirst : ∀ u ∈ s.dispatch.wakeUp?, w ≤ u)
      (hcancel : ∀ c ∈ cancel, w ≤ max start c) :
      Reaches setup start cancel ((s.advance w).stepPurge setup)
        ((p.sleep w).goOn purgeWork setup.upcoming s.toWorld) (d.sleep w)
  | dispatch {s : State} {p : Job Empty} {d : Job Sending} (h : Reaches setup start cancel s p d)
      (w : Instant) (hw : w ∈ s.dispatch.wakeUp?) (hfirst : ∀ u ∈ s.purge.wakeUp?, w ≤ u)
      (hcancel : ∀ c ∈ cancel, w ≤ max start c) :
      Reaches setup start cancel ((s.advance w).stepDispatch setup) (p.sleep w)
        ((d.sleep w).goOn (dispatchWork setup.delay) setup.upcoming s.toWorld)
  | rest {s : State} {p : Job Empty} {d : Job Sending} (h : Reaches setup start cancel s p d)
      (t : Instant) (hpurge : ∀ w ∈ s.purge.wakeUp?, t ≤ w)
      (hdispatch : ∀ w ∈ s.dispatch.wakeUp?, t ≤ w) (hcancel : ∀ c ∈ cancel, t ≤ max start c) :
      Reaches setup start cancel (s.advance t) (p.sleep t) (d.sleep t)
  | change {s : State} {p : Job Empty} {d : Job Sending} (h : Reaches setup start cancel s p d)
      (w : World) : Reaches setup start cancel { s with toWorld := w } p d
  | cancel {s : State} {p : Job Empty} {d : Job Sending} {c : Instant}
      (h : Reaches setup start cancel s p d) (hc : c ∈ cancel) (hle : c ≤ s.clock) :
      Reaches setup start cancel s.cancel p.stop d.stop

variable {p : Job Empty} {d : Job Sending}

namespace Reaches

/-- The steps of the scheduler are such. -/
theorem step (h : Reaches setup start cancel s p d) (ht : ∀ c ∈ cancel, t ≤ max start c)
    (hstep : s.step? setup t = some s') : ∃ p' d', Reaches setup start cancel s' p' d' := by
  obtain ⟨w, hlt, hpurge, hdispatch, ⟨hw, rfl⟩ | ⟨hw, rfl⟩⟩ := step?_cases hstep
  · exact ⟨_, _, h.purge w hw hdispatch fun c hc => hlt.le.trans (ht c hc)⟩
  · exact ⟨_, _, h.dispatch w hw hpurge fun c hc => hlt.le.trans (ht c hc)⟩

/-- So is the rest until `t` that follows the last of them before `t`. -/
theorem advance (h : Reaches setup start cancel s p d) (ht : ∀ c ∈ cancel, t ≤ max start c)
    (hstep : s.step? setup t = none) :
    Reaches setup start cancel (s.advance t) (p.sleep t) (d.sleep t) := by
  unfold State.step? at hstep
  split at hstep
  · rename_i hp hd
    exact h.rest t (fun w => le_of_wakeUpBefore?_eq_none hp)
      (fun w => le_of_wakeUpBefore?_eq_none hd) ht
  · cases hstep
  · cases hstep
  · split at hstep <;> cases hstep

end Reaches

/-- Both jobs of the scheduler live, and these are their records. -/
structure BothLive (setup : Setup) (start : Instant) (cancel : Option Instant) (s : State)
    (p : Job Empty) (d : Job Sending) : Prop where
  purge : Recorded setup.upcoming start cancel s.clock s.purge p
  dispatch : Recorded setup.upcoming start cancel s.clock s.dispatch d

/-- Time passes up to the instant at which a job goes on. -/
theorem BothLive.advance (h : BothLive setup start cancel s p d)
    (hpurge : ∀ w ∈ s.purge.wakeUp?, t ≤ w) (hdispatch : ∀ w ∈ s.dispatch.wakeUp?, t ≤ w)
    (ht : ∀ c ∈ cancel, t ≤ max start c) :
    BothLive setup start cancel (s.advance t) (p.sleep t) (d.sleep t) := by
  have hp := h.purge.sleep hpurge ht
  have hd := h.dispatch.sleep hdispatch ht
  rw [← clock_advance] at hp hd
  exact ⟨hp, hd⟩

section
variable (htells : Tells Scheduled start setup.upcoming) (hcancel : ∀ c ∈ cancel, ¬ Scheduled c)
include htells hcancel

/-- **Jobs.** The records of both jobs are lives, and the jobs are where these say. -/
theorem Reaches.bothLive (h : Reaches setup start cancel s p d) :
    BothLive setup start cancel s p d := by
  induction h with
  | start accepts b => exact ⟨.initial, .initial⟩
  | purge _ w hw hfirst hc ih =>
    have hlive := ih.advance (fun u hu => (Option.mem_unique hw hu).le) hfirst hc
    exact ⟨hlive.purge.goOn htells hcancel purgeWork _ hw (le_clock_advance w _), hlive.dispatch⟩
  | dispatch _ w hw hfirst hc ih =>
    have hlive := ih.advance hfirst (fun u hu => (Option.mem_unique hw hu).le) hc
    exact ⟨hlive.purge, hlive.dispatch.goOn htells hcancel (dispatchWork setup.delay) _ hw
      (le_clock_advance w _)⟩
  | rest _ t hpurge hdispatch hc ih => exact ih.advance hpurge hdispatch hc
  | change _ w ih => exact ⟨ih.purge, ih.dispatch⟩
  | cancel _ hc hle ih =>
    exact ⟨ih.purge.cancelled htells hcancel hc hle, ih.dispatch.cancelled htells hcancel hc hle⟩

end

end Agenda.Scheduler
