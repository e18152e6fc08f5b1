import Agenda.Proofs.Cron.Earliest
import Agenda.Proofs.Time.Order
import Agenda.Scheduler.Loop

/-!
# The discipline of the loop

A life of a job is what the loop makes of a schedule, a start, a cancellation and runs that take as
long as they like. Time passes in it only up to the instant at which the job goes on or is cancelled.
Whatever the runs do, they begin at scheduled instants one after the other, none is missed while the
job is idle, and the job ends when it is cancelled or nothing is scheduled any more.

* `Life`: the lives of a job, step by step.
* `Served`: every run began at the first scheduled instant since the job was idle.
* `Sound`: the invariant; `Life.sound`: it holds all life long.
* `Disciplined`: what follows for the runs and the end of the job.
-/
namespace Agenda.Scheduler

open Cron (Earliest)

/-! ## Lives -/

/-- A run of a job: when it began, and when it ended, if it did. -/
structure Run where
  began : Instant
  ended : Option Instant
  deriving DecidableEq, Repr

/-- A job at an instant, with its runs, last one first, and the instant at which it has stopped. -/
structure Job (ρ : Type) where
  clock : Instant
  phase : Phase ρ
  runs : List Run
  stopped : Option Instant

variable {ρ : Type}

/-- The job is in this phase from `now` on. -/
def Job.since (now : Instant) (p : Phase ρ) (runs : List Run) : Job ρ where
  clock := now
  phase := p
  runs := runs
  stopped := if p.isEnded then some now else none

/-- When a run that has come so far has ended. -/
def Progress.end? (now : Instant) : Progress ρ → Option Instant
  | finished => some now
  | pausing _ _ => none

/-- What becomes of a job from its start on. A run may take any time and pause any number of times;
what the job works on is free to change in between. A job that is cancelled before it starts is
cancelled when it starts. -/
inductive Life (upcoming : Instant → Option Instant) (start : Instant) (cancel : Option Instant) :
    Job ρ → Prop where
  | start : Life upcoming start cancel (.since start (.idle upcoming start) [])
  /-- Time passes, but the job does not oversleep, and it does not outlive its cancellation. -/
  | sleep {j : Job ρ} (h : Life upcoming start cancel j) (t : Instant) (ht : j.clock ≤ t)
      (hwake : ∀ w ∈ j.phase.wakeUp?, t ≤ w)
      (hcancel : j.stopped = none → ∀ c ∈ cancel, t ≤ max start c) :
      Life upcoming start cancel { j with clock := t }
  /-- A run begins when it is due. -/
  | begin {due : Instant} {runs : List Run}
      (h : Life upcoming start cancel ⟨due, .waiting due, runs, none⟩) (p : Progress ρ) :
      Life upcoming start cancel (.since due (.after upcoming due p) (⟨due, p.end? due⟩ :: runs))
  /-- A run goes on after a pause. -/
  | goOn {now wakeUp began : Instant} {rest : ρ} {runs : List Run}
      (h : Life upcoming start cancel
        ⟨now, .running (some wakeUp) rest, ⟨began, none⟩ :: runs, none⟩)
      (hwake : wakeUp ≤ now) (p : Progress ρ) :
      Life upcoming start cancel (.since now (.after upcoming now p) (⟨began, p.end? now⟩ :: runs))
  | cancel {j : Job ρ} {c : Instant} (h : Life upcoming start cancel j) (halive : j.stopped = none)
      (hmem : c ∈ cancel) (hc : c ≤ j.clock) :
      Life upcoming start cancel (.since j.clock j.phase.cancel j.runs)

/-! ## Runs -/

/-- Since when the job has been idle, if no run is on its way. -/
def idleSince (start : Instant) : List Run → Option Instant
  | [] => some start
  | r :: _ => r.ended

/-- Every run began at the first scheduled instant since the job was idle, and has not ended before it
began. -/
def Served (Scheduled : Instant → Prop) (start : Instant) : List Run → Prop
  | [] => True
  | r :: runs =>
    (∃ idle ∈ idleSince start runs, Earliest (fun t => Scheduled t ∧ idle < t) (some r.began)) ∧
      (∀ t ∈ r.ended, r.began ≤ t) ∧ Served Scheduled start runs

variable {Scheduled : Instant → Prop} {start t u : Instant} {runs : List Run} {r : Run}

namespace Served

theorem start_le (h : Served Scheduled start runs) (ht : t ∈ idleSince start runs) : start ≤ t := by
  induction runs generalizing t with
  | nil =>
    cases ht
    exact le_refl start
  | cons r runs ih =>
    obtain ⟨⟨idle, hidle, hfirst⟩, hend, hrest⟩ := h
    exact (ih hrest hidle).trans (hfirst.1.2.le.trans (hend t ht))

theorem scheduled (h : Served Scheduled start runs) (hr : r ∈ runs) : Scheduled r.began := by
  induction runs with
  | nil => cases hr
  | cons x runs ih =>
    obtain ⟨⟨idle, -, hfirst⟩, -, hrest⟩ := h
    rcases List.mem_cons.1 hr with rfl | hr
    · exact hfirst.1.1
    · exact ih hrest hr

/-- When a job is idle, all its runs have ended. -/
theorem ended (h : Served Scheduled start runs) (ht : t ∈ idleSince start runs) (hr : r ∈ runs) :
    ∃ e, r.ended = some e ∧ r.began ≤ e ∧ e ≤ t := by
  induction runs generalizing t with
  | nil => cases hr
  | cons x runs ih =>
    obtain ⟨⟨idle, hidle, hfirst⟩, hend, hrest⟩ := h
    rcases List.mem_cons.1 hr with rfl | hr
    · exact ⟨t, ht, hend t ht, le_refl t⟩
    · obtain ⟨e, he, hle, hlast⟩ := ih hrest hidle hr
      exact ⟨e, he, hle, hlast.trans (hfirst.1.2.le.trans (hend t ht))⟩

theorem pairwise (h : Served Scheduled start runs) : runs.Pairwise fun later earlier =>
    ∃ e, earlier.ended = some e ∧ earlier.began ≤ e ∧ e < later.began := by
  induction runs with
  | nil => exact .nil
  | cons r runs ih =>
    obtain ⟨⟨idle, hidle, hfirst⟩, -, hrest⟩ := h
    refine List.pairwise_cons.2 ⟨fun x hx => ?_, ih hrest⟩
    obtain ⟨e, he, hle, hlast⟩ := hrest.ended hidle hx
    exact ⟨e, he, hle, hlast.trans_lt hfirst.1.2⟩

theorem first (h : Served Scheduled start runs) (hr : runs.getLast? = some r) :
    Earliest (fun t => Scheduled t ∧ start < t) (some r.began) := by
  induction runs with
  | nil => cases hr
  | cons x runs ih =>
    obtain ⟨⟨idle, hidle, hfirst⟩, -, hrest⟩ := h
    cases runs with
    | nil =>
      cases hidle
      cases hr
      exact hfirst
    | cons y runs => exact ih hrest (by rwa [List.getLast?_cons_cons] at hr)

theorem isChain (h : Served Scheduled start runs) : runs.IsChain fun later earlier =>
    ∃ e, earlier.ended = some e ∧
      Earliest (fun t => Scheduled t ∧ e < t) (some later.began) := by
  induction runs with
  | nil => exact .nil
  | cons r runs ih =>
    obtain ⟨⟨idle, hidle, hfirst⟩, -, hrest⟩ := h
    cases runs with
    | nil => exact .singleton r
    | cons x runs => exact .cons_cons ⟨idle, hidle, hfirst⟩ (ih hrest)

/-- A scheduled instant falls into a run, or the job has been idle before it. -/
theorem covers (h : Served Scheduled start runs) (hu : Scheduled u) (hstart : start < u) :
    (∃ r ∈ runs, r.began ≤ u ∧ ∀ e ∈ r.ended, u ≤ e) ∨ ∃ idle ∈ idleSince start runs, idle < u := by
  induction runs with
  | nil => exact .inr ⟨start, rfl, hstart⟩
  | cons r runs ih =>
    obtain ⟨⟨idle, hidle, hfirst⟩, -, hrest⟩ := h
    rcases ih hrest with ⟨x, hx, hcover⟩ | ⟨idle', hidle', hlt⟩
    · exact .inl ⟨x, List.mem_cons_of_mem r hx, hcover⟩
    · rw [hidle] at hidle'
      cases hidle'
      have hbegan : r.began ≤ u := hfirst.2 u ⟨hu, hlt⟩
      by_cases hend : ∀ e ∈ r.ended, u ≤ e
      · exact .inl ⟨r, List.mem_cons_self, hbegan, hend⟩
      · simp only [not_forall, not_le, exists_prop] at hend
        exact .inr hend

end Served

/-! ## The invariant -/

variable {upcoming : Instant → Option Instant} {cancel : Option Instant} {j : Job ρ}

/-- The schedule tells the first scheduled instant after any instant from the start on. -/
def Tells (Scheduled : Instant → Prop) (start : Instant) (upcoming : Instant → Option Instant) :
    Prop :=
  ∀ t, start ≤ t → Earliest (fun u => Scheduled u ∧ t < u) (upcoming t)

/-- The job is due at the first scheduled instant since it was idle. -/
structure Due (Scheduled : Instant → Prop) (start : Instant) (j : Job ρ) (due : Instant) :
    Prop where
  clock : j.clock ≤ due
  first : ∃ idle ∈ idleSince start j.runs, Earliest (fun t => Scheduled t ∧ idle < t) (some due)

/-- The job has stopped: when it was cancelled, or as soon as nothing was scheduled any more. In
neither case it has missed anything. -/
structure Stopped (Scheduled : Instant → Prop) (start : Instant) (cancel : Option Instant)
    (j : Job ρ) (t : Instant) : Prop where
  clock : t ≤ j.clock
  cause : (∃ c ∈ cancel, t = max start c) ∨
    (idleSince start j.runs = some t ∧ ∀ u, Scheduled u → u ≤ t)
  early : ∀ c ∈ cancel, t ≤ max start c
  missed : ∀ u idle, Scheduled u → idle ∈ idleSince start j.runs → idle < u → t < u

/-- What the phase of the job says. -/
def Standing (Scheduled : Instant → Prop) (start : Instant) (cancel : Option Instant) (j : Job ρ) :
    Prop :=
  match j.phase with
  | .waiting due => j.stopped = none ∧ Due Scheduled start j due
  | .running _ _ => j.stopped = none ∧ idleSince start j.runs = none
  | .ended => ∃ t ∈ j.stopped, Stopped Scheduled start cancel j t

structure Sound (Scheduled : Instant → Prop) (start : Instant) (cancel : Option Instant)
    (j : Job ρ) : Prop where
  served : Served Scheduled start j.runs
  start_le : start ≤ j.clock
  began_le : ∀ r ∈ j.runs, r.began ≤ j.clock
  idle_le : ∀ t ∈ idleSince start j.runs, t ≤ j.clock
  uncancelled : ∀ r ∈ j.runs, ∀ c ∈ cancel, r.began < c
  alive : j.stopped = none → ∀ c ∈ cancel, j.clock ≤ max start c
  standing : Standing Scheduled start cancel j

namespace Sound

variable {due : Instant}

theorem waiting (h : Sound Scheduled start cancel j) (hp : j.phase = .waiting due) :
    j.stopped = none ∧ Due Scheduled start j due := by
  have hs := h.standing
  unfold Standing at hs
  rw [hp] at hs
  exact hs

theorem running {wakeUp : Option Instant} {rest : ρ} (h : Sound Scheduled start cancel j)
    (hp : j.phase = .running wakeUp rest) :
    j.stopped = none ∧ idleSince start j.runs = none := by
  have hs := h.standing
  unfold Standing at hs
  rw [hp] at hs
  exact hs

theorem halted (h : Sound Scheduled start cancel j) (hp : j.phase = .ended) :
    ∃ t ∈ j.stopped, Stopped Scheduled start cancel j t := by
  have hs := h.standing
  unfold Standing at hs
  rw [hp] at hs
  exact hs

end Sound

/-- A job that becomes idle waits for the next scheduled instant, or stops if there is none. -/
theorem standing_idle (htells : Tells Scheduled start upcoming) (hstart : start ≤ t)
    (hidle : idleSince start runs = some t) (halive : ∀ c ∈ cancel, t ≤ max start c) :
    Standing Scheduled start cancel (.since t (.idle upcoming t : Phase ρ) runs) := by
  have hnext := htells t hstart
  unfold Phase.idle
  cases hup : upcoming t with
  | some due =>
    rw [hup] at hnext
    exact ⟨rfl, hnext.1.2.le, t, hidle, hnext⟩
  | none =>
    rw [hup] at hnext
    have hnone : ∀ u, Scheduled u → u ≤ t := fun u hu => not_lt.1 fun hlt => hnext u ⟨hu, hlt⟩
    refine ⟨t, rfl, le_refl t, .inr ⟨hidle, hnone⟩, halive, fun u idle hu hmem hlt => ?_⟩
    rw [show idleSince start (Job.since t (.ended : Phase ρ) runs).runs = some t from hidle] at hmem
    cases hmem
    exact absurd (hnone u hu) (not_le.2 hlt)

theorem end?_eq {p : Progress ρ} (ht : t ∈ p.end? u) : t = u := by
  cases p with
  | finished => exact (Option.some.inj ht).symm
  | pausing wakeUp rest => cases ht

/-- A run goes so far as it does, at an instant that the job lives to see. -/
theorem sound_after (htells : Tells Scheduled start upcoming) {p : Progress ρ} {began now : Instant}
    (hserved : Served Scheduled start (⟨began, p.end? now⟩ :: runs)) (hstart : start ≤ now)
    (hbegan : ∀ r ∈ (⟨began, p.end? now⟩ :: runs : List Run), r.began ≤ now)
    (huncancelled : ∀ r ∈ (⟨began, p.end? now⟩ :: runs : List Run), ∀ c ∈ cancel, r.began < c)
    (halive : ∀ c ∈ cancel, now ≤ max start c) :
    Sound Scheduled start cancel
      (.since now (.after upcoming now p) (⟨began, p.end? now⟩ :: runs)) where
  served := hserved
  start_le := hstart
  began_le := hbegan
  idle_le t ht := (end?_eq ht).le
  uncancelled := huncancelled
  alive _ := halive
  standing := by
    cases p with
    | finished => exact standing_idle htells hstart rfl halive
    | pausing wakeUp rest => exact ⟨rfl, rfl⟩

namespace Sound

theorem initial (htells : Tells Scheduled start upcoming) : Sound Scheduled start cancel
    (.since start (.idle upcoming start) [] : Job ρ) where
  served := trivial
  start_le := le_refl start
  began_le := by simp [Job.since]
  idle_le t ht := by
    cases ht
    exact le_refl start
  uncancelled := by simp [Job.since]
  alive _ c _ := le_max_left start c
  standing := standing_idle htells (le_refl start) rfl fun c _ => le_max_left start c

theorem sleep (h : Sound Scheduled start cancel j) (ht : j.clock ≤ t)
    (hwake : ∀ w ∈ j.phase.wakeUp?, t ≤ w)
    (hcancel : j.stopped = none → ∀ c ∈ cancel, t ≤ max start c) :
    Sound Scheduled start cancel { j with clock := t } where
  served := h.served
  start_le := h.start_le.trans ht
  began_le r hr := (h.began_le r hr).trans ht
  idle_le u hu := (h.idle_le u hu).trans ht
  uncancelled := h.uncancelled
  alive := hcancel
  standing := by
    unfold Standing
    cases hp : j.phase with
    | waiting due =>
      obtain ⟨halive, hdue⟩ := h.waiting hp
      exact ⟨halive, hwake due (by rw [hp]; rfl), hdue.first⟩
    | running wakeUp rest => exact h.running hp
    | ended =>
      obtain ⟨u, hu, hstop⟩ := h.halted hp
      exact ⟨u, hu, hstop.clock.trans ht, hstop.cause, hstop.early, hstop.missed⟩

/-- A job that is due is not cancelled yet: nothing is cancelled at a scheduled instant. -/
theorem due_lt_cancel {due c : Instant} (h : Sound Scheduled start cancel j)
    (hcancel : ∀ c ∈ cancel, ¬ Scheduled c) (halive : j.stopped = none)
    (hdue : Due Scheduled start j due) (heq : j.clock = due) (hc : c ∈ cancel) : due < c := by
  obtain ⟨idle, hidle, ⟨hscheduled, hlt⟩, -⟩ := hdue.first
  have hstart : start < due := (h.served.start_le hidle).trans_lt hlt
  have hle : due ≤ max start c := heq ▸ h.alive halive c hc
  rcases le_max_iff.1 hle with hle | hle
  · exact absurd hle (not_le.2 hstart)
  · exact lt_of_le_of_ne hle fun he => hcancel c hc (he ▸ hscheduled)

theorem begin {due : Instant} (h : Sound Scheduled start cancel (⟨due, .waiting due, runs, none⟩ :
    Job ρ)) (htells : Tells Scheduled start upcoming) (hcancel : ∀ c ∈ cancel, ¬ Scheduled c)
    (p : Progress ρ) : Sound Scheduled start cancel
      (.since due (.after upcoming due p) (⟨due, p.end? due⟩ :: runs)) := by
  obtain ⟨-, hdue⟩ := h.standing
  have hlt : ∀ c ∈ cancel, due < c := fun c hc => h.due_lt_cancel hcancel rfl hdue rfl hc
  refine sound_after htells ⟨hdue.first, fun t ht => (end?_eq ht).ge, h.served⟩ h.start_le ?_ ?_
    (h.alive rfl)
  · exact List.forall_mem_cons.2 ⟨le_refl due, h.began_le⟩
  · exact List.forall_mem_cons.2 ⟨hlt, h.uncancelled⟩

theorem goOn {now began : Instant} {wakeUp : Option Instant} {rest : ρ}
    (h : Sound Scheduled start cancel
      ⟨now, .running wakeUp rest, ⟨began, none⟩ :: runs, none⟩)
    (htells : Tells Scheduled start upcoming) (p : Progress ρ) : Sound Scheduled start cancel
      (.since now (.after upcoming now p) (⟨began, p.end? now⟩ :: runs)) := by
  obtain ⟨hfirst, -, hserved⟩ := h.served
  obtain ⟨hbegan, hrest⟩ := List.forall_mem_cons.1 h.began_le
  obtain ⟨hlt, huncancelled⟩ := List.forall_mem_cons.1 h.uncancelled
  refine sound_after htells ⟨hfirst, fun t ht => ?_, hserved⟩ h.start_le ?_ ?_ (h.alive rfl)
  · rw [end?_eq ht]
    exact hbegan
  · exact List.forall_mem_cons.2 ⟨hbegan, hrest⟩
  · exact List.forall_mem_cons.2 ⟨hlt, huncancelled⟩

/-- What is scheduled after the job was idle comes after a cancellation in between. -/
theorem missed {c idle : Instant} (h : Sound Scheduled start cancel j)
    (hcancel : ∀ c ∈ cancel, ¬ Scheduled c) (halive : j.stopped = none) (hc : c ∈ cancel)
    (heq : j.clock = max start c) (hu : Scheduled u) (hidle : idle ∈ idleSince start j.runs)
    (hlt : idle < u) : j.clock < u := by
  cases hp : j.phase with
  | waiting due =>
    obtain ⟨-, hdue⟩ := h.waiting hp
    obtain ⟨idle', hidle', -, hfirst⟩ := hdue.first
    rw [hidle] at hidle'
    cases hidle'
    have hle : j.clock ≤ u := hdue.clock.trans (hfirst u ⟨hu, hlt⟩)
    have hstart : start < u := (h.served.start_le hidle).trans_lt hlt
    refine lt_of_le_of_ne hle fun he => ?_
    rcases max_choice start c with hmax | hmax
    · rw [← he, heq, hmax] at hstart
      exact lt_irrefl start hstart
    · rw [← he, heq, hmax] at hu
      exact hcancel c hc hu
  | running wakeUp rest =>
    rw [(h.running hp).2] at hidle
    cases hidle
  | ended =>
    obtain ⟨t, ht, -⟩ := h.halted hp
    rw [halive] at ht
    cases ht

theorem cancelled {c : Instant} (h : Sound Scheduled start cancel j)
    (hcancel : ∀ c ∈ cancel, ¬ Scheduled c) (halive : j.stopped = none) (hmem : c ∈ cancel)
    (hc : c ≤ j.clock) :
    Sound Scheduled start cancel (.since j.clock j.phase.cancel j.runs) := by
  have heq : j.clock = max start c := le_antisymm (h.alive halive c hmem) (max_le h.start_le hc)
  exact {
    served := h.served
    start_le := h.start_le
    began_le := h.began_le
    idle_le := h.idle_le
    uncancelled := h.uncancelled
    alive := fun _ => h.alive halive
    standing := ⟨j.clock, rfl, le_refl j.clock, .inl ⟨c, hmem, heq⟩, h.alive halive,
      fun _ _ hu hidle hlt => h.missed hcancel halive hmem heq hu hidle hlt⟩ }

end Sound

theorem Life.sound (htells : Tells Scheduled start upcoming) (hcancel : ∀ c ∈ cancel, ¬ Scheduled c)
    (h : Life upcoming start cancel j) : Sound Scheduled start cancel j := by
  induction h with
  | start => exact .initial htells
  | sleep _ t ht hwake halive ih => exact ih.sleep ht hwake halive
  | begin _ p ih => exact ih.begin htells hcancel p
  | goOn _ _ p ih => exact ih.goOn htells p
  | cancel _ halive hmem hc ih => exact ih.cancelled hcancel halive hmem hc

/-! ## What follows -/

/-- What can be said of a job at any time of its life. -/
structure Disciplined (Scheduled : Instant → Prop) (start : Instant) (cancel : Option Instant)
    (j : Job ρ) : Prop where
  /-- Runs begin at scheduled instants, and before the job is cancelled. -/
  scheduled : ∀ r ∈ j.runs, Scheduled r.began ∧ r.began ≤ j.clock ∧ ∀ c ∈ cancel, r.began < c
  /-- A run begins after the one before it has ended. -/
  ascending : j.runs.Pairwise fun later earlier =>
    ∃ e, earlier.ended = some e ∧ earlier.began ≤ e ∧ e < later.began
  /-- The first run begins at the first scheduled instant after the start. -/
  first : ∀ r, j.runs.getLast? = some r →
    Earliest (fun t => Scheduled t ∧ start < t) (some r.began)
  /-- Any other begins at the first scheduled instant after the end of the one before. -/
  next : j.runs.IsChain fun later earlier => ∃ e, earlier.ended = some e ∧
    Earliest (fun t => Scheduled t ∧ e < t) (some later.began)
  /-- A scheduled instant that has passed before the job has stopped falls into a run. -/
  covered : ∀ u, Scheduled u → start < u → u < j.clock → (∀ t ∈ j.stopped, u ≤ t) →
    ∃ r ∈ j.runs, r.began ≤ u ∧ ∀ e ∈ r.ended, u ≤ e
  /-- The job has ended once it has stopped. -/
  ended : j.phase = .ended ↔ ∃ t, j.stopped = some t
  /-- It has stopped when it was cancelled, or as soon as it was idle and nothing was left; it does not
  outlive its cancellation. -/
  stopped : ∀ t ∈ j.stopped, t ≤ j.clock ∧ (∀ c ∈ cancel, t ≤ max start c) ∧
    ((∃ c ∈ cancel, t = max start c) ∨
      (idleSince start j.runs = some t ∧ ∀ u, Scheduled u → u ≤ t))
  /-- As long as it has not, it is not cancelled, and a run is on its way or a scheduled instant is
  left. -/
  alive : j.stopped = none → (∀ c ∈ cancel, j.clock ≤ max start c) ∧
    (idleSince start j.runs = none ∨ ∃ u, Scheduled u ∧ j.clock ≤ u)

namespace Sound

variable (h : Sound Scheduled start cancel j)
include h

theorem covered (hu : Scheduled u) (hstart : start < u) (hclock : u < j.clock)
    (hstopped : ∀ t ∈ j.stopped, u ≤ t) : ∃ r ∈ j.runs, r.began ≤ u ∧ ∀ e ∈ r.ended, u ≤ e := by
  rcases h.served.covers hu hstart with hcover | ⟨idle, hidle, hlt⟩
  · exact hcover
  · -- The job was idle before, so it would still be waiting or would have stopped.
    cases hp : j.phase with
    | waiting due =>
      obtain ⟨-, hdue⟩ := h.waiting hp
      obtain ⟨idle', hidle', -, hfirst⟩ := hdue.first
      rw [hidle] at hidle'
      cases hidle'
      exact absurd (hdue.clock.trans (hfirst u ⟨hu, hlt⟩)) (not_le.2 hclock)
    | running wakeUp rest =>
      rw [(h.running hp).2] at hidle
      cases hidle
    | ended =>
      obtain ⟨t, ht, hstop⟩ := h.halted hp
      exact absurd (hstopped t ht) (not_le.2 (hstop.missed u idle hu hidle hlt))

theorem ended_iff : j.phase = .ended ↔ ∃ t, j.stopped = some t := by
  cases hp : j.phase with
  | waiting due => simp [(h.waiting hp).1]
  | running wakeUp rest => simp [(h.running hp).1]
  | ended =>
    obtain ⟨t, ht, -⟩ := h.halted hp
    exact ⟨fun _ => ⟨t, ht⟩, fun _ => rfl⟩

theorem stopped (ht : t ∈ j.stopped) : Stopped Scheduled start cancel j t := by
  obtain ⟨u, hu, hstop⟩ := h.halted (h.ended_iff.2 ⟨t, ht⟩)
  rw [ht] at hu
  cases hu
  exact hstop

theorem left_or_running (halive : j.stopped = none) :
    idleSince start j.runs = none ∨ ∃ u, Scheduled u ∧ j.clock ≤ u := by
  cases hp : j.phase with
  | waiting due =>
    obtain ⟨-, hclock, idle, -, hfirst⟩ := h.waiting hp
    exact .inr ⟨due, hfirst.1.1, hclock⟩
  | running wakeUp rest => exact .inl (h.running hp).2
  | ended =>
    obtain ⟨t, ht, -⟩ := h.halted hp
    rw [halive] at ht
    cases ht

theorem disciplined : Disciplined Scheduled start cancel j where
  scheduled r hr := ⟨h.served.scheduled hr, h.began_le r hr, h.uncancelled r hr⟩
  ascending := h.served.pairwise
  first _ := h.served.first
  next := h.served.isChain
  covered _ := h.covered
  ended := h.ended_iff
  stopped _ ht := ⟨(h.stopped ht).clock, (h.stopped ht).early, (h.stopped ht).cause⟩
  alive halive := ⟨h.alive halive, h.left_or_running halive⟩

end Sound

end Agenda.Scheduler
