import Agenda.Time.Instant

/-!
# The loop of a job

A job that follows a schedule waits for the first time after the end of its previous run, so a run
that takes long skips times. The loop does not depend on what the job does: a run tells how far it has
come, and the loop goes on from there.

* `Work`: what a job does when a run begins, and when it goes on after a pause.
* `Phase.step`: the loop goes on at its time.
* `Phase.cancel`: the loop ends, wherever it is.
-/
namespace Agenda.Scheduler

/-- How far a run has come. -/
inductive Progress (ρ : Type) where
  | finished
  /-- It goes on with `rest` at `wakeUp`, or never. -/
  | pausing (wakeUp : Option Instant) (rest : ρ)
  deriving DecidableEq, Repr

/-- What a job is doing. -/
inductive Phase (ρ : Type) where
  /-- It sleeps until it is due. -/
  | waiting (due : Instant)
  /-- Its run goes on with `rest` at `wakeUp`, or never. -/
  | running (wakeUp : Option Instant) (rest : ρ)
  | ended
  deriving DecidableEq, Repr

/-- What a job does at an instant with data `σ`, if a run begins or goes on then. -/
structure Work (σ ρ : Type) where
  begin : Instant → σ → Progress ρ × σ
  goOn : Instant → ρ → σ → Progress ρ × σ

namespace Phase

/-- When the job goes on. -/
def wakeUp? : Phase ρ → Option Instant
  | waiting due => some due
  | running wakeUp _ => wakeUp
  | ended => none

def isEnded : Phase ρ → Bool
  | ended => true
  | _ => false

/-- Between two runs, the job waits for the first time after `now`, or ends if there is none. -/
def idle (upcoming : Instant → Option Instant) (now : Instant) : Phase ρ :=
  match upcoming now with
  | some due => waiting due
  | none => ended

/-- What the job is doing once its run has come so far. -/
def after (upcoming : Instant → Option Instant) (now : Instant) : Progress ρ → Phase ρ
  | .finished => idle upcoming now
  | .pausing wakeUp rest => running wakeUp rest

/-- The job goes on: one step of the loop of `run_job`. -/
def step (work : Work σ ρ) (upcoming : Instant → Option Instant) (now : Instant) (p : Phase ρ)
    (s : σ) : Phase ρ × σ :=
  match p with
  | waiting _ => (work.begin now s).map (after upcoming now) id
  | running _ rest => (work.goOn now rest s).map (after upcoming now) id
  | ended => (ended, s)

/-- The job is cancelled, in a run or between two. -/
def cancel : Phase ρ → Phase ρ
  | _ => ended

end Phase

end Agenda.Scheduler
