import Agenda.Cron.Next
import Agenda.Reminders
import Agenda.Retention
import Agenda.Scheduler.Loop

/-!
# The scheduler

Two jobs follow one schedule: the purge and the dispatch. Time passes only while a job waits or a
message is on its way; everything else is done at once.

* `Scheduler.purgeWork`, `Scheduler.dispatchWork`: what the jobs do.
* `Scheduler.start`: both jobs wait for their first run.
* `Scheduler.State.runUntil`: what the jobs do before an instant.
-/
namespace Agenda.Scheduler

open Cron Reminders

/-- A message that has been handed to the broker: when, of which event, and whether it is taken. -/
structure Entry where
  time : Instant
  id : String
  taken : Bool
  deriving DecidableEq, Repr

/-- What the jobs work on. -/
structure World where
  backend : Backend
  /-- Whether the broker takes the message of an event. -/
  accepts : Event → Bool
  /-- The messages handed to the broker, last one first. -/
  log : List Entry

/-! ## The purge job -/

/-- The job that runs `purge_expired`. A purge takes no time. -/
def purgeWork : Work World Empty where
  begin now w :=
    let backend := match Retention.purge now w.backend with
      | .ok (_, b) => b
      | .error _ => w.backend
    (.finished, { w with backend })
  goOn _ rest _ := nomatch rest

/-! ## The dispatch job -/

/-- The message of `event` is on its way; the events of `rest` are next. -/
structure Sending where
  taken : Bool
  event : Event
  rest : List Event
  deriving DecidableEq, Repr

/-- Hands the next message to the broker, or ends the run; a message is on its way for `delay`. -/
def publishNext (delay : Duration) (now : Instant) (w : World) :
    List Event → Progress Sending × World
  | [] => (.finished, w)
  | e :: rest =>
    match publish w.accepts e with
    | none => publishNext delay now w rest
    | some m =>
      (.pausing (now.add? delay) ⟨m.taken, e, rest⟩, { w with log := ⟨now, m.id, m.taken⟩ :: w.log })

/-- The job that runs `dispatch_reminders`. A dispatch marks each event once its message has arrived,
and goes on with the next one. -/
def dispatchWork (delay : Duration) : Work World Sending where
  begin now w :=
    match w.backend.list with
    | .ok es => publishNext delay now w (dueEvents now es)
    | .error _ => (.finished, w)
  goOn now sending w :=
    let backend := if sending.taken then (mark sending.event w.backend).toOption.getD w.backend
      else w.backend
    publishNext delay now { w with backend } sending.rest

/-! ## Both jobs -/

/-- What does not change while the jobs run. -/
structure Setup where
  schedule : Schedule
  /-- How long a message is on its way. -/
  delay : Duration

/-- The first time of the schedule after an instant, if there is one. -/
def Setup.upcoming (setup : Setup) (now : Instant) : Option Instant :=
  (setup.schedule.next? now).join

/-- Both jobs, the clock and what the jobs work on. -/
structure State extends World where
  clock : Instant
  purge : Phase Empty
  dispatch : Phase Sending

/-- Both jobs at their start (`Scheduler.start`). -/
def start (setup : Setup) (now : Instant) (accepts : Event → Bool) (b : Backend) : State where
  clock := now
  backend := b
  accepts := accepts
  purge := .idle setup.upcoming now
  dispatch := .idle setup.upcoming now
  log := []

namespace State

/-- It is `t`, unless it was later already. -/
def advance (t : Instant) (s : State) : State := { s with clock := if s.clock < t then t else s.clock }

/-- The purge job goes on. -/
def stepPurge (setup : Setup) (s : State) : State :=
  let (purge, world) := s.purge.step purgeWork setup.upcoming s.clock s.toWorld
  { s with toWorld := world, purge }

/-- The dispatch job goes on. -/
def stepDispatch (setup : Setup) (s : State) : State :=
  let (dispatch, world) :=
    s.dispatch.step (dispatchWork setup.delay) setup.upcoming s.clock s.toWorld
  { s with toWorld := world, dispatch }

/-- The job goes on before an instant: when. -/
def wakeUpBefore? (t : Instant) (p : Phase ρ) : Option Instant :=
  p.wakeUp?.filter fun wakeUp => wakeUp < t

/-- The job that goes on first, the purge if both do, as long as that is before `t`. -/
def step? (setup : Setup) (t : Instant) (s : State) : Option State :=
  match wakeUpBefore? t s.purge, wakeUpBefore? t s.dispatch with
  | none, none => none
  | some p, none => some ((s.advance p).stepPurge setup)
  | none, some d => some ((s.advance d).stepDispatch setup)
  | some p, some d =>
    if p ≤ d then some ((s.advance p).stepPurge setup)
    else some ((s.advance d).stepDispatch setup)

/-- At most `limit` steps before `t`. -/
def stepsBefore (setup : Setup) (t : Instant) : Nat → State → State
  | 0, s => s
  | limit + 1, s =>
    match s.step? setup t with
    | none => s
    | some s => stepsBefore setup t limit s

/-- The events that the dispatch job has still to handle in its run. -/
def pending : Phase Sending → List Event
  | .running _ sending => sending.rest
  | _ => []

/-- No more steps than these lie before `t`: each job begins at most one run a second, and a run
handles each stored event once. -/
def stepLimit (t : Instant) (s : State) : Nat :=
  2 * ((t.seconds - s.clock.seconds).toNat + 2) *
    (s.backend.store.events.length + (pending s.dispatch).length + 2)

/-- What the jobs do before `t`. -/
def runUntil (setup : Setup) (t : Instant) (s : State) : State :=
  (stepsBefore setup t (s.stepLimit t) s).advance t

/-- Both jobs are cancelled. -/
def cancel (s : State) : State := { s with purge := s.purge.cancel, dispatch := s.dispatch.cancel }

/-- How many jobs have ended by themselves. -/
def endedJobs (s : State) : Nat := s.purge.isEnded.toNat + s.dispatch.isEnded.toNat

end State

end Agenda.Scheduler
