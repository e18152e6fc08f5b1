import Agenda.Proofs.Call
import Agenda.Proofs.Reminders
import Agenda.Retention

/-!
# Calls and jobs on one store

Clients, the intake and any number of jobs work on one store. A step is one operation on the store or
one message that has been handed to the broker; steps interleave in any order. A job works on the
listing it began with, in any order of the events, whatever has become of them since, and may be
cancelled between any two of its steps.

* `Step`, `Run`: the steps, and runs with the trace of what has occurred.
* `Step.find?_eq`: what occurs determines the view of the store.
* `Run.trace_induction`: an invariant of traces and states that every step keeps holds after every
  run.
-/
namespace Agenda.Concurrent

open Reminders Retention

/-- A job on its way through its listing. -/
inductive Job where
  /-- A dispatch: the message of the first of these events comes next. -/
  | publishing (due : List Event)
  /-- A dispatch: the message of `e` was taken, and the mark of `e` comes next. -/
  | marking (e : Event) (due : List Event)
  /-- A purge at `now`: the first of these events is deleted next. -/
  | deleting (now : Instant) (expired : List Event)
  | cancelled
  deriving DecidableEq, Repr

/-- The store and the jobs that have begun. -/
structure State where
  backend : Backend
  jobs : List Job

/-- No job has begun. -/
def start (b : Backend) : State := ⟨b, []⟩

/-- What a step does. -/
inductive Occurrence where
  /-- A call has changed an event. -/
  | called (ch : Change)
  /-- A job has listed the events. -/
  | listed
  /-- The broker has taken the message of an event. -/
  | published (e : Event) (m : Message)
  /-- The message of an event was not taken, or could not be written. -/
  | unsent (e : Event)
  /-- A dispatch has marked an event as sent. -/
  | marked (e : Event)
  /-- A purge at `now` has deleted the event with an id. -/
  | purged (now : Instant) (id : String)
  /-- Nothing: a call or an operation of a job was refused, or a job was cancelled. -/
  | idle
  deriving DecidableEq, Repr

/-- A step of a job. -/
inductive JobStep : Backend → Job → Occurrence → Backend → Job → Prop where
  | publish {b : Backend} {e : Event} {due : List Event} {m : Message}
      (h : publish (fun _ => true) e = some m) :
      JobStep b (.publishing (e :: due)) (.published e m) b (.marking e due)
  | fail {b : Backend} {e : Event} {due : List Event} :
      JobStep b (.publishing (e :: due)) (.unsent e) b (.publishing due)
  | mark {b b' : Backend} {e : Event} {due : List Event} (h : mark e b = .ok b') :
      JobStep b (.marking e due) (.marked e) b' (.publishing due)
  | unmarked {b : Backend} {e : Event} {due : List Event} {err : StoreError}
      (h : mark e b = .error err) : JobStep b (.marking e due) .idle b (.publishing due)
  | delete {b b' : Backend} {now : Instant} {e : Event} {es : List Event}
      (h : b.delete e.id = .ok b') :
      JobStep b (.deleting now (e :: es)) (.purged now e.id) b' (.deleting now es)
  | undeleted {b : Backend} {now : Instant} {e : Event} {es : List Event} {err : StoreError}
      (h : b.delete e.id = .error err) :
      JobStep b (.deleting now (e :: es)) .idle b (.deleting now es)
  | cancel {b : Backend} {j : Job} : JobStep b j .idle b .cancelled

/-- A step of a call, of a job that begins, or of a job that has begun. -/
inductive Step : State → Occurrence → State → Prop where
  | call {s : State} {ch : Change} {b : Backend} (c : Call)
      (h : c.perform s.backend = some (ch, b)) : Step s (.called ch) { s with backend := b }
  | refuse {s : State} (c : Call) (h : c.perform s.backend = none) : Step s .idle s
  | dispatch {s : State} {es listing : List Event} (now : Instant) (h : s.backend.list = .ok es)
      (hp : listing.Perm es) :
      Step s .listed { s with jobs := s.jobs ++ [.publishing (dueEvents now listing)] }
  | purge {s : State} {es listing : List Event} (now : Instant) (h : s.backend.list = .ok es)
      (hp : listing.Perm es) :
      Step s .listed { s with jobs := s.jobs ++ [.deleting now (expired now listing)] }
  | job {s : State} {i : Nat} {j j' : Job} {o : Occurrence} {b : Backend}
      (hj : s.jobs[i]? = some j) (h : JobStep s.backend j o b j') :
      Step s o ⟨b, s.jobs.set i j'⟩

/-- A run, with what has occurred on it. -/
inductive Run : State → List Occurrence → State → Prop where
  | nil (s : State) : Run s [] s
  | cons {s s' s'' : State} {o : Occurrence} {os : List Occurrence} :
      Step s o s' → Run s' os s'' → Run s (o :: os) s''

namespace Run

variable {s s' s'' : State} {o : Occurrence} {os os' : List Occurrence}

theorem single (h : Step s o s') : Run s [o] s' := .cons h (.nil _)

theorem append (h : Run s os s') (h' : Run s' os' s'') : Run s (os ++ os') s'' := by
  induction h with
  | nil => exact h'
  | cons hs _ ih => exact .cons hs (ih h')

theorem trace_induction_from {P : List Occurrence → State → Prop} (h : Run s os s')
    (step : ∀ {pre s o s'}, P pre s → Step s o s' → P (pre ++ [o]) s') {pre : List Occurrence}
    (init : P pre s) : P (pre ++ os) s' := by
  induction h generalizing pre with
  | nil => simpa using init
  | cons hs _ ih => simpa using ih (step init hs)

/-- An invariant of traces and states: what every step keeps, whatever has occurred before, holds
after every run. -/
theorem trace_induction {P : List Occurrence → State → Prop} (h : Run s os s')
    (step : ∀ {pre s o s'}, P pre s → Step s o s' → P (pre ++ [o]) s') (init : P [] s) : P os s' :=
  h.trace_induction_from step init

end Run

/-! ## The view of the store -/

/-- What the occurrence sets in the view: an id, and the event under it. -/
def Occurrence.write? : Occurrence → Option (String × Option Event)
  | called ch => some (ch.id, ch.kept?)
  | marked e => some (e.id, some { e with isSent := true })
  | purged _ id => some (id, none)
  | _ => none

/-- The view after an occurrence. -/
def Occurrence.apply (o : Occurrence) (view : String → Option Event) : String → Option Event :=
  match o.write? with
  | some (id, v) => Function.update view id v
  | none => view

/-- The event that is marked in the occurrence, as its dispatch has listed it. -/
def Occurrence.mark? : Occurrence → Option Event
  | marked e => some e
  | _ => none

theorem JobStep.find?_eq {b b' : Backend} {j j' : Job} {o : Occurrence} (h : JobStep b j o b' j') :
    b'.store.find? = o.apply b.store.find? := by
  cases h with
  | publish | fail | unmarked | undeleted | cancel => rfl
  | mark h => exact (Backend.update_ok h).1
  | delete h => exact (Backend.delete_ok h).1

/-- What occurs in a step determines the view after it. -/
theorem Step.find?_eq {s s' : State} {o : Occurrence} (h : Step s o s') :
    s'.backend.store.find? = o.apply s.backend.store.find? := by
  cases h with
  | call c h => exact (Call.find?_perform h).1
  | refuse | dispatch | purge => rfl
  | job hj h => exact h.find?_eq

theorem Step.fault_eq {s s' : State} {o : Occurrence} (h : Step s o s') :
    s'.backend.fault = s.backend.fault := by
  cases h with
  | call c h => exact (Call.find?_perform h).2
  | refuse | dispatch | purge => rfl
  | job hj h =>
    cases h with
    | publish | fail | unmarked | undeleted | cancel => rfl
    | mark h => exact (Backend.update_ok h).2
    | delete h => exact (Backend.delete_ok h).2

theorem Run.fault_eq {s s' : State} {os : List Occurrence} (h : Run s os s') :
    s'.backend.fault = s.backend.fault := by
  induction h with
  | nil => rfl
  | cons hs _ ih => exact ih.trans hs.fault_eq

end Agenda.Concurrent
