import Agenda.Event.Json
import Agenda.Store.Backend

/-!
# Reminders

A dispatch lists the events, sends a message for each one that is due, and marks it as sent. What is
marked is the event as it was listed. A message that is not taken leaves its reminder pending.

* `dueEvents`, `publish`, `mark`: the steps of a dispatch.
* `dispatch`: all of them, one event after the other.
-/
namespace Agenda.Reminders

/-- The events of a listing that are due. -/
def dueEvents (now : Instant) (es : List Event) : List Event := es.filter fun e => e.IsDue now

/-- A message that has been handed to the broker, and whether it was taken. -/
structure Message where
  id : String
  payload : List Char
  taken : Bool
  deriving DecidableEq, Repr

/-- The message of an event, if it can be written (`EventPublisher.send_event_message`); `accepts` tells
whether the broker takes it. -/
def publish (accepts : Event → Bool) (e : Event) : Option Message :=
  e.toJson?.map fun payload => { id := e.id, payload, taken := accepts e }

/-- Marks an event as sent. -/
def mark (e : Event) (b : Backend) : Except StoreError Backend :=
  b.update { e with isSent := true }

/-- A dispatch on its way. -/
structure Dispatch where
  backend : Backend
  /-- How many events have been marked. -/
  marked : Nat
  /-- What has been handed to the broker, last one first. -/
  messages : List Message

/-- Handles one event that is due, as each turn of the loop of `dispatch_reminders` does. -/
def Dispatch.step (accepts : Event → Bool) (d : Dispatch) (e : Event) : Dispatch :=
  match publish accepts e with
  | none => d
  | some m =>
    let d := { d with messages := m :: d.messages }
    if m.taken then
      match mark e d.backend with
      | .ok b => { d with backend := b, marked := d.marked + 1 }
      | .error _ => d
    else d

/-- Handles all events that are due (`dispatch_reminders`). -/
def dispatch (accepts : Event → Bool) (now : Instant) (b : Backend) :
    Except StoreError Dispatch :=
  b.list.map fun es => (dueEvents now es).foldl (Dispatch.step accepts) ⟨b, 0, []⟩

end Agenda.Reminders
