import Agenda.Time.Instant

/-!
# Events

An event of a calendar. Its owner is reminded once, `remindAt` minutes before it starts; `isSent`
tells that this has happened.

* `Event.remindTime?`: when the owner is to be reminded, if that is a supported instant.
* `Event.IsDue`: the reminder is pending and its time has come.
* `Event.rearmed`: the reminder is pending again, and the start is kept to the microsecond.
-/
namespace Agenda

structure Event where
  id : String
  title : String
  startDate : Instant
  duration : Duration
  description : String
  owner : String
  /-- Minutes between the reminder and the start. -/
  remindAt : Int64
  isSent : Bool
  deriving DecidableEq, Repr

/-- 0001-01-01T00:00:00Z, which stands for a start that is not given (`zero_date`). -/
def zeroDate : Instant := ⟨-62135596800, 0, by decide⟩

namespace Event

/-- The event of which nothing is given. -/
def blank : Event where
  id := ""
  title := ""
  startDate := zeroDate
  duration := .zero
  description := ""
  owner := ""
  remindAt := 0
  isSent := false

/-- When the owner is to be reminded (`Event.remind_time`). -/
def remindTime? (e : Event) : Option Instant :=
  (Duration.ofMinutes? e.remindAt).bind e.startDate.sub?

/-- The reminder has not been sent and its time has come (`Event.is_reminder_due`). -/
def IsDue (e : Event) (now : Instant) : Prop :=
  e.isSent = false ∧ ∃ t ∈ e.remindTime?, t ≤ now

instance (e : Event) (now : Instant) : Decidable (e.IsDue now) :=
  inferInstanceAs (Decidable (_ ∧ _))

/-- The event with its start cut to microseconds (`Event.truncate_start_date`). -/
def truncated (e : Event) : Event := { e with startDate := e.startDate.truncateToMicros }

/-- The event as it is kept after a change: its reminder is pending. -/
def rearmed (e : Event) : Event := { e with isSent := false }.truncated

/-- The event with the fresh id (`new_event_id`), if it has none. -/
def withId (fresh : String) (e : Event) : Event :=
  if e.id.isEmpty then { e with id := fresh } else e

end Event

end Agenda
