import Agenda.Store.Backend

/-!
# The calendar

The service over a store: what is kept is valid, has an id, and has its reminder pending after every
change. Events are shown by the day, the week or the month of an instant.

* `Calendar.create`, `Calendar.update`, `Calendar.delete`.
* `View.window?`: the span of time that a view shows, if it is supported.
* `Calendar.view?`: the events of an owner in a view.
-/
namespace Agenda

/-! ## Windows -/

/-- The instants from `start` on that lie before `stop`. -/
structure Window where
  start : Instant
  stop : Instant
  deriving DecidableEq, Repr

inductive View where
  | day
  | week
  | month
  deriving DecidableEq, Repr

/-- The day of an instant (`day_window`). -/
def dayWindow? (now : Instant) : Option Window := do
  let start ← now.date.midnight?
  pure ⟨start, ← start.add? .day⟩

/-- The week of an instant, from Monday on (`week_window`). -/
def weekWindow? (now : Instant) : Option Window := do
  let monday ← now.date.addDays? (-now.date.daysFromMonday)
  let start ← monday.midnight?
  pure ⟨start, ← start.add? .week⟩

/-- The month of an instant (`month_window`). The last month that is supported ends with its last
midnight. -/
def monthWindow? (now : Instant) : Option Window := do
  let first ← now.date.addDays? (1 - now.date.day)
  let next := (first.addMonths? 1).getD .last
  pure ⟨← first.midnight?, ← next.midnight?⟩

def View.window? : View → Instant → Option Window
  | day => dayWindow?
  | week => weekWindow?
  | month => monthWindow?

/-! ## The service -/

/-- The event as it is kept: with an id, and its reminder pending. -/
def Event.accepted (fresh : String) (e : Event) : Event := (e.withId fresh).rearmed

namespace Calendar

/-- Runs a change of the store. -/
def storing (r : Except StoreError α) : Except ServiceError α := r.mapError .store

/-- Adds a valid event, under the fresh id if it has none (`Calendar.create_event`). -/
def create (fresh : String) (e : Event) (b : Backend) : Except ServiceError (Event × Backend) :=
  match e.violation? with
  | some v => .error (.invalid v)
  | none => (storing (b.create (e.accepted fresh))).map (e.accepted fresh, ·)

/-- Replaces the event with the same id by a valid one (`Calendar.update_event`). -/
def update (e : Event) (b : Backend) : Except ServiceError (Event × Backend) :=
  if e.id.isEmpty then .error .missingId
  else
    match e.violation? with
    | some v => .error (.invalid v)
    | none => (storing (b.update e.rearmed)).map (e.rearmed, ·)

/-- Removes an event (`Calendar.delete_event`). -/
def delete (id : String) (b : Backend) : Except ServiceError Backend := storing (b.delete id)

/-- The events of an owner in a window (`Calendar.get_events_in`). -/
def events (owner : String) (w : Window) (b : Backend) : Except ServiceError (List Event) :=
  storing (b.period owner w.start w.stop)

/-- The events of an owner in a view, if there is such a window (`Calendar.get_events_day_at`,
`Calendar.get_events_week_at`, `Calendar.get_events_month_at`). -/
def view? (v : View) (owner : String) (now : Instant) (b : Backend) :
    Option (Except ServiceError (List Event)) :=
  (v.window? now).map fun w => events owner w b

end Calendar

end Agenda
