import Agenda.Cron.Grammar
import Agenda.Time.Instant

/-!
# The next time of a schedule

The search runs through years, months, days, hours, minutes and seconds in ascending order. It starts
at an instant: as long as all larger parts equal those of the start, the values below the start's are
left out. A start beyond the last day of a month counts as that day. If the schedule does not have
the year of the start, the first year that it has later is searched from the month and day of the
start on all the same.

* `Schedule.next?`: the first time after an instant.
* `Schedule.upcoming?`: several of them.
-/
namespace Agenda.Cron

/-- Searches the values up to `last`, from `start` on if there is a start. What is searched under the
value at which the search starts is bounded by the start too, provided the start is a value. -/
def search (values : List Nat) (last : Nat) (start : Option Nat) (under : Bool → Nat → Option α) :
    Option α :=
  match start with
  | none => (values.filter (· ≤ last)).findSome? (under false)
  | some start =>
    let low := min start last
    (values.filter fun v => low ≤ v ∧ v ≤ last).findSome? fun v =>
      under (v = low && values.contains start) v

/-- The start of a search, if it is bounded. -/
def bound? (bounded : Bool) (part : Nat) : Option Nat := if bounded then some part else none

namespace Schedule

/-- The first time of a day; `bounded` leaves out what comes before the time of day of `start`. -/
def timeOf? (s : Schedule) (start : Instant) (bounded : Bool) (d : Date) : Option Instant :=
  search s.hours 23 (bound? bounded start.hour) fun bounded hour =>
    search s.minutes 59 (bound? bounded start.minute) fun bounded minute =>
      search s.seconds 59 (bound? bounded start.second) fun _ second =>
        Instant.at? d (hour * 3600 + minute * 60 + second) 0

/-- The first time at `start` or later; a fraction of a second is dropped. -/
def firstFrom? (s : Schedule) (start : Instant) : Option Instant :=
  let today := start.date
  if today.year < 0 then none
  else
    (s.years.filter fun (year : Nat) => today.year ≤ year).zipIdx.findSome? fun (year, index) =>
      search s.months 12 (bound? (index = 0) today.month) fun bounded month =>
        search s.daysOfMonth (Date.daysInMonth year month) (bound? bounded today.day)
          fun bounded day =>
            let d : Date := ⟨year, month, day⟩
            if s.weekdays.contains d.weekdayFromSunday then s.timeOf? start bounded d else none

/-- The first time after an instant, if there is one; nothing if the second after the instant is not
supported. -/
def next? (s : Schedule) (after : Instant) : Option (Option Instant) :=
  (after.add? .second).map s.firstFrom?

/-- The first `count` times after an instant, or all of them if they are fewer. -/
def upcoming? (s : Schedule) : Nat → Instant → Option (List Instant)
  | 0, _ => some []
  | count + 1, after => do
    match ← s.next? after with
    | none => pure []
    | some t => pure (t :: (← s.upcoming? count t))

end Schedule

end Agenda.Cron
