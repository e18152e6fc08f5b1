import Agenda.Cron.Grammar
import Agenda.Text.Blank

/-!
# The five fields of a crontab

The classical form has no seconds, and counts weekdays from 0 or 7, Sunday. It is put into the longer
form: seconds are zero, and weekdays are written as their names. What follows a slash is a step and
stays a number. Any other text is taken as it is.

* `weekdaysByName`: a weekday field with names for numbers.
* `parseSchedule`: the schedule of a text in either form.
-/
namespace Agenda.Cron

open Decimal

/-- The name of a weekday counted from 0 or 7, Sunday. -/
def weekdayName? : Nat → Option (List Char)
  | 0 | 7 => some ['S', 'u', 'n']
  | 1 => some ['M', 'o', 'n']
  | 2 => some ['T', 'u', 'e']
  | 3 => some ['W', 'e', 'd']
  | 4 => some ['T', 'h', 'u']
  | 5 => some ['F', 'r', 'i']
  | 6 => some ['S', 'a', 't']
  | _ => none

theorem weekdayName?_of_large {k : Nat} (h : 7 < k) : weekdayName? k = none := by
  obtain ⟨j, rfl⟩ := Nat.exists_eq_add_of_le' h
  rfl

/-- The largest index into a table. -/
def maxIndex : Nat := 18446744073709551615

/-- The index that a run of digits denotes, if it is not too large for one. -/
def index? (run : List Char) : Option Nat :=
  if ofDigits run ≤ maxIndex then some (ofDigits run) else none

/-- What is too large for an index is too large for a weekday. -/
@[simp]
theorem index?_bind_weekdayName? (run : List Char) :
    (index? run).bind weekdayName? = weekdayName? (ofDigits run) := by
  unfold index?
  split
  · rfl
  · next h =>
    have hlarge : 7 < ofDigits run := by
      unfold maxIndex at h
      omega
    exact (weekdayName?_of_large hlarge).symm

/-- What stands for a run of digits. -/
def weekdayRun (isStep : Bool) (run : List Char) : List Char :=
  if run.isEmpty || isStep then run else ((index? run).bind weekdayName?).getD run

/-- Goes on after a run of digits, last one first. -/
def weekdaysFrom (isStep : Bool) (run : List Char) : List Char → List Char
  | [] => weekdayRun isStep run.reverse
  | c :: cs =>
    if c.isDigit then weekdaysFrom isStep (c :: run) cs
    else weekdayRun isStep run.reverse ++ c :: weekdaysFrom (c = '/') [] cs

/-- The field with names in the place of numbers (`crontab_weekdays`). -/
def weekdaysByName (field : List Char) : List Char := weekdaysFrom false [] field

/-- The text in the longer form. -/
def expand (cs : List Char) : List Char :=
  match Text.words cs with
  | [minute, hour, day, month, weekday] =>
    List.intercalate [' '] [['0'], minute, hour, day, month, weekdaysByName weekday]
  | _ => Text.trim cs

/-- A schedule and its text in the longer form. -/
structure NamedSchedule where
  source : List Char
  schedule : Schedule
  deriving DecidableEq, Repr

/-- The schedule of a text in either form (`parse_schedule`). -/
def parseSchedule (cs : List Char) : Option NamedSchedule :=
  (Schedule.ofText? (expand cs)).map fun schedule => { source := expand cs, schedule }

/-- What is said of a text that is no schedule. -/
def invalidSchedule : String := "Invalid expression: Invalid cron expression."

end Agenda.Cron
