/-!
# Dates of the proleptic Gregorian calendar

A date is a year, a month and a day; a day number counts days from 1970-01-01. Years are counted
from the first of March, so that a leap day is the last day of its year: then the day number of a
date is a sum of quotients, and the way back takes out eras of 400 years, centuries, groups of four
years and years, one after the other.

* `Date.toDays`: the day number of a date.
* `Date.ofDays`: the date of a day number.
* `Date.minDays`, `Date.maxDays`: the supported range, -262143-01-01 to +262142-12-31.
-/
namespace Agenda

/-- A calendar date; year 0 precedes year 1. -/
structure Date where
  year : Int
  month : Nat
  day : Nat
  deriving DecidableEq, Repr

namespace Date

/-! ## Months and years -/

def isLeapYear (y : Int) : Bool :=
  y % 4 == 0 && (y % 100 != 0 || y % 400 == 0)

def daysInMonth (y : Int) : Nat → Nat
  | 2 => if isLeapYear y then 29 else 28
  | 4 | 6 | 9 | 11 => 30
  | _ => 31

/-- The date exists: its month is 1 to 12 and its day is one of that month. -/
def Exists (d : Date) : Prop :=
  1 ≤ d.month ∧ d.month ≤ 12 ∧ 1 ≤ d.day ∧ d.day ≤ daysInMonth d.year d.month

instance (d : Date) : Decidable d.Exists :=
  inferInstanceAs (Decidable (_ ∧ _ ∧ _ ∧ _))

/-! ## Day numbers -/

/-- The day number of 1970-01-01, counted from 0000-03-01. -/
def epochOffset : Int := 719468

/-- Days from 1970-01-01 to the date. -/
def toDays (d : Date) : Int :=
  let y : Int := if d.month ≤ 2 then d.year - 1 else d.year
  let m : Int := if d.month ≤ 2 then d.month + 9 else d.month - 3
  365 * y + y / 4 - y / 100 + y / 400 + (153 * m + 2) / 5 + d.day - 1 - epochOffset

/-- The year (from March) and the day of it, from the days since the first of March of a year
divisible by 400. -/
def yearOfEra (days : Nat) : Nat × Nat :=
  let century := min 3 (days / 36524)
  let days := days - 36524 * century
  let group := days / 1461
  let days := days - 1461 * group
  let year := min 3 (days / 365)
  (100 * century + 4 * group + year, days - 365 * year)

/-- The date of a day number. -/
def ofDays (n : Int) : Date :=
  let z := n + epochOffset
  let era := z / 146097
  let (yoe, doy) := yearOfEra (z % 146097).toNat
  let m := (5 * doy + 2) / 153
  { year := 400 * era + yoe + (if m < 10 then 0 else 1)
    month := if m < 10 then m + 3 else m - 9
    day := doy - (153 * m + 2) / 5 + 1 }

/-! ## The supported range -/

/-- -262143-01-01. -/
def minDays : Int := -96465292

/-- +262142-12-31. -/
def maxDays : Int := 95026236

/-- The last supported date. -/
def last : Date := ⟨262142, 12, 31⟩

/-- The date lies in the supported range. -/
def InRange (d : Date) : Prop := minDays ≤ d.toDays ∧ d.toDays ≤ maxDays

instance (d : Date) : Decidable d.InRange :=
  inferInstanceAs (Decidable (_ ∧ _))

example : toDays ⟨-262143, 1, 1⟩ = minDays ∧ toDays last = maxDays := by decide
example : ofDays minDays = ⟨-262143, 1, 1⟩ ∧ ofDays maxDays = last := by decide
example : ofDays 0 = ⟨1970, 1, 1⟩ ∧ toDays ⟨2000, 2, 29⟩ = 11016 := by decide

/-- A date of the calendar that lies in the supported range. -/
def of? (year : Int) (month day : Nat) : Option Date :=
  let d : Date := ⟨year, month, day⟩
  if d.Exists ∧ d.InRange then some d else none

/-- The date `n` days later, if it is supported. -/
def addDays? (d : Date) (n : Int) : Option Date :=
  let m := d.toDays + n
  if minDays ≤ m ∧ m ≤ maxDays then some (ofDays m) else none

/-- The date `n` months later, its day cut to the length of the month reached; `none` beyond the
supported range. -/
def addMonths? (d : Date) (n : Int) : Option Date :=
  let months := 12 * d.year + (d.month - 1) + n
  let year := months / 12
  let month := (months % 12).toNat + 1
  of? year month (min d.day (daysInMonth year month))

/-! ## Weekdays -/

/-- Days since the Monday on or before the date; 1970-01-01 was a Thursday. -/
def daysFromMonday (d : Date) : Nat := ((d.toDays + 3) % 7).toNat

/-- The weekday counted from 1, Sunday, to 7, Saturday. -/
def weekdayFromSunday (d : Date) : Nat := (d.daysFromMonday + 1) % 7 + 1

end Date

end Agenda
