import Agenda.Cron.Field

/-!
# The text of a schedule

Six or seven fields: second, minute, hour, day of the month, month, weekday and, if it is there,
year. Spaces, tabs and ends of lines may stand around fields, numbers and names, and need not stand
between fields.
Each part is read as far as it goes: of several readings the first that fits is taken and not
reconsidered. There are short forms, such as `@daily`, too.

* `Schedule.ofText?`: the schedule that a text denotes.
-/
namespace Agenda.Cron

open Decimal

/-- When something is due: at the seconds whose parts are all listed. -/
structure Schedule where
  seconds : List Nat
  minutes : List Nat
  hours : List Nat
  daysOfMonth : List Nat
  months : List Nat
  weekdays : List Nat
  years : List Nat
  deriving DecidableEq, Repr

/-! ## Tokens -/

def isPad (c : Char) : Bool := c = ' ' || c = '\t' || c = '\r' || c = '\n'

/-- The characters of a class, pads around them dropped; at least one has to be there. -/
def readRun (isPart : Char → Bool) (cs : List Char) : Option (List Char × List Char) :=
  let cs := cs.dropWhile isPad
  match cs.takeWhile isPart with
  | [] => none
  | run => some (run, (cs.dropWhile isPart).dropWhile isPad)

/-- The largest number that may be written. -/
def maxNumber : Nat := 4294967295

def readNumber (cs : List Char) : Option (Nat × List Char) := do
  let (ds, rest) ← readRun Char.isDigit cs
  if ofDigits ds ≤ maxNumber then pure (ofDigits ds, rest) else none

def readName (cs : List Char) : Option (List Char × List Char) := readRun Char.isAlpha cs

def readMark (mark : Char) : List Char → Option (List Char)
  | c :: cs => if c = mark then some cs else none
  | [] => none

/-! ## Terms -/

def readAll (mark : Char) (cs : List Char) : Option (Span × List Char) := do
  let rest ← readMark mark cs
  pure (.all, rest)

def readRange (cs : List Char) : Option (Span × List Char) := do
  let (first, rest) ← readNumber cs
  let rest ← readMark '-' rest
  let (last, rest) ← readNumber rest
  pure (.range first last, rest)

def readPoint (cs : List Char) : Option (Span × List Char) := do
  let (n, rest) ← readNumber cs
  pure (.point n, rest)

def readNames (cs : List Char) : Option (Span × List Char) := do
  let (first, rest) ← readName cs
  let rest ← readMark '-' rest
  let (last, rest) ← readName rest
  pure (.names first last, rest)

/-- Reads a span; `mayBeOpen` admits the question mark. -/
def readSpan (mayBeOpen : Bool) (cs : List Char) : Option (Span × List Char) :=
  (if mayBeOpen then readAll '?' cs else none)
    |>.or (readAll '*' cs)
    |>.or (readRange cs)
    |>.or (readPoint cs)
    |>.or (readNames cs)

def readEvery (mayBeOpen : Bool) (cs : List Char) : Option (Term × List Char) := do
  let (s, rest) ← readSpan mayBeOpen cs
  let rest ← readMark '/' rest
  let (step, rest) ← readNumber rest
  pure (.every s step, rest)

def readTerm (mayBeOpen : Bool) (cs : List Char) : Option (Term × List Char) :=
  readEvery mayBeOpen cs
    |>.or ((readSpan mayBeOpen cs).map fun (s, rest) => (.span s, rest))
    |>.or ((readName cs).map fun (name, rest) => (.name name, rest))

/-- Reads terms after commas, at most `limit` of them; a comma without a term is left. -/
def readMoreTerms (mayBeOpen : Bool) : Nat → List Char → List Term × List Char
  | 0, cs => ([], cs)
  | limit + 1, cs =>
    match (readMark ',' cs).bind (readTerm mayBeOpen) with
    | none => ([], cs)
    | some (t, rest) =>
      let (ts, rest) := readMoreTerms mayBeOpen limit rest
      (t :: ts, rest)

/-- Reads a list of terms. -/
def readTerms (mayBeOpen : Bool) (cs : List Char) : Option (List Term × List Char) := do
  let (t, rest) ← readTerm mayBeOpen cs
  let (ts, rest) := readMoreTerms mayBeOpen rest.length rest
  pure (t :: ts, rest)

/-- Reads a field: the set that it denotes. -/
def readField (f : Field) (cs : List Char) : Option (List Nat × List Char) := do
  let (ts, rest) ← readTerms f.mayBeOpen (cs.dropWhile isPad)
  let set ← f.set? ts
  pure (set, rest.dropWhile isPad)

/-! ## Schedules -/

/-- A short form. -/
structure Shorthand where
  name : String
  schedule : Schedule
  deriving DecidableEq, Repr

/-- Every second. -/
def always : Schedule where
  seconds := Field.second.values
  minutes := Field.minute.values
  hours := Field.hour.values
  daysOfMonth := Field.dayOfMonth.values
  months := Field.month.values
  weekdays := Field.weekday.values
  years := Field.year.values

def hourly : Schedule := { always with seconds := [0], minutes := [0] }

def daily : Schedule := { hourly with hours := [0] }

def weekly : Schedule := { daily with weekdays := [1] }

def monthly : Schedule := { daily with daysOfMonth := [1] }

def yearly : Schedule := { monthly with months := [1] }

def shorthands : List Shorthand :=
  [⟨"@yearly", yearly⟩, ⟨"@monthly", monthly⟩, ⟨"@weekly", weekly⟩, ⟨"@daily", daily⟩,
    ⟨"@hourly", hourly⟩]

/-- The schedule of a short form, pads around it dropped. -/
def shorthand? (cs : List Char) : Option Schedule := do
  let cs := cs.dropWhile isPad
  let s ← shorthands.find? fun s => s.name.toList.isPrefixOf cs
  if ((cs.drop s.name.length).dropWhile isPad).isEmpty then pure s.schedule else none

/-- The schedule of a list of fields. A year that cannot be read is not there. -/
def longhand? (cs : List Char) : Option Schedule := do
  let (seconds, cs) ← readField .second cs
  let (minutes, cs) ← readField .minute cs
  let (hours, cs) ← readField .hour cs
  let (daysOfMonth, cs) ← readField .dayOfMonth cs
  let (months, cs) ← readField .month cs
  let (weekdays, cs) ← readField .weekday cs
  let (years, cs) := (readField .year cs).getD (Field.year.values, cs)
  if cs.isEmpty then pure { seconds, minutes, hours, daysOfMonth, months, weekdays, years }
  else none

/-- The schedule that the text denotes. -/
def Schedule.ofText? (cs : List Char) : Option Schedule := (shorthand? cs).or (longhand? cs)

end Agenda.Cron
