import Agenda.Decimal.Digits
import Agenda.Time.Date

/-!
# Dates and times in TOML

A date, a time of day, or both with or without an offset from UTC. They are kept as texts in one form:
nine digits of a fraction at most and no zeros at its end, capital letters, and no negative zero.

* `readMoment`: a date or a time in a document, as far as it goes.
* `Moment.ofText?`: the same as a text of its own, where the day may end at 24 o'clock and an offset is
  any number of hours and minutes up to a day.
-/
namespace Agenda.Toml

open Decimal

/-! ## Parts -/

/-- Reads exactly `n` digits. -/
def readExactly (n : Nat) (cs : List Char) : Option (List Char × List Char) :=
  let ds := cs.take n
  if ds.length = n ∧ ds.all Char.isDigit then some (ds, cs.drop n) else none

/-- Reads two digits of a number in a range. -/
def readTwo (low high : Nat) (cs : List Char) : Option (Nat × List Char) := do
  let (ds, cs) ← readExactly 2 cs
  if low ≤ ofDigits ds ∧ ofDigits ds ≤ high then pure (ofDigits ds, cs) else none

def readMark (mark : Char) : List Char → Option (List Char)
  | c :: cs => if c = mark then some cs else none
  | [] => none

/-- Reads a date: its text. -/
def readDate (cs : List Char) : Option (List Char × List Char) := do
  let (year, cs) ← readExactly 4 cs
  let (month, cs) ← readTwo 1 12 (← readMark '-' cs)
  let (day, cs) ← readTwo 1 31 (← readMark '-' cs)
  if day ≤ Date.daysInMonth (ofDigits year) month then
    pure (year ++ '-' :: padded 2 month ++ '-' :: padded 2 day, cs)
  else none

/-- The text of a fraction of a second: at most nine digits, without zeros at the end. -/
def fractionText (ds : List Char) : List Char :=
  match ((ds.take 9).reverse.dropWhile (· = '0')).reverse with
  | [] => []
  | ds => '.' :: ds

/-- Reads a fraction of a second, if there is one: its text. -/
def readFraction (cs : List Char) : List Char × List Char :=
  match cs with
  | '.' :: rest =>
    let (ds, rest) := rest.span Char.isDigit
    if ds.isEmpty then ([], cs) else (fractionText ds, rest)
  | cs => ([], cs)

/-- Reads a time of day, at most in the hour `lastHour`: its text. -/
def readTime (lastHour : Nat) (cs : List Char) : Option (List Char × List Char) := do
  let (hour, cs) ← readTwo 0 lastHour cs
  let (minute, cs) ← readTwo 0 59 (← readMark ':' cs)
  let (second, cs) ← readTwo 0 60 (← readMark ':' cs)
  let (fraction, cs) := readFraction cs
  pure (padded 2 hour ++ ':' :: padded 2 minute ++ ':' :: padded 2 second ++ fraction, cs)

/-- The text of an offset of so many minutes after its sign. -/
def offsetText (sign : Char) (minutes : Nat) : List Char :=
  (if minutes = 0 then '+' else sign) :: padded 2 (minutes / 60) ++ ':' :: padded 2 (minutes % 60)

/-- Reads an offset from UTC, with hours and minutes in their ranges: its text. -/
def readOffset (lastHour lastMinute : Nat) : List Char → Option (List Char × List Char)
  | [] => none
  | c :: cs =>
    if c = 'Z' ∨ c = 'z' then some (['Z'], cs)
    else if c = '+' ∨ c = '-' then do
      let (hours, cs) ← readTwo 0 lastHour cs
      let (minutes, cs) ← readTwo 0 lastMinute (← readMark ':' cs)
      if 60 * hours + minutes ≤ 1440 then pure (offsetText c (60 * hours + minutes), cs) else none
    else none

/-- The letter or the space between a date and a time of day. -/
def isDivider (c : Char) : Bool := c = 'T' || c = 't' || c = ' '

/-! ## In a document -/

/-- Reads a time of day and an offset after a date, if they are there: their text. -/
def readTimeOfDate (cs : List Char) : List Char × List Char :=
  match cs with
  | c :: rest =>
    if isDivider c then
      match readTime 23 rest with
      | none => ([], cs)
      | some (time, rest) =>
        match readOffset 23 59 rest with
        | none => ('T' :: time, rest)
        | some (offset, rest) => ('T' :: time ++ offset, rest)
    else ([], cs)
  | [] => ([], [])

/-- Reads a date with or without a time of day, or a time alone: its text. -/
def readMoment (cs : List Char) : Option (List Char × List Char) :=
  match readDate cs with
  | some (date, rest) =>
    let (time, rest) := readTimeOfDate rest
    some (date ++ time, rest)
  | none => readTime 23 cs

/-! ## As a text -/

namespace Moment

/-- A table that begins with this name stands for the date or the time that is written under it. -/
def mark : String := "$__toml_private_datetime"

/-- The first part of a pair with which nothing is left. -/
def complete? : Option (List Char × List Char) → Option (List Char)
  | some (text, []) => some text
  | _ => none

/-- The offset that is the whole of a text, if there is any text. -/
def offset? : List Char → Option (List Char)
  | [] => some []
  | cs => complete? (readOffset 99 99 cs)

/-- The one form of a date or a time that is the whole of a text. A time alone has a colon after two
characters. -/
def ofText? (cs : List Char) : Option (List Char) :=
  if cs[2]? = some ':' then complete? (readTime 24 cs)
  else do
    let (date, rest) ← readDate cs
    match rest with
    | [] => pure date
    | c :: rest =>
      if isDivider c then do
        let (time, rest) ← readTime 24 rest
        pure (date ++ 'T' :: time ++ (← offset? rest))
      else none

end Moment

end Agenda.Toml
