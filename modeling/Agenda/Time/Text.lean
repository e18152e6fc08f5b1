import Agenda.Decimal.Digits
import Agenda.Text.Blank
import Agenda.Time.Instant

/-!
# Instants as text

Instants are written in one form, `2026-10-14T09:00:00.250Z`: the year has four digits, and a sign
outside 0 to 9999; the fraction has the fewest of 0, 3, 6 or 9 digits that lose nothing; a leap
second is second 60.

They are read from a looser form, which admits blanks before numbers and separators, fewer digits,
a space instead of `T`, and any offset from UTC of less than a day. Second 60 is a leap second of
any minute.

* `Instant.toText` writes, `Instant.ofText` reads.
* `TextError`: why a text is no instant.
-/
namespace Agenda

open Decimal Text

namespace Instant

/-! ## Writing -/

/-- Four digits, and a sign unless the year is 0 to 9999. -/
def yearText (y : Int) : List Char :=
  if y < 0 then '-' :: padded 4 y.natAbs
  else if 9999 < y then '+' :: padded 4 y.natAbs
  else padded 4 y.natAbs

/-- A point and the fewest of 0, 3, 6 or 9 digits that spell the fraction of a second. -/
def fractionText (nanos : Nat) : List Char :=
  if nanos = 0 then []
  else if nanos % 1000000 = 0 then '.' :: padded 3 (nanos / 1000000)
  else if nanos % 1000 = 0 then '.' :: padded 6 (nanos / 1000)
  else '.' :: padded 9 nanos

/-- The date and time of day, without an offset. -/
def localText (t : Instant) : List Char :=
  let d := t.date
  let leap := nanosPerSecond ≤ t.nanos
  yearText d.year ++ ('-' :: padded 2 d.month) ++ ('-' :: padded 2 d.day) ++
    ('T' :: padded 2 t.hour) ++ (':' :: padded 2 t.minute) ++
    (':' :: padded 2 (if leap then t.second + 1 else t.second)) ++
    fractionText (if leap then t.nanos - nanosPerSecond else t.nanos)

/-- The instant as text, in UTC. -/
def toText (t : Instant) : List Char := t.localText ++ ['Z']

end Instant

/-- Why a text is no instant. -/
inductive TextError where
  | outOfRange
  | invalid
  | tooShort
  | tooLong
  | impossible
  deriving DecidableEq, Repr

def TextError.message : TextError → String
  | outOfRange => "input is out of range"
  | invalid => "input contains invalid characters"
  | tooShort => "premature end of input"
  | tooLong => "trailing input"
  | impossible => "no possible date and time matching input"

namespace Instant

/-! ## Reading -/

/-- The largest 64-bit number; a longer run of digits is out of range. -/
def maxNumber : Nat := 9223372036854775807

/-- Reads digits onto the number read so far, at most `limit` of them. -/
def readDigits (limit n : Nat) : List Char → Except TextError (Nat × List Char)
  | [] => .ok (n, [])
  | c :: cs =>
    match limit with
    | 0 => .ok (n, c :: cs)
    | limit + 1 =>
      if c.isDigit then
        let n := 10 * n + digitValue c
        if maxNumber < n then .error .outOfRange else readDigits limit n cs
      else .ok (n, c :: cs)

/-- Reads a number of one to `limit` digits. -/
def readNumber (limit : Nat) : List Char → Except TextError (Nat × List Char)
  | [] => .error .tooShort
  | c :: cs =>
    if c.isDigit then readDigits (limit - 1) (digitValue c) cs else .error .invalid

/-- Reads a number of at most two digits, blanks before it, that lies in a range. -/
def readField (low high : Nat) (cs : List Char) : Except TextError (Nat × List Char) := do
  let (n, cs) ← readNumber 2 (trimStart cs)
  if low ≤ n ∧ n ≤ high then pure (n, cs) else throw .outOfRange

/-- Reads a separator, blanks before it. -/
def readSeparator (c : Char) (cs : List Char) : Except TextError (List Char) :=
  match trimStart cs with
  | [] => .error .tooShort
  | d :: cs => if d = c then .ok cs else .error .invalid

/-- Reads a year: four digits at most, or a sign and any number of digits. -/
def readYear (cs : List Char) : Except TextError (Int × List Char) := do
  match trimStart cs with
  | '-' :: cs =>
    let (n, cs) ← readNumber cs.length cs
    if n ≤ 2147483648 then pure (-n, cs) else throw .outOfRange
  | '+' :: cs =>
    let (n, cs) ← readNumber cs.length cs
    if n ≤ 2147483647 then pure (n, cs) else throw .outOfRange
  | cs =>
    let (n, cs) ← readNumber 4 cs
    pure (n, cs)

/-- Reads what parts the date from the time of day. -/
def readDivider : List Char → Except TextError (List Char)
  | [] => .error .tooShort
  | c :: cs => if c = 'T' ∨ c = 't' ∨ c = ' ' then .ok cs else .error .invalid

/-- Reads a fraction of a second, if there is one, as nanoseconds; digits from the tenth on are
dropped. -/
def readFraction : List Char → Except TextError (Nat × List Char)
  | '.' :: cs => do
    let (n, rest) ← readNumber 9 cs
    pure (n * tenTo (9 - (cs.length - rest.length)), rest.dropWhile Char.isDigit)
  | cs => .ok (0, cs)

/-- Reads two digits of an offset; the second is the one to be in a range. -/
def readTwo (isFirst : Char → Bool) : List Char → Except TextError (Nat × List Char)
  | [] => .error .tooShort
  | [c] => .error (if c.toNat < 0x80 then .tooShort else .invalid)
  | c :: d :: cs =>
    if isFirst c && d.isDigit then .ok (10 * digitValue c + digitValue d, cs)
    else if c.isDigit && d.isDigit then .error .outOfRange
    else .error .invalid

/-- Reads the hours and minutes of an offset, as minutes. -/
def readHoursMinutes (cs : List Char) : Except TextError (Nat × List Char) := do
  let (hours, cs) ← readTwo Char.isDigit cs
  let (minutes, cs) ← readTwo (fun c => '0' ≤ c && c ≤ '5')
    (cs.dropWhile fun c => c = ':' || isBlank c)
  pure (60 * hours + minutes, cs)

/-- Reads an offset from UTC, as minutes. -/
def readOffset : List Char → Except TextError (Int × List Char)
  | [] => .error .tooShort
  | c :: cs =>
    if (c = 'U' ∨ c = 'u') ∧ (cs.take 2).map Char.toUpper = ['T', 'C'] then .ok (0, cs.drop 2)
    else if c = 'Z' ∨ c = 'z' then .ok (0, cs)
    else if c = '+' then (readHoursMinutes cs).map fun (n, cs) => ((n : Int), cs)
    else if c = '-' ∨ c = '\u2212' then (readHoursMinutes cs).map fun (n, cs) => (-(n : Int), cs)
    else .error .invalid

/-- A date and time of day with an offset from UTC, as read. -/
structure Reading where
  year : Int
  month : Nat
  day : Nat
  hour : Nat
  minute : Nat
  second : Nat
  nanos : Nat
  offset : Int
  deriving DecidableEq, Repr

/-- Reads the parts of an instant, each in its own range. -/
def readParts (cs : List Char) : Except TextError Reading := do
  let (year, cs) ← readYear cs
  let (month, cs) ← readField 1 12 (← readSeparator '-' cs)
  let (day, cs) ← readField 1 31 (← readSeparator '-' cs)
  let (hour, cs) ← readField 0 23 (← readDivider cs)
  let (minute, cs) ← readField 0 59 (← readSeparator ':' cs)
  let (second, cs) ← readField 0 60 (← readSeparator ':' cs)
  let (nanos, cs) ← readFraction cs
  let (offset, cs) ← readOffset (trimStart cs)
  if (trimStart cs).isEmpty then
    pure { year, month, day, hour, minute, second, nanos, offset }
  else throw .tooLong

/-- The instant of the parts: the date and the offset have to be of the supported range, and so has
the instant in UTC. -/
def Reading.toInstant (r : Reading) : Except TextError Instant :=
  match Date.of? r.year r.month r.day with
  | none => .error .outOfRange
  | some d =>
    if r.offset.natAbs < 24 * 60 then
      let leap := r.second = 60
      let seconds := d.toDays * secondsPerDay + (r.hour * 3600 + r.minute * 60 : Nat) +
        (if leap then 59 else r.second : Nat) - r.offset * 60
      match of? seconds (if leap then r.nanos + nanosPerSecond else r.nanos) with
      | some t => .ok t
      | none => .error .impossible
    else .error .outOfRange

/-- The instant that a text denotes. -/
def ofText (cs : List Char) : Except TextError Instant := do
  (← readParts cs).toInstant

end Instant

end Agenda
