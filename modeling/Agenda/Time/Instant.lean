import Agenda.Time.Date
import Agenda.Time.Duration

/-!
# Instants

An instant is a second of Unix time and a count of nanoseconds within it. A leap second is the
second 59 of its minute with a billion nanoseconds or more: it follows every other instant of
second 59 and precedes the next second.

* `Instant.add?` adds a duration. From a leap second, a positive step starts at the same fraction of
  second 59, a negative one at the following second, and a step that stays within the leap second
  moves within it.
* `Instant.date`, `Date.midnight?`: between instants and dates.
-/
namespace Agenda

def nanosPerSecond : Nat := 1000000000

def secondsPerDay : Int := 86400

/-- -262143-01-01T00:00:00Z. -/
def minSeconds : Int := Date.minDays * secondsPerDay

/-- +262142-12-31T23:59:59Z. -/
def maxSeconds : Int := Date.maxDays * secondsPerDay + (secondsPerDay - 1)

/-- The second lies in the supported range, and only second 59 of a minute is followed by a leap
second. -/
def Instant.Valid (seconds : Int) (nanos : Nat) : Prop :=
  minSeconds ≤ seconds ∧ seconds ≤ maxSeconds ∧ nanos < 2 * nanosPerSecond ∧
    (nanosPerSecond ≤ nanos → seconds % 60 = 59)

instance (s : Int) (n : Nat) : Decidable (Instant.Valid s n) :=
  inferInstanceAs (Decidable (_ ∧ _ ∧ _ ∧ (_ → _)))

/-- An instant of UTC. -/
structure Instant where
  seconds : Int
  nanos : Nat
  valid : Instant.Valid seconds nanos
  deriving DecidableEq, Repr

namespace Instant

/-- The instant with these seconds and nanoseconds, if it is supported. -/
def of? (seconds : Int) (nanos : Nat) : Option Instant :=
  if h : Valid seconds nanos then some ⟨seconds, nanos, h⟩ else none

/-- The first supported instant. -/
def first : Instant := ⟨minSeconds, 0, by decide⟩

/-! ## Order -/

protected def Lt (a b : Instant) : Prop :=
  a.seconds < b.seconds ∨ a.seconds = b.seconds ∧ a.nanos < b.nanos

protected def Le (a b : Instant) : Prop :=
  a.seconds < b.seconds ∨ a.seconds = b.seconds ∧ a.nanos ≤ b.nanos

instance : LT Instant := ⟨Instant.Lt⟩

instance : LE Instant := ⟨Instant.Le⟩

instance (a b : Instant) : Decidable (a < b) :=
  inferInstanceAs (Decidable (_ ∨ _ ∧ _))

instance (a b : Instant) : Decidable (a ≤ b) :=
  inferInstanceAs (Decidable (_ ∨ _ ∧ _))

/-! ## Adding durations -/

/-- The instant `total` nanoseconds after 1970-01-01T00:00:00Z. -/
def ofNanos? (total : Int) : Option Instant :=
  of? (total / nanosPerSecond) (total % nanosPerSecond).toNat

/-- The instant a duration later, if it is supported. -/
def add? (t : Instant) (d : Duration) : Option Instant :=
  let whole := d.nanos.tdiv nanosPerSecond
  let part := d.nanos.tmod nanosPerSecond
  if nanosPerSecond ≤ t.nanos then
    let fraction : Int := t.nanos - nanosPerSecond
    if 0 < whole ∨ 0 < part ∧ nanosPerSecond ≤ fraction + part then
      ofNanos? (t.seconds * nanosPerSecond + fraction + d.nanos)
    else if whole < 0 then
      ofNanos? ((t.seconds + 1) * nanosPerSecond + fraction + d.nanos)
    else
      of? t.seconds (t.nanos + part).toNat
  else
    ofNanos? (t.seconds * nanosPerSecond + t.nanos + d.nanos)

/-- The instant a duration earlier, if it is supported. -/
def sub? (t : Instant) (d : Duration) : Option Instant := t.add? d.neg

/-- The instant cut to whole microseconds; a leap second stays one. -/
def truncateToMicros (t : Instant) : Instant :=
  ⟨t.seconds, t.nanos - t.nanos % 1000, by
    obtain ⟨h₁, h₂, h₃, h₄⟩ := t.valid
    refine ⟨h₁, h₂, by omega, fun h => h₄ (by omega)⟩⟩

/-! ## Dates and times of day -/

/-- The day number of the instant's date. -/
def days (t : Instant) : Int := t.seconds / secondsPerDay

def date (t : Instant) : Date := .ofDays t.days

/-- Seconds since midnight. -/
def secondOfDay (t : Instant) : Nat := (t.seconds % secondsPerDay).toNat

def hour (t : Instant) : Nat := t.secondOfDay / 3600

def minute (t : Instant) : Nat := t.secondOfDay / 60 % 60

def second (t : Instant) : Nat := t.secondOfDay % 60

/-- The instant of a date, a second of the day and nanoseconds, if it is supported. -/
def at? (d : Date) (secondOfDay nanos : Nat) : Option Instant :=
  of? (d.toDays * secondsPerDay + secondOfDay) nanos

/-- The same time of day `n` months later, the day cut to the length of the month reached. -/
def addMonths? (t : Instant) (n : Int) : Option Instant := do
  let d ← t.date.addMonths? n
  at? d t.secondOfDay t.nanos

end Instant

/-- The start of the date, if it is supported (`midnight`). -/
def Date.midnight? (d : Date) : Option Instant := Instant.at? d 0 0

end Agenda
