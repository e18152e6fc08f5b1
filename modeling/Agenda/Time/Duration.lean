/-!
# Durations

A signed span of time, exact to the nanosecond. It is bounded by a 64-bit count of milliseconds, so
it may exceed what 64 bits of nanoseconds hold: `Duration.toNanos?` says whether it does.
-/
namespace Agenda

/-- The largest duration in nanoseconds, 9223372036854775.807 seconds. -/
def maxDurationNanos : Int := 9223372036854775807000000

/-- A signed span of time of at most 9223372036854775.807 seconds. -/
structure Duration where
  nanos : Int
  bounded : -maxDurationNanos ≤ nanos ∧ nanos ≤ maxDurationNanos
  deriving DecidableEq, Repr

namespace Duration

/-- The duration of so many nanoseconds, if it is not too long. -/
def of? (nanos : Int) : Option Duration :=
  if h : -maxDurationNanos ≤ nanos ∧ nanos ≤ maxDurationNanos then some ⟨nanos, h⟩ else none

def zero : Duration := ⟨0, by decide⟩

def second : Duration := ⟨1000000000, by decide⟩

def day : Duration := ⟨86400000000000, by decide⟩

def week : Duration := ⟨604800000000000, by decide⟩

/-- Every 64-bit count of nanoseconds is a duration (`duration_nanos.from_nanos`). -/
def ofNanos (n : Int64) : Duration :=
  ⟨n.toInt, by
    have h₁ := Int64.le_toInt n
    have h₂ := Int64.toInt_lt n
    simp only [maxDurationNanos]
    omega⟩

/-- The duration as a 64-bit count of nanoseconds, if it fits (`duration_nanos.to_nanos`). -/
def toNanos? (d : Duration) : Option Int64 :=
  if Int64.minValue.toInt ≤ d.nanos ∧ d.nanos ≤ Int64.maxValue.toInt then
    some (Int64.ofInt d.nanos)
  else none

/-- So many minutes, if the seconds fit 64 bits and the duration is not too long. -/
def ofMinutes? (n : Int64) : Option Duration :=
  of? (n.toInt * 60 * 1000000000)

def neg (d : Duration) : Duration :=
  ⟨-d.nanos, by have := d.bounded; omega⟩

end Duration

end Agenda
