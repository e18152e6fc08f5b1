import Agenda.Calendar
import Agenda.Proofs.Event.Json
import Agenda.Store.Relational

/-!
# What is kept can be written

Events come in as JSON, whose durations are 64-bit counts of nanoseconds, and are kept under an id with
their start cut to microseconds. So whatever is kept can be written as JSON again and as a row.

* `Kept`: what every event has that is kept; every change of an event that came in as JSON gives it one.
* `Kept.writable`, `Kept.storedNanos`: both ways of writing it succeed.
-/
namespace Agenda.Event

variable {e : Event} {fresh : String} {input : List UInt8}

/-- The event has an id, a start of whole microseconds and a duration of 64 bits of nanoseconds. -/
structure Kept (e : Event) : Prop where
  named : e.id ≠ ""
  whole : e.startDate.nanos % 1000 = 0
  fits : e.duration.Fits

theorem nanos_truncateToMicros (t : Instant) : t.truncateToMicros.nanos % 1000 = 0 := by
  simp only [Instant.truncateToMicros]
  omega

/-- An event that came in as JSON is kept if it has an id. -/
theorem kept_rearmed (h : ofJson input = .ok e) (hid : e.id ≠ "") : e.rearmed.Kept := by
  have hfits : e.duration.Fits := writable_iff.1 (writable_of_ofJson h)
  exact ⟨hid, nanos_truncateToMicros e.startDate, hfits⟩

theorem kept_accepted (h : ofJson input = .ok e) (hfresh : fresh ≠ "") :
    (e.accepted fresh).Kept := by
  have hfits : e.duration.Fits := writable_iff.1 (writable_of_ofJson h)
  unfold accepted withId
  split
  · exact ⟨hfresh, nanos_truncateToMicros e.startDate, hfits⟩
  · rename_i hid
    exact kept_rearmed h (by simpa using hid)

namespace Kept

variable (h : e.Kept)
include h

/-- A mark changes nothing of this. -/
theorem sent : ({ e with isSent := true } : Event).Kept := ⟨h.named, h.whole, h.fits⟩

theorem writable : ∃ cs, e.toJson? = some cs := writable_iff.2 h.fits

/-- The row has the exact count of nanoseconds. -/
theorem storedNanos :
    ∃ n : Int64, Relational.storedNanos e = .ok n ∧ n.toInt = e.duration.nanos := by
  refine ⟨Int64.ofInt e.duration.nanos, ?_, Int64.toInt_ofInt_of_le h.fits.1 h.fits.2⟩
  rw [Relational.storedNanos, Duration.toNanos?_eq_some h.fits]

end Kept

end Agenda.Event
