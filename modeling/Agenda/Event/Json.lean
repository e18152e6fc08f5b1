import Agenda.Event.Basic
import Agenda.Json.Printer
import Agenda.Json.Record

/-!
# Events as JSON

The members are written in the order of the fields, the duration as nanoseconds; an event whose
duration does not fit 64 bits of them cannot be written. Reading accepts any order and the short
form, a list.

* `Event.toJson?` writes, `Event.ofJson` reads.
-/
namespace Agenda

open Json

namespace Event

/-! ## Reading -/

def readText : Reader String := (Reader.string "a string").map String.ofList

def readInstant : Reader Instant :=
  (Reader.string "an RFC 3339 formatted date and time string").andThen fun cs =>
    (Instant.ofText cs).mapError .invalidInstant

/-- A duration as nanoseconds (`duration_nanos.deserialize`). -/
def readDuration : Reader Duration :=
  ((Reader.integer "i64").map Duration.ofNanos).mapCause .invalidNanoseconds

/-- The fields of an event. -/
def record : Record Event where
  title := "struct Event"
  blank := blank
  fields := [
    ⟨"id", readText.map fun s e => { e with id := s }⟩,
    ⟨"title", readText.map fun s e => { e with title := s }⟩,
    ⟨"startDate", readInstant.map fun t e => { e with startDate := t }⟩,
    ⟨"duration", readDuration.map fun d e => { e with duration := d }⟩,
    ⟨"description", readText.map fun s e => { e with description := s }⟩,
    ⟨"owner", readText.map fun s e => { e with owner := s }⟩,
    ⟨"remindAt", (Reader.integer "i64").map fun n e => { e with remindAt := n }⟩,
    ⟨"isSend", (Reader.bool "a boolean").map fun b e => { e with isSent := b }⟩]

/-- The event that the bytes denote. -/
def ofJson (input : List UInt8) : Except ReadError Event := record.reader.decode input

/-! ## Writing -/

/-- The event as JSON, if its duration can be written. -/
def toJson? (e : Event) : Option (List Char) :=
  e.duration.toNanos?.map fun nanos =>
    writeObject [
      writeMember "id" (writeString e.id),
      writeMember "title" (writeString e.title),
      writeMember "startDate" (writeString (String.ofList e.startDate.toText)),
      writeMember "duration" (writeInteger nanos.toInt),
      writeMember "description" (writeString e.description),
      writeMember "owner" (writeString e.owner),
      writeMember "remindAt" (writeInteger e.remindAt.toInt),
      writeMember "isSend" (writeBool e.isSent)]

/-- Why an event cannot be written (`duration_nanos.serialize`). -/
def tooLongToWrite : String := "duration does not fit into i64 nanoseconds"

end Event

end Agenda
