import Agenda.Calendar
import Agenda.Event.Json

/-!
# Intake of messages

A message holds an event as JSON, which is created as a client of the calendar would create it. A
message that comes again is told from others by the id of its event.
-/
namespace Agenda

/-- What has become of a message (`ConsumeOutcome`). -/
inductive Intake where
  | created (id : String)
  /-- An event with this id is stored already. -/
  | duplicate (id : String)
  deriving DecidableEq, Repr

/-- Takes in a message; `payload` is absent if it has none (`consume_message`). -/
def Intake.consume (fresh : String) (payload : Option (List UInt8)) (b : Backend) :
    Except IntakeError (Intake × Backend) :=
  match payload with
  | none | some [] => .error .noPayload
  | some bytes =>
    match Event.ofJson bytes with
    | .error e => .error (.undecodable e)
    | .ok e =>
      match e.violation? with
      | some v => .error (.service (.invalid v))
      | none =>
        match b.create (e.accepted fresh) with
        | .ok b => .ok (.created (e.accepted fresh).id, b)
        | .error (.alreadyExists id) => .ok (.duplicate id, b)
        | .error e => .error (.service (.store e))

end Agenda
