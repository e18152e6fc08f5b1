import Agenda.Event.Basic

/-!
# Valid events

An event needs an owner and a title of at most 256 characters, a duration and a start. The other
fields may be anything. Every field is checked on its own; of the checks that fail, one is reported, and
it is found by the name of its field.

* `Event.fieldErrors`: the checks that an event fails.
* `Event.violation?`: the first rule that an event violates, in the order owner, title, duration,
  start.
-/
namespace Agenda

/-- A rule that is violated: the field that it is about, and what is wrong with it. -/
structure Violation where
  field : String
  reason : String
  deriving DecidableEq, Repr

/-- The most characters an owner or a title may have (`MAX_FIELD_LENGTH`). -/
def maxFieldLength : Nat := 256

/-- The field is not given. -/
def Violation.missing (field : String) : Violation := ⟨field, field ++ " is required"⟩

/-- The field has too many characters. -/
def Violation.tooLong (field : String) : Violation :=
  ⟨field, s!"{field} length can't be greater than {maxFieldLength}"⟩

/-- What is reported of a text that is not as long as it has to be (`length_error`). -/
def Violation.ofLength (field value : String) : Violation :=
  if value.isEmpty then .missing field else .tooLong field

/-! ## Checks -/

/-- A check that has failed: the name of the field, and the code of the check. -/
structure FieldError where
  field : String
  code : String
  deriving DecidableEq, Repr

/-- The error as a line of text. -/
def FieldError.text (err : FieldError) : String := s!"{err.field}: Validation error: {err.code}"

/-- The error of a text that has not between 1 and `maxFieldLength` characters. -/
def lengthErrors (field value : String) : List FieldError :=
  if 1 ≤ value.length ∧ value.length ≤ maxFieldLength then [] else [⟨field, "length"⟩]

/-- The error of a value that is missing (`validate_start_date`, `validate_duration`). -/
def requiredErrors (field : String) (missing : Bool) : List FieldError :=
  if missing then [⟨field, "required"⟩] else []

namespace Event

/-- The checks that the event fails, in the order of its fields (`Event.validate`). -/
def fieldErrors (e : Event) : List FieldError :=
  lengthErrors "title" e.title ++ requiredErrors "start_date" (e.startDate = zeroDate) ++
    requiredErrors "duration" (e.duration = .zero) ++ lengthErrors "owner" e.owner

/-- A check of the field fails. -/
def fails (e : Event) (field : String) : Bool := e.fieldErrors.any fun err => err.field = field

/-- The violation that is reported. If checks of other fields than the known ones failed, all errors
would be reported together, as `describe` puts them. -/
def violationBy? (describe : List FieldError → String) (e : Event) : Option Violation :=
  if e.fieldErrors.isEmpty then none
  else if e.fails "owner" then some (.ofLength "owner" e.owner)
  else if e.fails "title" then some (.ofLength "title" e.title)
  else if e.fails "duration" then some (.missing "duration")
  else if e.fails "start_date" then some (.missing "startDate")
  else some ⟨"event", describe e.fieldErrors⟩

/-- The first rule that the event violates (`validate_event`). -/
def violation? (e : Event) : Option Violation :=
  e.violationBy? fun errors => String.intercalate "\n" (errors.map FieldError.text)

end Event

end Agenda
