import Agenda.Failure

/-!
# HTTP responses
-/
namespace Agenda.Http

/-- The parts of a response that the service sets. -/
structure Response where
  status : Nat
  contentType : Option String
  /-- The methods that are allowed, where the one of the request is not. -/
  allow : Option String
  body : List Char
  deriving DecidableEq, Repr

namespace Response

def plainText : String := "text/plain; charset=utf-8"

/-- A text. -/
def text (status : Nat) (body : String) : Response := ⟨status, some plainText, none, body.toList⟩

/-- JSON that is written already. -/
def json (body : List Char) : Response := ⟨200, some "application/json", none, body⟩

/-- A status without a body. -/
def empty (status : Nat) (allow : Option String) : Response := ⟨status, none, allow, []⟩

/-- The text of a failure (`AppError.into_response`). -/
def ofError (e : ServiceError) : Response := text e.status e.message

end Response

end Agenda.Http
