import Agenda.Event.Validation
import Agenda.Json.Error

/-!
# Failures

What can go wrong, layer by layer: in the store, in the service over it, in the delivery of a
reminder and in the intake of a message. Every failure has a text; those that a client of the
service sees have an HTTP status too.
-/
namespace Agenda

/-- Why a database does not answer. -/
inductive DatabaseError where
  | poolTimedOut
  | poolClosed
  | rowNotFound
  | workerCrashed
  /-- The database sent what it may not send. -/
  | protocol (detail : String)
  /-- A value cannot be sent to the database. -/
  | encoding (detail : String)
  deriving DecidableEq, Repr

def DatabaseError.message : DatabaseError → String
  | poolTimedOut => "pool timed out while waiting for an open connection"
  | poolClosed => "attempted to acquire a connection on a closed pool"
  | rowNotFound => "no rows returned by a query that expected to return at least one row"
  | workerCrashed => "attempted to communicate with a crashed background worker"
  | protocol detail => "encountered unexpected or invalid data: " ++ detail
  | encoding detail => "error occurred while encoding a value: " ++ detail

/-- A failure of the store (`StorageError`). -/
inductive StoreError where
  | alreadyExists (id : String)
  | notFound (id : String)
  | database (cause : DatabaseError)
  deriving DecidableEq, Repr

def StoreError.message : StoreError → String
  | alreadyExists id => s!"event with id {id} already exists"
  | notFound id => s!"event with id {id} does not exist"
  | database cause => "database error: " ++ cause.message

/-- A failure of the service (`AppError`). -/
inductive ServiceError where
  | invalid (violation : Violation)
  | missingId
  | store (e : StoreError)
  deriving DecidableEq, Repr

namespace ServiceError

def message : ServiceError → String
  | invalid v => v.reason
  | missingId => "id is required"
  | store e => e.message

/-- The HTTP status of the failure (`AppError.status_code`). -/
def status : ServiceError → Nat
  | invalid _ | missingId => 400
  | store (.notFound _) => 404
  | store (.alreadyExists _) => 409
  | store (.database _) => 500

end ServiceError

/-- Why a reminder has not been delivered (`PublishError`). -/
inductive DeliveryError where
  /-- The event cannot be written as JSON. -/
  | unwritable (id reason : String)
  /-- The broker did not take the message. -/
  | refused (id topic reason : String)
  deriving DecidableEq, Repr

def DeliveryError.message : DeliveryError → String
  | unwritable id reason => s!"failed to serialize event {id}: {reason}"
  | refused id topic reason => s!"failed to publish event {id} to {topic}: {reason}"

/-- Why a message has not been taken in (`ConsumeError`). -/
inductive IntakeError where
  | noPayload
  /-- The payload is no event. -/
  | undecodable (e : Json.ReadError)
  | service (e : ServiceError)
  deriving DecidableEq, Repr

def IntakeError.message : IntakeError → String
  | noPayload => "message has no payload"
  | undecodable e => "failed to decode event: " ++ e.message
  | service e => e.message

end Agenda
