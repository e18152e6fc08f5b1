import Agenda.Failure

/-!
# A store of rows in a database

Each operation is one statement; `rows` is what the database answers to it. A change reports how many
rows it has touched: none, if the id was in use or was not there. A duration is kept as 64 bits of
nanoseconds, so an event whose duration does not fit fails before the database is asked.
-/
namespace Agenda.Relational

/-- The duration of an event as it is kept (`stored_duration`). -/
def storedNanos (e : Event) : Except StoreError Int64 :=
  match e.duration.toNanos? with
  | some n => .ok n
  | none =>
    .error (.database (.encoding
      s!"duration of event {e.id} does not fit into BIGINT nanoseconds"))

/-- A statement that has to touch a row. -/
def touching (untouched : StoreError) (rows : Except DatabaseError Nat) : Except StoreError Unit :=
  match rows with
  | .error cause => .error (.database cause)
  | .ok 0 => .error untouched
  | .ok _ => .ok ()

/-- Adds an event (`PgEventStore.create_event`). -/
def create (e : Event) (rows : Except DatabaseError Nat) : Except StoreError Unit := do
  let _ ← storedNanos e
  touching (.alreadyExists e.id) rows

/-- Replaces an event (`PgEventStore.update_event`). -/
def update (e : Event) (rows : Except DatabaseError Nat) : Except StoreError Unit := do
  let _ ← storedNanos e
  touching (.notFound e.id) rows

/-- Removes an event (`PgEventStore.delete_event`). -/
def delete (id : String) (rows : Except DatabaseError Nat) : Except StoreError Unit :=
  touching (.notFound id) rows

/-- A query of events (`PgEventStore.get_events_by_period`, `PgEventStore.get_events`). -/
def query (rows : Except DatabaseError (List Event)) : Except StoreError (List Event) :=
  rows.mapError .database

end Agenda.Relational
