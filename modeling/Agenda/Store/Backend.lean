import Agenda.Store.Basic

/-!
# Stores that may fail

A store behind a connection: any operation on it may fail before it does anything.
-/
namespace Agenda

/-- An operation on a store (`EventStore`), with the id or the owner that it is about. -/
inductive Operation where
  | create (id : String)
  | update (id : String)
  | delete (id : String)
  | period (owner : String)
  | list
  deriving DecidableEq, Repr

/-- A store, and the failures of operations on it. -/
structure Backend where
  store : Store
  fault : Operation → Option StoreError

namespace Backend

/-- A store that never fails. -/
def reliable (s : Store) : Backend := ⟨s, fun _ => none⟩

/-- Runs an operation unless it fails. -/
def attempt (b : Backend) (op : Operation) (run : Store → Except StoreError α) :
    Except StoreError α :=
  match b.fault op with
  | some e => .error e
  | none => run b.store

/-- Changes the store unless the operation fails. -/
def change (b : Backend) (op : Operation) (run : Store → Except StoreError Store) :
    Except StoreError Backend :=
  (b.attempt op run).map fun s => { b with store := s }

/-- Adds an event (`create_event`). -/
def create (e : Event) (b : Backend) : Except StoreError Backend :=
  b.change (.create e.id) (Store.create e)

/-- Replaces an event (`update_event`). -/
def update (e : Event) (b : Backend) : Except StoreError Backend :=
  b.change (.update e.id) (Store.update e)

/-- Removes an event (`delete_event`). -/
def delete (id : String) (b : Backend) : Except StoreError Backend :=
  b.change (.delete id) (Store.delete id)

/-- The events of an owner in a span of time (`get_events_by_period`). -/
def period (owner : String) (start stop : Instant) (b : Backend) :
    Except StoreError (List Event) :=
  b.attempt (.period owner) fun s => .ok (s.period owner start stop)

/-- All events (`get_events`). -/
def list (b : Backend) : Except StoreError (List Event) :=
  b.attempt .list fun s => .ok s.events

end Backend

end Agenda
