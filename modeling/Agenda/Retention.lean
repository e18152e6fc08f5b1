import Agenda.Store.Backend

/-!
# Retention

Events are kept for a calendar year after their start. A purge lists the events and deletes the
expired ones, one after the other; an event that cannot be deleted is left to the next purge.
-/
namespace Agenda.Retention

/-- Events that start before this instant are expired. -/
def threshold (now : Instant) : Instant := (now.addMonths? (-12)).getD .first

/-- The events of a listing that are expired. -/
def expired (now : Instant) (es : List Event) : List Event :=
  es.filter fun e => e.startDate < threshold now

/-- Deletes one event, and counts it if that succeeds. -/
def remove (purged : Nat × Backend) (e : Event) : Nat × Backend :=
  match purged.2.delete e.id with
  | .ok b => (purged.1 + 1, b)
  | .error _ => purged

/-- Deletes the expired events: how many were deleted (`purge_expired`). -/
def purge (now : Instant) (b : Backend) : Except StoreError (Nat × Backend) :=
  b.list.map fun es => (expired now es).foldl remove (0, b)

end Agenda.Retention
