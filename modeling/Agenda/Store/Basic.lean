import Agenda.Failure

/-!
# The store in memory

A list of events, each with its own id. The list has no order that callers may rely on.

* `Store.create`, `Store.update`, `Store.delete`: one event, under its id.
* `Store.period`: the events of an owner that start in a span of time.
-/
namespace Agenda

/-- Events with distinct ids (`MemoryEventStore`). -/
structure Store where
  events : List Event
  distinct : (events.map Event.id).Nodup

namespace Store

/-- The store without events. -/
def empty : Store := ⟨[], List.nodup_nil⟩

/-- The event stored under an id. -/
def find? (s : Store) (id : String) : Option Event := s.events.find? fun e => e.id = id

/-- An event is stored under the id. -/
def Holds (s : Store) (id : String) : Prop := id ∈ s.events.map Event.id

instance (s : Store) (id : String) : Decidable (s.Holds id) :=
  inferInstanceAs (Decidable (_ ∈ _))

/-! ## Changes -/

/-- Adds an event whose id is not in use (`create_event`). -/
def create (e : Event) (s : Store) : Except StoreError Store :=
  if h : s.Holds e.id then .error (.alreadyExists e.id)
  else .ok ⟨e :: s.events, List.nodup_cons.2 ⟨h, s.distinct⟩⟩

/-- The events with `e` in the place of the one with its id. -/
def replaced (e : Event) (es : List Event) : List Event :=
  es.map fun x => if x.id = e.id then e else x

theorem map_id_replaced (e : Event) (es : List Event) :
    (replaced e es).map Event.id = es.map Event.id := by
  simp only [replaced, List.map_map, List.map_inj_left, Function.comp_apply]
  intro x _
  split <;> simp_all

/-- Replaces the event with the same id (`update_event`). -/
def update (e : Event) (s : Store) : Except StoreError Store :=
  if s.Holds e.id then .ok ⟨replaced e s.events, by rw [map_id_replaced]; exact s.distinct⟩
  else .error (.notFound e.id)

/-- Removes the event with an id (`delete_event`). -/
def delete (id : String) (s : Store) : Except StoreError Store :=
  if s.Holds id then
    .ok ⟨s.events.filter fun e => e.id ≠ id,
      s.distinct.sublist (List.filter_sublist.map Event.id)⟩
  else .error (.notFound id)

/-! ## Queries -/

/-- The events of an owner that start at `start` or later and before `stop`
(`get_events_by_period`). -/
def period (owner : String) (start stop : Instant) (s : Store) : List Event :=
  s.events.filter fun e => e.owner = owner ∧ start ≤ e.startDate ∧ e.startDate < stop

end Store

end Agenda
