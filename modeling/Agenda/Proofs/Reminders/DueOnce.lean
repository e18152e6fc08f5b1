import Agenda.Proofs.Reminders

/-!
# Every due event once

A dispatch may fail at each event in two ways: its message is not taken, or the store does not mark it.
Neither keeps the dispatch from the events that follow, and because ids are distinct neither touches
another event. So it does not matter in which order the events are listed.

* `Succeeds`: an event that a dispatch marks, by what it is and what fails for it alone.
* `handle_handlesDue`: what a dispatch does with a listing.
* `dispatch_handles_due`: the same for a dispatch that lists the events itself, or cannot list them.
-/
namespace Agenda.Reminders

variable {accepts : Event → Bool} {now : Instant} {b : Backend} {e : Event} {listing : List Event}

/-- The event is due and delivered, and the store does not fail to mark it. -/
def Succeeds (accepts : Event → Bool) (now : Instant) (b : Backend) (e : Event) : Prop :=
  e.IsDue now ∧ Delivers accepts e ∧ b.fault (.update e.id) = none

instance (accepts : Event → Bool) (now : Instant) (b : Backend) (e : Event) :
    Decidable (Succeeds accepts now b e) :=
  inferInstanceAs (Decidable (_ ∧ _ ∧ _))

/-- For an event that is stored, only failures are left that keep it from being marked. -/
theorem succeeds_iff (he : e ∈ b.store.events) :
    Succeeds accepts now b e ↔ e.IsDue now ∧ Marks accepts b e := by
  have hh : b.store.Holds e.id := List.mem_map_of_mem he
  simp only [Succeeds, Marks, hh, and_true]

/-- What is stored after a dispatch in the place of an event. -/
def outcome (accepts : Event → Bool) (now : Instant) (b : Backend) (e : Event) : Event :=
  if Succeeds accepts now b e then { e with isSent := true } else e

theorem outcome_id (accepts : Event → Bool) (now : Instant) (b : Backend) (e : Event) :
    (outcome accepts now b e).id = e.id := by
  unfold outcome
  split <;> rfl

/-- A dispatch has tried to publish these events, one after the other: exactly those that are due, each
once and as it is stored. It has marked those for which this succeeds, and counted them. -/
structure HandlesDue (accepts : Event → Bool) (now : Instant) (b : Backend) (attempts : List Event)
    (d : Dispatch) : Prop where
  steps : d = attempts.foldl (Dispatch.step accepts) ⟨b, 0, []⟩
  due : ∀ e, e ∈ attempts ↔
    e ∈ b.store.events ∧ e.isSent = false ∧ ∃ t ∈ e.remindTime?, t ≤ now
  once : (attempts.map Event.id).Nodup
  messages : d.messages.reverse = attempts.filterMap fun e =>
    e.toJson?.map fun payload => { id := e.id, payload, taken := accepts e }
  stored : d.backend.store.events.Perm (b.store.events.map (outcome accepts now b))
  marked : d.marked = b.store.events.countP fun e => Succeeds accepts now b e

theorem handle_stored (hp : listing.Perm b.store.events) :
    (handle accepts now b listing).backend.store.events.Perm
      (b.store.events.map (outcome accepts now b)) := by
  refine Store.perm_map_of_find? (outcome_id accepts now b) fun id => ?_
  rw [handle_find? hp]
  refine Option.map_congr fun e he => ?_
  rw [outcome]
  simp only [succeeds_iff (Store.mem_of_find? he)]

theorem handle_marked (hp : listing.Perm b.store.events) :
    (handle accepts now b listing).marked =
      b.store.events.countP fun e => Succeeds accepts now b e := by
  rw [handle, foldl_marked, Nat.zero_add, dueEvents, List.countP_filter, hp.countP_eq]
  refine List.countP_congr fun e he => ?_
  simp only [succeeds_iff he, Bool.and_eq_true, decide_eq_true_eq]
  exact and_comm

theorem handle_handlesDue (hp : listing.Perm b.store.events) :
    HandlesDue accepts now b (dueEvents now listing) (handle accepts now b listing) where
  steps := rfl
  due _ := mem_dueEvents hp
  once := nodup_dueEvents hp now
  messages := handle_messages accepts now b listing
  stored := handle_stored hp
  marked := handle_marked hp

/-- **Dispatches.** A dispatch that cannot list the events fails, and does nothing. Any other handles
every due event exactly once, in whatever order the events are listed, and whichever messages are not
taken and marks fail; it marks the events for which both succeed, and changes nothing else. -/
theorem dispatch_handles_due (accepts : Event → Bool) (now : Instant) (b : Backend) :
    (∀ err, b.fault .list = some err → dispatch accepts now b = .error err) ∧
    (b.fault .list = none →
      dispatch accepts now b = .ok (handle accepts now b b.store.events)) ∧
    ∀ listing, listing.Perm b.store.events →
      ∃ attempts, HandlesDue accepts now b attempts (handle accepts now b listing) := by
  refine ⟨fun err hf => ?_, dispatch_of_no_fault accepts now, fun listing hp =>
    ⟨_, handle_handlesDue hp⟩⟩
  rw [dispatch, Backend.list_of_fault hf]
  rfl

/-- Both visits are due; the old one cannot be marked. -/
def stuckVisits : Backend where
  store := ⟨[visit, oldVisit], by decide⟩
  fault op := if op = .update "old" then some (.notFound "old") else none

theorem dispatch_handles_due_stuck :
    dispatch (fun _ => true) visit.startDate stuckVisits =
      .ok (handle (fun _ => true) visit.startDate stuckVisits [visit, oldVisit]) ∧
    (handle (fun _ => true) visit.startDate stuckVisits [oldVisit, visit]).marked = 1 ∧
    (handle (fun _ => true) visit.startDate stuckVisits [oldVisit, visit]).backend.store.events.Perm
      [{ visit with isSent := true }, oldVisit] := by
  obtain ⟨-, hok, hlisted⟩ := dispatch_handles_due (fun _ => true) visit.startDate stuckVisits
  obtain ⟨attempts, h⟩ := hlisted [oldVisit, visit] (.swap visit oldVisit [])
  have hold : ¬ Succeeds (fun _ => true) visit.startDate stuckVisits oldVisit :=
    fun hs => absurd hs.2.2 (by decide)
  have hvisit : Succeeds (fun _ => true) visit.startDate stuckVisits visit := by decide
  have hevents : stuckVisits.store.events = [visit, oldVisit] := rfl
  refine ⟨hok rfl, ?_, ?_⟩
  · rw [h.marked, hevents]
    simp [hold, hvisit]
  · have hs := h.stored
    rw [hevents] at hs
    simpa [outcome, hold, hvisit] using hs

end Agenda.Reminders
