import Agenda.Proofs.Call

/-!
# What the intake does

A message either holds a valid event or is refused, and this is decided by its payload alone. An event
that has an id is created under it unless one with that id is stored, which is then left as it is.

* `Intake.event?`: the valid event that a message holds.
* `Intake.consume_refused`, `Intake.consume_event`: what the intake does with either kind of message.
* `Intake.consume_held`, `Intake.consume_new`: the outcome for an event with an id.
-/
namespace Agenda

variable {e : Event} {payload : Option (List UInt8)} {st : Store}

/-! ## Ids -/

theorem Event.withId_of_ne (h : e.id ≠ "") (fresh : String) : e.withId fresh = e :=
  if_neg (by simpa using h)

/-- An event that has an id is kept under it. -/
theorem Event.accepted_of_ne (h : e.id ≠ "") (fresh : String) : e.accepted fresh = e.rearmed := by
  rw [accepted, withId_of_ne h]

/-- An event that has an id without a fresh one is kept the same with any. -/
theorem Event.accepted_of_named (h : (e.accepted "").id ≠ "") (fresh : String) :
    e.accepted fresh = e.accepted "" := by
  have hid : e.id ≠ "" := by
    intro he
    refine h ?_
    show (e.withId "").id = ""
    rw [withId, if_pos (by simp [he])]
  rw [accepted_of_ne hid, accepted_of_ne hid]

/-! ## Messages -/

namespace Intake

/-- The valid event that a message holds. -/
def event? (payload : Option (List UInt8)) : Option Event :=
  (payload.bind fun bytes => (Event.ofJson bytes).toOption).filter fun e => e.violation? = none

theorem event?_eq_some {bytes : List UInt8} (hj : Event.ofJson bytes = .ok e)
    (hv : e.violation? = none) : event? (some bytes) = some e := by
  simp [event?, hj, hv, Except.toOption]

/-- A message without a valid event is refused, whatever the store and the fresh id are. -/
theorem consume_refused (h : event? payload = none) :
    ∃ err, ∀ fresh b, consume fresh payload b = .error err := by
  unfold consume
  split
  · exact ⟨_, fun _ _ => rfl⟩
  · exact ⟨_, fun _ _ => rfl⟩
  · rename_i bytes _
    cases hj : Event.ofJson bytes with
    | error err => exact ⟨_, fun _ _ => rfl⟩
    | ok e =>
      cases hv : e.violation? with
      | some v => exact ⟨.service (.invalid v), fun _ _ => by simp only [hv]⟩
      | none =>
        rw [event?_eq_some hj hv] at h
        cases h

/-- A valid event is created. -/
theorem consume_event (h : event? payload = some e) (fresh : String) (b : Backend) :
    consume fresh payload b =
      match b.create (e.accepted fresh) with
      | .ok b => .ok (.created (e.accepted fresh).id, b)
      | .error (.alreadyExists id) => .ok (.duplicate id, b)
      | .error err => .error (.service (.store err)) := by
  obtain ⟨h, hvalid⟩ := Option.filter_eq_some_iff.1 h
  obtain ⟨bytes, rfl, hd⟩ := Option.bind_eq_some_iff.1 h
  have hv : e.violation? = none := by simpa using hvalid
  have hj : Event.ofJson bytes = .ok e := toOption_eq_some.1 hd
  unfold consume
  split
  · rename_i hb
    cases hb
  · rename_i hb
    cases hb
    cases hj
  · rename_i bytes' _ hb
    cases hb
    cases hc : b.create (e.accepted fresh) with
    | ok b' => simp only [hj, hv, hc]
    | error err => cases err <;> simp only [hj, hv, hc]

/-- A message whose id is stored is a duplicate, and changes nothing. -/
theorem consume_held (he : event? payload = some e) (hid : e.id ≠ "") (hh : st.Holds e.id)
    (fresh : String) :
    consume fresh payload (.reliable st) = .ok (.duplicate e.id, .reliable st) := by
  have hc : (Backend.reliable st).create e.rearmed = .error (.alreadyExists e.id) := by
    show Except.map _ (Store.create e.rearmed st) = _
    rw [show Store.create e.rearmed st = .error (.alreadyExists e.id) from dif_pos hh]
    rfl
  rw [consume_event he, Event.accepted_of_ne hid, hc]

/-- The event of a message whose id is not stored is added as it is kept. -/
theorem consume_new (he : event? payload = some e) (hid : e.id ≠ "") (hn : ¬ st.Holds e.id) :
    ∃ st' : Store, st'.events = e.rearmed :: st.events ∧
      ∀ fresh, consume fresh payload (.reliable st) = .ok (.created e.id, .reliable st') := by
  refine ⟨⟨e.rearmed :: st.events, List.nodup_cons.2 ⟨hn, st.distinct⟩⟩, rfl, fun fresh => ?_⟩
  have hc : (Backend.reliable st).create e.rearmed =
      .ok (.reliable ⟨e.rearmed :: st.events, List.nodup_cons.2 ⟨hn, st.distinct⟩⟩) :=
    Backend.change_of_ok rfl (dif_neg hn)
  rw [consume_event he, Event.accepted_of_ne hid, hc]
  rfl

end Intake

end Agenda
