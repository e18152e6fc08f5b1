import Agenda.Proofs.Calendar
import Agenda.Except

/-!
# Calls

A call changes one event: a client creates, updates or deletes it, or the intake takes in a message.
`Call.perform` runs the call on a store that may fail and says what has changed, if anything has.

* `Call.perform_cases`: a call that succeeds keeps a valid submission, its reminder pending, or
  removes an event; there is no other change.
* `Call.find?_perform`: the view of the store after a call that succeeds.
-/
namespace Agenda

/-- A call that changes one event. -/
inductive Call where
  | create (fresh : String) (e : Event)
  | update (e : Event)
  | delete (id : String)
  | consume (fresh : String) (payload : Option (List UInt8))

/-- What a call has changed; events are as they are kept. -/
inductive Change where
  | created (e : Event)
  | updated (e : Event)
  | deleted (id : String)
  deriving DecidableEq, Repr

namespace Change

/-- The event that is kept after the change. -/
def kept? : Change → Option Event
  | created e | updated e => some e
  | deleted _ => none

/-- The id that the change is about. -/
def id : Change → String
  | created e | updated e => e.id
  | deleted id => id

end Change

/-! ## Validity does not depend on ids -/

namespace Event

theorem violation?_withId (fresh : String) (e : Event) :
    (e.withId fresh).violation? = e.violation? := by
  unfold withId; split <;> rfl

end Event

namespace Call

/-- The event that the call submits, with its id. -/
def submission? : Call → Option Event
  | create fresh e => some (e.withId fresh)
  | update e => some e
  | delete _ => none
  | consume fresh payload =>
    payload.bind fun bytes => (Event.ofJson bytes).toOption.map (Event.withId fresh)

/-- Runs the call: what has changed, and the store after it. -/
def perform (b : Backend) : Call → Option (Change × Backend)
  | create fresh e => (Calendar.create fresh e b).toOption.map fun (e, b) => (.created e, b)
  | update e => (Calendar.update e b).toOption.map fun (e, b) => (.updated e, b)
  | delete id => (Calendar.delete id b).toOption.map fun b => (.deleted id, b)
  | consume fresh payload =>
    match Intake.consume fresh payload b with
    | .ok (.created id, b') => (b'.store.find? id).map fun e => (.created e, b')
    | _ => none

variable {b b' : Backend}

theorem create_perform {fresh : String} {e : Event} {ch : Change}
    (h : (create fresh e).perform b = some (ch, b')) :
    e.violation? = none ∧ ch = .created (e.accepted fresh) ∧
      b.create (e.accepted fresh) = .ok b' := by
  obtain ⟨⟨f, b₁⟩, hf, hx⟩ := Option.map_eq_some_iff.1 h
  cases hx
  obtain ⟨hv, rfl, hc⟩ := Calendar.create_eq_ok.1 (toOption_eq_some.1 hf)
  exact ⟨hv, rfl, hc⟩

theorem update_perform {e : Event} {ch : Change} (h : (update e).perform b = some (ch, b')) :
    e.violation? = none ∧ ch = .updated e.rearmed ∧ b.update e.rearmed = .ok b' := by
  obtain ⟨⟨f, b₁⟩, hf, hx⟩ := Option.map_eq_some_iff.1 h
  cases hx
  obtain ⟨-, hv, rfl, hc⟩ := Calendar.update_eq_ok.1 (toOption_eq_some.1 hf)
  exact ⟨hv, rfl, hc⟩

theorem delete_perform {id : String} {ch : Change} (h : (delete id).perform b = some (ch, b')) :
    ch = .deleted id ∧ b.delete id = .ok b' := by
  obtain ⟨b₁, hf, hx⟩ := Option.map_eq_some_iff.1 h
  cases hx
  exact ⟨rfl, Calendar.delete_eq_ok.1 (toOption_eq_some.1 hf)⟩

theorem consume_perform {fresh : String} {payload : Option (List UInt8)} {ch : Change}
    (h : (consume fresh payload).perform b = some (ch, b')) :
    ∃ bytes e, payload = some bytes ∧ Event.ofJson bytes = .ok e ∧ e.violation? = none ∧
      ch = .created (e.accepted fresh) ∧ b.create (e.accepted fresh) = .ok b' := by
  simp only [perform] at h
  split at h
  · rename_i id b₁ hi
    obtain ⟨bytes, e, hp, hd, hv, rfl, hc⟩ := Intake.consume_eq_created hi
    rw [(Backend.create_ok hc).1, Function.update_self] at h
    cases h
    exact ⟨bytes, e, hp, hd, hv, rfl, hc⟩
  · cases h

/-- **What a call changes.** A valid submission is created or replaces the event with its id, or an
event is removed. -/
theorem perform_cases {c : Call} {ch : Change} (h : c.perform b = some (ch, b')) :
    (∃ e, c.submission? = some e ∧ e.violation? = none ∧ ch = .created e.rearmed ∧
      b.create e.rearmed = .ok b') ∨
    (∃ e, c.submission? = some e ∧ e.violation? = none ∧ ch = .updated e.rearmed ∧
      b.update e.rearmed = .ok b') ∨
    (∃ id, ch = .deleted id ∧ b.delete id = .ok b') := by
  cases c with
  | create fresh e =>
    obtain ⟨hv, hch, hc⟩ := create_perform h
    exact .inl ⟨e.withId fresh, rfl, by rw [Event.violation?_withId, hv], hch, hc⟩
  | update e =>
    obtain ⟨hv, hch, hc⟩ := update_perform h
    exact .inr (.inl ⟨e, rfl, hv, hch, hc⟩)
  | delete id =>
    obtain ⟨hch, hc⟩ := delete_perform h
    exact .inr (.inr ⟨id, hch, hc⟩)
  | consume fresh payload =>
    obtain ⟨bytes, e, rfl, hd, hv, hch, hc⟩ := consume_perform h
    refine .inl ⟨e.withId fresh, ?_, by rw [Event.violation?_withId, hv], hch, hc⟩
    simp [submission?, hd, Except.toOption]

/-- A call sets the view at one id. -/
theorem find?_perform {c : Call} {ch : Change} (h : c.perform b = some (ch, b')) :
    b'.store.find? = Function.update b.store.find? ch.id ch.kept? ∧ b'.fault = b.fault := by
  obtain ⟨e, -, -, rfl, hc⟩ | ⟨e, -, -, rfl, hc⟩ | ⟨id, rfl, hc⟩ := perform_cases h
  · exact Backend.create_ok hc
  · exact Backend.update_ok hc
  · exact Backend.delete_ok hc

/-- What a call keeps has its reminder pending. -/
theorem not_sent_perform {c : Call} {ch : Change} {e : Event} (h : c.perform b = some (ch, b'))
    (he : ch.kept? = some e) : e.isSent = false := by
  obtain ⟨e', -, -, rfl, -⟩ | ⟨e', -, -, rfl, -⟩ | ⟨id, rfl, -⟩ := perform_cases h
  · cases he; rfl
  · cases he; rfl
  · cases he

end Call

end Agenda
