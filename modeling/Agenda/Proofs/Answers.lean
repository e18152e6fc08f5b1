import Agenda.Proofs.Intake

/-!
# What calls answer

A call is refused before it comes to the store, or it comes down to one change under one id. What it
answers then depends on the failures of the store and on the event under that id alone, and it leaves
every other id as it is.

* `Change.run_cases`, `Change.find?_after`: when a change succeeds, and the view after it.
* `Call.serve`: what a call answers, and the store after it. `Call.serve_cases` says all that it does.
* `Call.perform_eq_some_iff`: a call changes an event if the change that it comes down to succeeds.
* `Call.Named.serve_request`: a call that names an id has no use for the fresh one.
-/
namespace Agenda

variable {b b' : Backend} {s : Store} {ch : Change} {c : Call} {id : String} {e : Event}
  {fresh : String}

/-! ## Changes -/

namespace Change

/-- The change as an operation on a store in memory. -/
def onStore : Change → Store → Except StoreError Store
  | created e => Store.create e
  | updated e => Store.update e
  | deleted id => Store.delete id

def operation : Change → Operation
  | created e => .create e.id
  | updated e => .update e.id
  | deleted id => .delete id

/-- The change on a store that may fail. -/
def run (b : Backend) (ch : Change) : Except StoreError Backend := b.change ch.operation ch.onStore

/-- Why a store refuses the change, by what it finds under the id. -/
def conflict? : Change → Option Event → Option StoreError
  | created e, some _ => some (.alreadyExists e.id)
  | updated e, none => some (.notFound e.id)
  | deleted id, none => some (.notFound id)
  | _, _ => none

/-- Why the change does not succeed. -/
def failure? (b : Backend) (ch : Change) : Option StoreError :=
  (b.fault ch.operation).or (ch.conflict? (b.store.find? ch.id))

/-- The store after the change; one that fails leaves it as it is. -/
def after (b : Backend) (ch : Change) : Backend := (ch.run b).toOption.getD b

theorem onStore_cases (ch : Change) (s : Store) :
    (ch.conflict? (s.find? ch.id) = none ∧ ∃ s', ch.onStore s = .ok s') ∨
    ∃ err, ch.conflict? (s.find? ch.id) = some err ∧ ch.onStore s = .error err := by
  cases hf : s.find? ch.id with
  | none =>
    have hn : ¬ s.Holds ch.id := Store.find?_eq_none_iff.1 hf
    cases ch with
    | created e => exact .inl ⟨rfl, _, dif_neg hn⟩
    | updated e => exact .inr ⟨_, rfl, if_neg hn⟩
    | deleted id => exact .inr ⟨_, rfl, if_neg hn⟩
  | some f =>
    have hh : s.Holds ch.id := Store.holds_iff.2 ⟨f, hf⟩
    cases ch with
    | created e => exact .inr ⟨_, rfl, dif_pos hh⟩
    | updated e => exact .inl ⟨rfl, _, if_pos hh⟩
    | deleted id => exact .inl ⟨rfl, _, if_pos hh⟩

/-- **Changes.** A change succeeds unless there is a reason why not, and it fails for that reason. -/
theorem run_cases (b : Backend) (ch : Change) :
    (ch.failure? b = none ∧ ∃ b', ch.run b = .ok b') ∨
    ∃ err, ch.failure? b = some err ∧ ch.run b = .error err := by
  cases hf : b.fault ch.operation with
  | some err =>
    refine .inr ⟨err, by rw [failure?, hf]; rfl, ?_⟩
    rw [run, Backend.change, Backend.attempt, hf]
    rfl
  | none =>
    have hfail : ch.failure? b = ch.conflict? (b.store.find? ch.id) := by rw [failure?, hf]; rfl
    rw [hfail]
    obtain ⟨hn, s', hs⟩ | ⟨err, he, hs⟩ := ch.onStore_cases b.store
    · exact .inl ⟨hn, _, Backend.change_of_ok hf hs⟩
    · refine .inr ⟨err, he, ?_⟩
      rw [run, Backend.change, Backend.attempt, hf]
      simp [hs, Except.map]

theorem run_ok (h : ch.run b = .ok b') :
    b'.store.find? = Function.update b.store.find? ch.id ch.kept? ∧ b'.fault = b.fault := by
  cases ch with
  | created e => exact Backend.create_ok h
  | updated e => exact Backend.update_ok h
  | deleted id => exact Backend.delete_ok h

theorem run_eq_ok_iff : (∃ b', ch.run b = .ok b') ↔ ch.failure? b = none := by
  obtain ⟨hn, hok⟩ | ⟨err, hs, herr⟩ := ch.run_cases b
  · exact iff_of_true hok hn
  · simp [hs, herr]

theorem fault_after (b : Backend) (ch : Change) : (ch.after b).fault = b.fault := by
  obtain ⟨-, b', h⟩ | ⟨err, -, h⟩ := ch.run_cases b
  · rw [after, h]
    exact (run_ok h).2
  · rw [after, h]
    rfl

/-- The view after a change, whether it succeeds or not. -/
theorem find?_after (b : Backend) (ch : Change) (id : String) :
    (ch.after b).store.find? id =
      if id = ch.id ∧ ch.failure? b = none then ch.kept? else b.store.find? id := by
  obtain ⟨hn, b', h⟩ | ⟨err, hs, h⟩ := ch.run_cases b
  · rw [after, h]
    show b'.store.find? id = _
    rw [(run_ok h).1, Function.update_apply]
    simp [hn]
  · rw [after, h]
    simp [Except.toOption, hs]

end Change

/-! ## Answers -/

/-- What a call answers. -/
inductive Answer where
  /-- To a creation or an update: the event as it is kept. -/
  | event (r : Except ServiceError Event)
  | deletion (r : Except ServiceError Unit)
  | intake (r : Except IntakeError Intake)

/-- The answer with a result, and the store after it: what fails leaves the store as it is. -/
def Answer.settle (answer : Except ε α → Answer) (b : Backend) :
    Except ε (α × Backend) → Answer × Backend
  | .ok (a, b') => (answer (.ok a), b')
  | .error err => (answer (.error err), b)

/-- The answer to a creation or an update of an event, by why it fails. -/
def Answer.kept (e : Event) : Option StoreError → Answer
  | none => .event (.ok e)
  | some err => .event (.error (.store err))

/-- The answer to a deletion, by why it fails. -/
def Answer.removed : Option StoreError → Answer
  | none => .deletion (.ok ())
  | some err => .deletion (.error (.store err))

/-- The answer to a message whose event is to be created under an id, by why it is not. -/
def Answer.taken (id : String) : Option StoreError → Answer
  | none => .intake (.ok (.created id))
  | some (.alreadyExists id) => .intake (.ok (.duplicate id))
  | some err => .intake (.error (.service (.store err)))

theorem Answer.settle_kept_ok {r : Except StoreError Backend} (h : r = .ok b') :
    settle .event b ((Calendar.storing r).map (e, ·)) = (kept e none, b') := by
  rw [h]
  rfl

theorem Answer.settle_kept_error {r : Except StoreError Backend} {err : StoreError}
    (h : r = .error err) :
    settle .event b ((Calendar.storing r).map (e, ·)) = (kept e (some err), b) := by
  rw [h]
  rfl

namespace Call

open Answer (settle)

/-- Runs the call: what it answers, and the store after it. -/
def serve (b : Backend) : Call → Answer × Backend
  | create fresh e => settle .event b (Calendar.create fresh e b)
  | update e => settle .event b (Calendar.update e b)
  | delete id => settle .deletion b ((Calendar.delete id b).map ((), ·))
  | consume fresh payload => settle .intake b (Intake.consume fresh payload b)

/-- The change that the call comes down to, unless it is refused before. -/
def change? : Call → Option Change
  | create fresh e => if e.violation? = none then some (.created (e.accepted fresh)) else none
  | update e =>
    if e.id.isEmpty = false ∧ e.violation? = none then some (.updated e.rearmed) else none
  | delete id => some (.deleted id)
  | consume fresh payload => (Intake.event? payload).map fun e => .created (e.accepted fresh)

/-- Serving a call is a change if it is so when the change succeeds and when it fails. -/
theorem serve_of_run {answer : Option StoreError → Answer}
    (hok : ∀ b b', ch.run b = .ok b' → c.serve b = (answer none, b'))
    (herr : ∀ b err, ch.run b = .error err → c.serve b = (answer (some err), b)) (b : Backend) :
    c.serve b = (answer (ch.failure? b), ch.after b) := by
  obtain ⟨hn, b', h⟩ | ⟨err, hs, h⟩ := ch.run_cases b
  · rw [hok b b' h, hn, Change.after, h]
    rfl
  · rw [herr b err h, hs, Change.after, h]
    rfl

/-- **Calls.** A call answers the same on every store and leaves it as it is, or it comes down to one
change, and what it answers is determined by why that change fails, if it does. -/
theorem serve_cases (c : Call) :
    (c.change? = none ∧ ∃ a, ∀ b, c.serve b = (a, b)) ∨
    ∃ ch, c.change? = some ch ∧
      ∃ answer : Option StoreError → Answer, ∀ b, c.serve b = (answer (ch.failure? b), ch.after b) := by
  cases c with
  | create fresh e =>
    cases hv : e.violation? with
    | some v =>
      refine .inl ⟨by simp [change?, hv], .event (.error (.invalid v)), fun b => ?_⟩
      rw [serve, Calendar.create_eq_invalid.2 hv]
      rfl
    | none =>
      refine .inr ⟨.created (e.accepted fresh), if_pos hv, .kept (e.accepted fresh), serve_of_run ?_ ?_⟩
      · intro b b' h
        rw [serve, Calendar.create, hv]
        exact Answer.settle_kept_ok h
      · intro b err h
        rw [serve, Calendar.create, hv]
        exact Answer.settle_kept_error h
  | update e =>
    cases hi : e.id.isEmpty with
    | true =>
      refine .inl ⟨by simp [change?, hi], .event (.error .missingId), fun b => ?_⟩
      rw [serve, Calendar.update, if_pos hi]
      rfl
    | false =>
      cases hv : e.violation? with
      | some v =>
        refine .inl ⟨by simp [change?, hv], .event (.error (.invalid v)), fun b => ?_⟩
        rw [serve, Calendar.update_eq_invalid.2 ⟨hi, hv⟩]
        rfl
      | none =>
        refine .inr ⟨.updated e.rearmed, if_pos ⟨hi, hv⟩, .kept e.rearmed, serve_of_run ?_ ?_⟩
        · intro b b' h
          rw [serve, Calendar.update, if_neg (by simp [hi]), hv]
          exact Answer.settle_kept_ok h
        · intro b err h
          rw [serve, Calendar.update, if_neg (by simp [hi]), hv]
          exact Answer.settle_kept_error h
  | delete id =>
    refine .inr ⟨.deleted id, rfl, .removed, serve_of_run ?_ ?_⟩
    · intro b b' h
      rw [serve, Calendar.delete, show b.delete id = .ok b' from h]
      rfl
    · intro b err h
      rw [serve, Calendar.delete, show b.delete id = .error err from h]
      rfl
  | consume fresh payload =>
    cases he : Intake.event? payload with
    | none =>
      obtain ⟨err, hr⟩ := Intake.consume_refused he
      refine .inl ⟨by rw [change?, he]; rfl, .intake (.error err), fun b => ?_⟩
      rw [serve, hr]
      rfl
    | some e =>
      refine .inr ⟨.created (e.accepted fresh), by rw [change?, he]; rfl,
        .taken (e.accepted fresh).id, serve_of_run ?_ ?_⟩
      · intro b b' h
        rw [serve, Intake.consume_event he, show b.create (e.accepted fresh) = .ok b' from h]
        rfl
      · intro b err h
        rw [serve, Intake.consume_event he, show b.create (e.accepted fresh) = .error err from h]
        cases err <;> rfl

/-- A call changes an event exactly if the change that it comes down to succeeds. -/
theorem perform_eq_some_iff :
    c.perform b = some (ch, b') ↔ c.change? = some ch ∧ ch.run b = .ok b' := by
  cases c with
  | create fresh e =>
    constructor
    · intro h
      obtain ⟨hv, rfl, hr⟩ := create_perform h
      exact ⟨if_pos hv, hr⟩
    · rintro ⟨h, hr⟩
      obtain ⟨hv, h⟩ := Option.ite_none_right_eq_some.1 h
      cases h
      rw [perform, Calendar.create_eq_ok.2 ⟨hv, rfl, hr⟩]
      rfl
  | update e =>
    constructor
    · intro h
      obtain ⟨⟨f, b₁⟩, hf, hx⟩ := Option.map_eq_some_iff.1 h
      cases hx
      obtain ⟨hi, hv, rfl, hr⟩ := Calendar.update_eq_ok.1 (toOption_eq_some.1 hf)
      exact ⟨if_pos ⟨hi, hv⟩, hr⟩
    · rintro ⟨h, hr⟩
      obtain ⟨⟨hi, hv⟩, h⟩ := Option.ite_none_right_eq_some.1 h
      cases h
      rw [perform, Calendar.update_eq_ok.2 ⟨hi, hv, rfl, hr⟩]
      rfl
  | delete id =>
    constructor
    · intro h
      obtain ⟨rfl, hr⟩ := delete_perform h
      exact ⟨rfl, hr⟩
    · rintro ⟨h, hr⟩
      cases h
      rw [perform, Calendar.delete_eq_ok.2 hr]
      rfl
  | consume fresh payload =>
    constructor
    · intro h
      obtain ⟨bytes, e, rfl, hj, hv, rfl, hr⟩ := consume_perform h
      exact ⟨by rw [change?, Intake.event?_eq_some hj hv]; rfl, hr⟩
    · rintro ⟨h, hr⟩
      obtain ⟨e, he, h⟩ := Option.map_eq_some_iff.1 h
      cases h
      rw [perform, Intake.consume_event he, show b.create (e.accepted fresh) = .ok b' from hr]
      show (b'.store.find? (e.accepted fresh).id).map _ = _
      rw [(Backend.create_ok hr).1, Function.update_self]
      rfl

/-! ## Calls that name an id -/

/-- The call as it is made: the fresh id is generated later. -/
def request : Call → Call
  | create _ e => create "" e
  | consume _ payload => consume "" payload
  | c => c

/-- The id that the call names, unless it is refused before it comes to the store; empty if the call
leaves it to be generated. -/
def id? (c : Call) : Option String := c.request.change?.map Change.id

/-- The call names an id, or is refused before it comes to the store. -/
def Named (c : Call) : Prop := ∀ id ∈ c.id?, id ≠ ""

instance (c : Call) : Decidable c.Named := inferInstanceAs (Decidable (∀ _ ∈ _, _))

end Call

/-- **Fresh ids.** A call that names an id is served the same whatever the fresh id is. -/
theorem Call.Named.serve_request (h : c.Named) (b : Backend) : c.request.serve b = c.serve b := by
  cases c with
  | update e => rfl
  | delete id => rfl
  | create fresh e =>
    cases hv : e.violation? with
    | some v =>
      rw [request, serve, serve, Calendar.create_eq_invalid.2 hv, Calendar.create_eq_invalid.2 hv]
    | none =>
      have hch : (create fresh e).request.change? = some (.created (e.accepted "")) := if_pos hv
      have he := Event.accepted_of_named (h _ (by rw [id?, hch]; rfl)) fresh
      rw [request, serve, serve, Calendar.create, Calendar.create, he]
  | consume fresh payload =>
    cases hp : Intake.event? payload with
    | none =>
      obtain ⟨err, hr⟩ := Intake.consume_refused hp
      rw [request, serve, serve, hr, hr]
    | some e =>
      have hch : (consume fresh payload).request.change? = some (.created (e.accepted "")) := by
        rw [request, change?, hp]
        rfl
      have he := Event.accepted_of_named (h _ (by rw [id?, hch]; rfl)) fresh
      rw [request, serve, serve, Intake.consume_event hp, Intake.consume_event hp, he]

end Agenda
