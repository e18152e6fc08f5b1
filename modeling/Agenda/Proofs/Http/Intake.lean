import Agenda.Proofs.Event.Validation
import Agenda.Proofs.Http.Router

/-!
# Requests and messages

A request to create an event and a message with the same bytes are handled by two separate functions.
They decode, check and store in the same order, so they leave the same store, and what the client is
told says what has become of the message.

* `Router.Taken`: the response and the outcome, side by side.
* `ReadError.message_ne_reason`: a text about JSON is told from one about an invalid event by its end.
* `Router.create_agrees_with_intake`: each outcome corresponds to one kind of response.
-/
namespace Agenda

variable {b b' : Backend} {e : Event} {fresh : String} {v : Violation}

/-! ## Texts -/

/-- The rules that an event can violate. -/
def violations : List Violation :=
  [.missing "owner", .tooLong "owner", .missing "title", .tooLong "title", .missing "duration",
    .missing "startDate"]

theorem mem_violations (h : e.violation? = some v) : v ∈ violations := by
  have length (field value : String) :
      Violation.ofLength field value = .missing field ∨
        Violation.ofLength field value = .tooLong field := by
    unfold Violation.ofLength
    split
    · exact .inl rfl
    · exact .inr rfl
  obtain ⟨r, -, rfl⟩ := Event.violation?_eq_some_iff.1 h
  simp only [violations, List.mem_cons, List.not_mem_nil, or_false]
  cases r with
  | owner => rcases length "owner" e.owner with hr | hr <;> simp [Rule.report, hr]
  | title => rcases length "title" e.title with hr | hr <;> simp [Rule.report, hr]
  | duration => simp [Rule.report]
  | start => simp [Rule.report]

/-- The three characters before the digits at the end of a text, from the end. -/
def beforeDigits (s : String) : List Char :=
  (s.toList.reverse.dropWhile Char.isDigit).take 3

namespace Json.ReadError

/-- A text about JSON ends with a column. -/
theorem beforeDigits_message (err : ReadError) : beforeDigits err.message = [' ', 'n', 'm'] := by
  have hm : err.message.toList =
      (err.cause.message ++ " at line " ++ toString err.line).toList ++ " column ".toList ++
        Decimal.digits err.column := by
    simp [ReadError.message, Decimal.digits, toString]
  have hd : ∀ c ∈ (Decimal.digits err.column).reverse, c.isDigit := fun c hc =>
    Decimal.isDigit_of_mem_digits (List.mem_reverse.1 hc)
  have hcolumn : " column ".toList.reverse = [' ', 'n', 'm', 'u', 'l', 'o', 'c', ' '] := by decide
  rw [beforeDigits, hm, List.reverse_append, List.reverse_append, hcolumn,
    List.dropWhile_append_of_pos hd]
  rfl

theorem message_ne_reason (err : ReadError) (h : v ∈ violations) : err.message ≠ v.reason := by
  intro he
  have hv : ∀ v ∈ violations, beforeDigits v.reason ≠ [' ', 'n', 'm'] := by decide
  exact hv v h (he ▸ err.beforeDigits_message)

end Json.ReadError

/-- A creation fails because the store fails, or because the id is in use. -/
theorem Backend.create_error {err : StoreError} (h : b.create e = .error err) :
    b.fault (.create e.id) = some err ∨ err = .alreadyExists e.id := by
  simp only [create, change, attempt] at h
  cases hf : b.fault (.create e.id) with
  | some err' =>
    rw [hf] at h
    cases h
    exact .inl rfl
  | none =>
    simp only [hf, Store.create] at h
    split at h
    · cases h
      exact .inr rfl
    · cases h

namespace Http

open Json Text.Utf8

variable {r : Response} {req : Request} {now : Instant} {body : List UInt8}

theorem text_inj {s s' : Nat} {t t' : String} :
    Response.text s t = Response.text s' t' ↔ s = s' ∧ t = t' := by
  simp [Response.text, String.toList_inj]

namespace Router

/-! ## Side by side -/

/-- The response to a request, the store after it, and what becomes of a message with the same
bytes. -/
inductive Taken (b : Backend) :
    Response → Backend → Except IntakeError (Intake × Backend) → Prop where
  | undecodable (err : ReadError) :
    Taken b (.text 400 err.message) b (.error (.undecodable err))
  | invalid (v : Violation) (h : v ∈ violations) :
    Taken b (.text 400 v.reason) b (.error (.service (.invalid v)))
  | created (e : Event) (b' : Backend) (h : ∃ cs, e.toJson? = some cs) :
    Taken b (eventResponse e) b' (.ok (.created e.id, b'))
  | duplicate (id : String) :
    Taken b (.text 409 (StoreError.alreadyExists id).message) b (.ok (.duplicate id, b))
  | missing (id : String) (h : ∃ op, b.fault op = some (.notFound id)) :
    Taken b (.text 404 (StoreError.notFound id).message) b
      (.error (.service (.store (.notFound id))))
  | failed (c : DatabaseError) :
    Taken b (.text 500 (StoreError.database c).message) b
      (.error (.service (.store (.database c))))

theorem taken (fresh : String) (b : Backend) (hb : body ≠ []) :
    Taken b (respond b (createEvent fresh body b)).1 (respond b (createEvent fresh body b)).2
      (Intake.consume fresh (some body) b) := by
  obtain ⟨c, s, rfl⟩ := List.exists_cons_of_ne_nil hb
  rw [createEvent, decodeBody, if_neg (by simp)]
  show Taken b (respond b (((Event.ofJson (c :: s)).mapError _) >>= _)).1
    (respond b (((Event.ofJson (c :: s)).mapError _) >>= _)).2 _
  rw [Intake.consume]
  case x => exact hb
  cases hj : Event.ofJson (c :: s) with
  | error err => exact .undecodable err
  | ok e =>
    simp only [Except.mapError, bind, Except.bind, Calendar.create]
    cases hv : e.violation? with
    | some v => exact .invalid v (mem_violations hv)
    | none =>
      have hw := Event.writable_accepted fresh (Event.writable_of_ofJson hj)
      cases hc : b.create (e.accepted fresh) with
      | ok b' => exact .created _ b' hw
      | error err =>
        cases err with
        | alreadyExists id => exact .duplicate id
        | notFound id =>
          rcases Backend.create_error hc with hf | hf
          · exact .missing id ⟨_, hf⟩
          · cases hf
        | database c => exact .failed c

/-! ## Agreement -/

/-- The store after the intake of a message: a message that is refused changes nothing. -/
def kept (b : Backend) (outcome : Except IntakeError (Intake × Backend)) : Backend :=
  match outcome with
  | .ok (_, b') => b'
  | .error _ => b

/-- The response to a creation, the store after it, and the outcome of the intake say the same. -/
structure Agrees (b : Backend) (r : Response) (b' : Backend)
    (outcome : Except IntakeError (Intake × Backend)) : Prop where
  store : b' = kept b outcome
  created : ∀ id, (∃ e, r.status = 200 ∧ Event.ofJson (encode r.body) = .ok e ∧ e.id = id) ↔
    outcome = .ok (.created id, b')
  duplicate : ∀ id, r = .text 409 (StoreError.alreadyExists id).message ↔
    outcome = .ok (.duplicate id, b)
  undecodable : ∀ m, r = .text 400 m ∧ (∃ err : ReadError, err.message = m) ↔
    ∃ err, outcome = .error (.undecodable err) ∧
      (IntakeError.undecodable err).message = "failed to decode event: " ++ m
  invalid : ∀ m, r = .text 400 m ∧ (∃ v ∈ violations, v.reason = m) ↔
    ∃ v, outcome = .error (.service (.invalid v)) ∧ v.reason = m
  failed : ∀ m, r = .text 500 m ↔
    ∃ c, outcome = .error (.service (.store (.database c))) ∧ (StoreError.database c).message = m

theorem eventResponse_ne_text {s : Nat} {m : String} (hw : ∃ cs, e.toJson? = some cs)
    (hs : s ≠ 200) : eventResponse e ≠ .text s m := by
  intro h
  have h₁ := (eventResponse_eq hw).1
  rw [h] at h₁
  exact hs h₁

theorem message_alreadyExists (id id' : String) :
    (StoreError.alreadyExists id).message = (StoreError.alreadyExists id').message ↔ id = id' := by
  have h (i : String) :
    (StoreError.alreadyExists i).message = "event with id " ++ i ++ " already exists" := rfl
  rw [h, h, String.append_left_inj, String.append_right_inj]

theorem message_undecodable (err : ReadError) (m : String) :
    (IntakeError.undecodable err).message = "failed to decode event: " ++ m ↔ err.message = m := by
  have h : (IntakeError.undecodable err).message = "failed to decode event: " ++ err.message := rfl
  rw [h]
  exact String.append_right_inj _

namespace Taken

variable {outcome : Except IntakeError (Intake × Backend)} (h : Taken b r b' outcome)
include h

theorem created_iff (id : String) :
    (∃ e, r.status = 200 ∧ Event.ofJson (encode r.body) = .ok e ∧ e.id = id) ↔
      outcome = .ok (.created id, b') := by
  cases h with
  | created e b' hw =>
    obtain ⟨hs, hj⟩ := eventResponse_eq hw
    simp [hs, hj]
  | _ => simp [Response.text]

theorem duplicate_iff (id : String) : r = .text 409 (StoreError.alreadyExists id).message ↔
    outcome = .ok (.duplicate id, b) := by
  cases h with
  | created e b' hw => simp [eventResponse_ne_text hw]
  | duplicate id' => simp [text_inj, message_alreadyExists]
  | _ => simp [text_inj]

theorem undecodable_iff (m : String) :
    r = .text 400 m ∧ (∃ err : ReadError, err.message = m) ↔ ∃ err,
      outcome = .error (.undecodable err) ∧
        (IntakeError.undecodable err).message = "failed to decode event: " ++ m := by
  simp only [message_undecodable]
  cases h with
  | undecodable err =>
    rw [text_inj]
    constructor
    · rintro ⟨⟨-, he⟩, -⟩
      exact ⟨err, rfl, he⟩
    · rintro ⟨_, he, hm⟩
      cases he
      exact ⟨⟨rfl, hm⟩, err, hm⟩
  | invalid v hv =>
    simp only [text_inj, true_and, reduceCtorEq, Except.error.injEq, false_and, exists_false,
      iff_false, not_and, not_exists]
    rintro rfl err
    exact err.message_ne_reason hv
  | created e b' hw => simp [eventResponse_ne_text hw]
  | _ => simp [text_inj]

theorem invalid_iff (m : String) :
    r = .text 400 m ∧ (∃ v ∈ violations, v.reason = m) ↔
      ∃ v, outcome = .error (.service (.invalid v)) ∧ v.reason = m := by
  cases h with
  | undecodable err =>
    simp only [text_inj, true_and, reduceCtorEq, Except.error.injEq, false_and, exists_false,
      iff_false, not_and, not_exists]
    rintro rfl v hv he
    exact err.message_ne_reason hv he.symm
  | invalid v hv =>
    simp only [text_inj, true_and, Except.error.injEq, IntakeError.service.injEq,
      ServiceError.invalid.injEq, exists_eq_left']
    exact ⟨And.left, fun h => ⟨h, v, hv, h⟩⟩
  | created e b' hw => simp [eventResponse_ne_text hw]
  | _ => simp [text_inj]

theorem failed_iff (m : String) : r = .text 500 m ↔
    ∃ c, outcome = .error (.service (.store (.database c))) ∧
      (StoreError.database c).message = m := by
  cases h with
  | created e b' hw => simp [eventResponse_ne_text hw]
  | failed c => simp [text_inj]
  | _ => simp [text_inj]

theorem agrees : Agrees b r b' outcome where
  store := by cases h <;> rfl
  created := h.created_iff
  duplicate := h.duplicate_iff
  undecodable := h.undecodable_iff
  invalid := h.invalid_iff
  failed := h.failed_iff

/-- If only the database can fail, a creation succeeds, or the id is in use, or the event is refused,
or the database has failed. -/
theorem status (hfault : ∀ op err, b.fault op = some err → ∃ c, err = .database c) :
    r.status = 200 ∨ r.status = 400 ∨ r.status = 409 ∨ r.status = 500 := by
  cases h with
  | undecodable err => exact .inr (.inl rfl)
  | invalid v hv => exact .inr (.inl rfl)
  | created e b' hw => exact .inl (eventResponse_eq hw).1
  | duplicate id => exact .inr (.inr (.inl rfl))
  | missing id hop =>
    obtain ⟨op, hop⟩ := hop
    obtain ⟨c, hc⟩ := hfault op _ hop
    cases hc
  | failed c => exact .inr (.inr (.inr rfl))

end Taken

/-- **Two ways in.** A request to create an event is always answered. It leaves the store that the
intake of a message with the same bytes leaves, and its response is of one kind for each outcome of
the intake. -/
theorem create_agrees_with_intake (fresh : String) (now : Instant) (b : Backend)
    (hr : req.Is "POST" "/create") (hb : req.body ≠ []) (hl : req.body.length ≤ maxBodyLength) :
    ∃ r b', handle? fresh now req b = some (r, b') ∧
      Agrees b r b' (Intake.consume fresh (some req.body) b) ∧
      ((∀ op err, b.fault op = some err → ∃ c, err = .database c) →
        r.status = 200 ∨ r.status = 400 ∨ r.status = 409 ∨ r.status = 500) := by
  have h := taken fresh b hb
  exact ⟨_, _, handle?_create hr hl, h.agrees, h.status⟩

/-- The visit is created either way. -/
theorem create_agrees_with_intake_visit : ∃ r b',
    handle? "a1" visit.startDate visitRequest (.reliable .empty) = some (r, b') ∧
    Agrees (.reliable .empty) r b'
      (Intake.consume "a1" (some visitRequest.body) (.reliable .empty)) ∧
    r.status = 200 ∧
    Intake.consume "a1" (some visitRequest.body) (.reliable .empty) = .ok (.created "a1", b') := by
  have hr : visitRequest.Is "POST" "/create" := ⟨rfl, rfl⟩
  obtain ⟨r, b', hh, hagrees, -⟩ := create_agrees_with_intake "a1" visit.startDate
    (.reliable .empty) hr (by decide +kernel) (by decide +kernel)
  have hconsume : Intake.consume "a1" (some visitRequest.body) (.reliable .empty) =
      .ok (.created "a1", .reliable ⟨[{ visit with id := "a1" }], by decide⟩) := by
    rw [Intake.consume, ofJson_visit]
    · rfl
    · decide +kernel
  have hstore := hagrees.store
  rw [hconsume] at hstore
  have hcreated : Intake.consume "a1" (some visitRequest.body) (.reliable .empty) =
      .ok (.created "a1", b') := by
    rw [hconsume, hstore, kept]
  obtain ⟨_, hs, -, -⟩ := (hagrees.created "a1").2 hcreated
  exact ⟨r, b', hh, hagrees, hs, hcreated⟩

end Router

end Http

end Agenda
