import Agenda.Http.Router
import Agenda.Proofs.Calendar
import Agenda.Proofs.Event.Json
import Agenda.Except

/-!
# Requests are all or nothing

A handler decodes the body, changes the store at most once, and answers after that. The answer to a
change is an event that was decoded from JSON, or an id, so it can always be written: no request fails
after it has changed the store.

* `Router.Effect`: everything that a request can do, and `Router.effect_of_handle?`.
* `Router.all_or_nothing`: a request that fails or only reads leaves the store as it is, and one that
  succeeds changes one entry, which its response shows.
-/
namespace Agenda

variable {b b' : Backend} {e : Event} {fresh : String}

namespace Event

/-! ## What is kept can be written -/

theorem writable_accepted (fresh : String) (h : ∃ cs, e.toJson? = some cs) :
    ∃ cs, (e.accepted fresh).toJson? = some cs := by
  have hd : (e.accepted fresh).duration = e.duration := by
    rw [accepted, withId]
    split <;> rfl
  rw [writable_iff] at h ⊢
  rwa [hd]

theorem writable_rearmed (h : ∃ cs, e.toJson? = some cs) : ∃ cs, e.rearmed.toJson? = some cs := by
  rw [writable_iff] at h ⊢
  exact h

theorem accepted_id_ne (hfresh : fresh ≠ "") : (e.accepted fresh).id ≠ "" := by
  show (e.withId fresh).id ≠ ""
  rw [withId]
  split
  · exact hfresh
  · rename_i hi
    simpa using hi

end Event

namespace Http

open Json Text.Utf8

variable {r : Response} {req : Request} {now : Instant} {body : List UInt8} {id : String}

/-! ## Responses -/

theorem status_ofError_ne (err : ServiceError) : (Response.ofError err).status ≠ 200 := by
  rw [Response.ofError, Response.text]
  rcases err with v | _ | (i | i | c) <;> simp [ServiceError.status]

/-- The response with an event that can be written is the event as JSON. -/
theorem eventResponse_eq (h : ∃ cs, e.toJson? = some cs) :
    (eventResponse e).status = 200 ∧ Event.ofJson (encode (eventResponse e).body) = .ok e := by
  obtain ⟨cs, hcs⟩ := h
  rw [eventResponse, hcs]
  exact ⟨rfl, Event.ofJson_written hcs⟩

/-- The response to the deletion of an event. -/
theorem decode_deletion (id : String) :
    deletion.reader.decode (encode (writeObject [writeMember "id" (writeString id)])) = .ok id := by
  let m : Member String := .of "id" (fun id _ => id) (Event.text_reads id)
  have hm : ([m].map Member.field).Sublist deletion.fields := .refl deletion.fields
  exact Reader.decode_of_reads (Record.read_written hm (List.nodup_singleton _))

/-! ## Handlers -/

theorem decodeBody_eq_ok {α : Type} {p : Reader α} {a : α} :
    decodeBody p body = .ok a ↔ body ≠ [] ∧ p.decode body = .ok a := by
  rw [decodeBody]
  cases body with
  | nil => simp
  | cons c s => cases p.decode (c :: s) <;> simp [Except.mapError]

theorem createEvent_eq_ok : createEvent fresh body b = .ok (r, b') ↔
    ∃ e, body ≠ [] ∧ Event.ofJson body = .ok e ∧ e.violation? = none ∧
      b.create (e.accepted fresh) = .ok b' ∧ r = eventResponse (e.accepted fresh) := by
  simp only [createEvent, bind_eq_ok, decodeBody_eq_ok, Prod.exists, Calendar.create_eq_ok, pure,
    Except.pure, Except.ok.injEq, Prod.mk.injEq]
  constructor
  · rintro ⟨e, ⟨hb, he⟩, f, b₁, ⟨hv, rfl, hc⟩, rfl, rfl⟩
    exact ⟨e, hb, he, hv, hc, rfl⟩
  · rintro ⟨e, hb, he, hv, hc, rfl⟩
    exact ⟨e, ⟨hb, he⟩, _, _, ⟨hv, rfl, hc⟩, rfl, rfl⟩

theorem updateEvent_eq_ok : updateEvent body b = .ok (r, b') ↔
    ∃ e, body ≠ [] ∧ Event.ofJson body = .ok e ∧ e.id.isEmpty = false ∧ e.violation? = none ∧
      b.update e.rearmed = .ok b' ∧ r = eventResponse e.rearmed := by
  simp only [updateEvent, bind_eq_ok, decodeBody_eq_ok, Prod.exists, Calendar.update_eq_ok, pure,
    Except.pure, Except.ok.injEq, Prod.mk.injEq]
  constructor
  · rintro ⟨e, ⟨hb, he⟩, f, b₁, ⟨hi, hv, rfl, hc⟩, rfl, rfl⟩
    exact ⟨e, hb, he, hi, hv, hc, rfl⟩
  · rintro ⟨e, hb, he, hi, hv, hc, rfl⟩
    exact ⟨e, ⟨hb, he⟩, _, _, ⟨hi, hv, rfl, hc⟩, rfl, rfl⟩

theorem deleteEvent_eq_ok : deleteEvent body b = .ok (r, b') ↔
    ∃ id, body ≠ [] ∧ deletion.reader.decode body = .ok id ∧ id.isEmpty = false ∧
      b.delete id = .ok b' ∧ r = .json (writeObject [writeMember "id" (writeString id)]) := by
  simp only [deleteEvent, bind_eq_ok, decodeBody_eq_ok]
  constructor
  · rintro ⟨id, ⟨hb, hd⟩, h⟩
    split at h
    · cases h
    · rename_i hi
      simp only [Calendar.delete_eq_ok, bind_eq_ok, pure, Except.pure, Except.ok.injEq,
        Prod.mk.injEq] at h
      obtain ⟨b₁, hs, rfl, rfl⟩ := h
      exact ⟨id, hb, hd, by simpa using hi, hs, rfl⟩
  · rintro ⟨id, hb, hd, hi, hs, rfl⟩
    refine ⟨id, ⟨hb, hd⟩, ?_⟩
    simp [hi, bind, Except.bind, pure, Except.pure, Calendar.delete_eq_ok.2 hs]

/-! ## Requests -/

/-- The request has the method and the path, whatever its query. -/
def Request.Is (req : Request) (method path : String) : Prop :=
  req.method = method ∧ req.target.path = encode path.toList

theorem Request.Is.method_eq {m p m' p' : String} (h : req.Is m p) (h' : req.Is m' p') : m = m' :=
  h.1.symm.trans h'.1

/-- A request with another method than these does not only read. -/
theorem Request.Is.not_read {m p : String} (h : req.Is m p) (hm : m ≠ "GET" ∧ m ≠ "HEAD") :
    ¬ (req.method = "GET" ∨ req.method = "HEAD") := by
  rw [h.1]
  exact not_or.2 hm

/-- The path of a route in the table. -/
def Route.path : Route → String
  | index => "/"
  | health => "/health"
  | create => "/create"
  | update => "/update"
  | delete => "/delete"
  | view .day => "/getDay"
  | view .week => "/getWeek"
  | view .month => "/getMonth"

theorem Route.path_of_ofPath? {path : List UInt8} {route : Route} (h : ofPath? path = some route) :
    path = encode route.path.toList := by
  obtain ⟨entry, hf, rfl⟩ := Option.map_eq_some_iff.1 h
  have hp := List.find?_some hf
  have htable : ∀ entry ∈ table, entry.1 = entry.2.path := by decide
  rw [← htable entry (List.mem_of_find?_eq_some hf)]
  exact (of_decide_eq_true hp).symm

theorem Route.ofPath?_path (route : Route) : ofPath? (encode route.path.toList) = some route := by
  rcases route with _ | _ | _ | _ | _ | (_ | _ | _) <;> decide

namespace Router

/-! ## The router -/

/-- A request with a path and a method of it gets to its route. -/
theorem handle?_eq_serve? {method : String} (route : Route) (hr : req.Is method route.path)
    (hm : method ∈ route.methods) (hhead : method ≠ "HEAD") :
    handle? fresh now req b = serve? fresh now route req b := by
  have hp : Route.ofPath? req.target.path = some route := by
    rw [hr.2]
    exact Route.ofPath?_path route
  rw [← hr.1] at hm hhead
  simp only [handle?, hp, if_pos hm, if_neg hhead, Option.map_id']

/-- A request to create an event is answered, whatever comes of it. -/
theorem handle?_create (hr : req.Is "POST" "/create") (hl : req.body.length ≤ maxBodyLength) :
    handle? fresh now req b = some (respond b (createEvent fresh req.body b)) := by
  rw [handle?_eq_serve? .create hr (by decide) (by decide)]
  exact if_neg (Nat.not_lt.2 hl)

/-- Everything that a request can do: nothing, or one change that its response shows. -/
inductive Effect (fresh : String) (req : Request) (b : Backend) : Response → Backend → Prop where
  | nothing (r : Response) (h : r.status ≠ 200 ∨ req.method = "GET" ∨ req.method = "HEAD") :
    Effect fresh req b r b
  | creates (e : Event) (b' : Backend) (request : req.Is "POST" "/create")
    (body : Event.ofJson req.body = .ok e) (change : b.create (e.accepted fresh) = .ok b') :
    Effect fresh req b (eventResponse (e.accepted fresh)) b'
  | updates (e : Event) (b' : Backend) (request : req.Is "PUT" "/update")
    (body : Event.ofJson req.body = .ok e) (change : b.update e.rearmed = .ok b') :
    Effect fresh req b (eventResponse e.rearmed) b'
  | deletes (id : String) (b' : Backend) (request : req.Is "DELETE" "/delete")
    (body : deletion.reader.decode req.body = .ok id) (change : b.delete id = .ok b') :
    Effect fresh req b (.json (writeObject [writeMember "id" (writeString id)])) b'

/-- A failed change is no change. -/
theorem effect_of_respond {run : Except ServiceError (Response × Backend)}
    (h : ∀ r b', run = .ok (r, b') → Effect fresh req b r b') :
    Effect fresh req b (respond b run).1 (respond b run).2 := by
  cases run with
  | error err => exact .nothing _ (.inl (status_ofError_ne err))
  | ok x => exact h x.1 x.2 rfl

theorem effect_of_create (hr : req.Is "POST" "/create")
    (h : createEvent fresh req.body b = .ok (r, b')) :
    Effect fresh req b r b' := by
  obtain ⟨e, -, he, -, hc, rfl⟩ := createEvent_eq_ok.1 h
  exact .creates e b' hr he hc

theorem effect_of_update (hr : req.Is "PUT" "/update")
    (h : updateEvent req.body b = .ok (r, b')) :
    Effect fresh req b r b' := by
  obtain ⟨e, -, he, -, -, hc, rfl⟩ := updateEvent_eq_ok.1 h
  exact .updates e b' hr he hc

theorem effect_of_delete (hr : req.Is "DELETE" "/delete")
    (h : deleteEvent req.body b = .ok (r, b')) :
    Effect fresh req b r b' := by
  obtain ⟨id, -, hd, -, hc, rfl⟩ := deleteEvent_eq_ok.1 h
  exact .deletes id b' hr hd hc

theorem effect_of_serve? {route : Route} (hp : Route.ofPath? req.target.path = some route)
    (hm : req.method ∈ route.methods)
    (h : serve? fresh now route req b = some (r, b')) : Effect fresh req b r b' := by
  have withBody {run : Except ServiceError (Response × Backend)}
      (hr : ∀ r b', run = .ok (r, b') → Effect fresh req b r b')
      (h : (if maxBodyLength < req.body.length then some (tooLarge, b) else some (respond b run)) =
        some (r, b')) : Effect fresh req b r b' := by
    split at h
    · cases h
      exact .nothing _ (.inl (by decide))
    · have heff := effect_of_respond hr
      rwa [Option.some.inj h] at heff
  cases route with
  | index => cases h; exact .nothing _ (.inr (by simpa [Route.methods] using hm))
  | health => cases h; exact .nothing _ (.inr (by simpa [Route.methods] using hm))
  | create =>
    have hr : req.Is "POST" "/create" := ⟨List.mem_singleton.1 hm, Route.path_of_ofPath? hp⟩
    exact withBody (fun _ _ => effect_of_create hr) h
  | update =>
    have hr : req.Is "PUT" "/update" := ⟨List.mem_singleton.1 hm, Route.path_of_ofPath? hp⟩
    exact withBody (fun _ _ => effect_of_update hr) h
  | delete =>
    have hr : req.Is "DELETE" "/delete" := ⟨List.mem_singleton.1 hm, Route.path_of_ofPath? hp⟩
    exact withBody (fun _ _ => effect_of_delete hr) h
  | view v =>
    obtain ⟨r', -, he⟩ := Option.map_eq_some_iff.1 h
    cases he
    exact .nothing _ (.inr (by simpa [Route.methods] using hm))

/-- A response without its body comes from the same effect; only what is read has one. -/
theorem Effect.withoutBody (h : Effect fresh req b r b') (hm : req.method = "HEAD") :
    Effect fresh req b { r with body := [] } b' := by
  cases h with
  | nothing _ h => exact .nothing _ (.inr (.inr hm))
  | creates e b' hr => exact absurd (hm.symm.trans hr.1) (by decide)
  | updates e b' hr => exact absurd (hm.symm.trans hr.1) (by decide)
  | deletes id b' hr => exact absurd (hm.symm.trans hr.1) (by decide)

theorem effect_of_handle? (h : handle? fresh now req b = some (r, b')) :
    Effect fresh req b r b' := by
  unfold handle? at h
  split at h
  · cases h
    exact .nothing _ (.inl (by decide))
  · rename_i route hp
    split at h
    · rename_i hm
      obtain ⟨⟨r₁, b₁⟩, hs, he⟩ := Option.map_eq_some_iff.1 h
      have heff := effect_of_serve? hp hm hs
      cases he
      split
      · rename_i hhead
        exact heff.withoutBody hhead
      · exact heff
    · cases h
      exact .nothing _ (.inl (by simp [Response.empty]))

/-- Only the views can be without a response, where the window is not supported. -/
theorem reads_of_handle?_eq_none (h : handle? fresh now req b = none) :
    req.method = "GET" ∨ req.method = "HEAD" := by
  unfold handle? at h
  split at h
  · cases h
  · rename_i route _
    split at h
    · rename_i hm
      rw [Option.map_eq_none_iff] at h
      cases route with
      | index => cases h
      | health => cases h
      | create => simp only [serve?] at h; split at h <;> cases h
      | update => simp only [serve?] at h; split at h <;> cases h
      | delete => simp only [serve?] at h; split at h <;> cases h
      | view v => simpa [Route.methods] using hm
    · cases h

/-! ## All or nothing -/

/-- The response shows an event whose id was free; the store has gained it and nothing else. -/
structure Created (r : Response) (b b' : Backend) (e : Event) : Prop where
  shown : Event.ofJson (encode r.body) = .ok e
  named : e.id ≠ ""
  pending : e.isSent = false
  before : b.store.find? e.id = none
  after : b'.store.find? = Function.update b.store.find? e.id (some e)

/-- The response shows an event whose id was in use; it has taken that place and nothing else has
changed. -/
structure Updated (r : Response) (b b' : Backend) (e : Event) : Prop where
  shown : Event.ofJson (encode r.body) = .ok e
  pending : e.isSent = false
  before : b.store.Holds e.id
  after : b'.store.find? = Function.update b.store.find? e.id (some e)

/-- The response shows an id that was in use; the store has lost its event and nothing else. -/
structure Deleted (r : Response) (b b' : Backend) (id : String) : Prop where
  shown : deletion.reader.decode (encode r.body) = .ok id
  before : b.store.Holds id
  after : b'.store.find? = Function.update b.store.find? id none

theorem created_of_create {input : List UInt8} (hfresh : fresh ≠ "")
    (he : Event.ofJson input = .ok e) (hc : b.create (e.accepted fresh) = .ok b') :
    Created (eventResponse (e.accepted fresh)) b b' (e.accepted fresh) := by
  have hw := Event.writable_accepted fresh (Event.writable_of_ofJson he)
  have hs := (Backend.change_ok hc).2.1
  exact {
    shown := (eventResponse_eq hw).2
    named := Event.accepted_id_ne hfresh
    pending := rfl
    before := Store.find?_eq_none_iff.2 (Store.create_ok hs).1
    after := Store.find?_create hs }

theorem updated_of_update {input : List UInt8} (he : Event.ofJson input = .ok e)
    (hc : b.update e.rearmed = .ok b') : Updated (eventResponse e.rearmed) b b' e.rearmed := by
  have hw := Event.writable_rearmed (Event.writable_of_ofJson he)
  have hs := (Backend.change_ok hc).2.1
  exact {
    shown := (eventResponse_eq hw).2
    pending := rfl
    before := (Store.update_ok hs).1
    after := Store.find?_update hs }

theorem deleted_of_delete (hc : b.delete id = .ok b') :
    Deleted (.json (writeObject [writeMember "id" (writeString id)])) b b' id := by
  have hs := (Backend.change_ok hc).2.1
  exact {
    shown := decode_deletion id
    before := (Store.delete_ok hs).1
    after := Store.find?_delete hs }

namespace Effect

variable (h : Effect fresh req b r b')
include h

theorem kept (hr : r.status ≠ 200 ∨ req.method = "GET" ∨ req.method = "HEAD") : b' = b := by
  cases h with
  | nothing => rfl
  | creates e _ hreq he =>
    have hs := (eventResponse_eq (Event.writable_accepted fresh (Event.writable_of_ofJson he))).1
    exact absurd (hr.resolve_left (absurd hs)) (hreq.not_read (by decide))
  | updates e _ hreq he =>
    have hs := (eventResponse_eq (Event.writable_rearmed (Event.writable_of_ofJson he))).1
    exact absurd (hr.resolve_left (absurd hs)) (hreq.not_read (by decide))
  | deletes _ _ hreq => exact absurd (hr.resolve_left (absurd rfl)) (hreq.not_read (by decide))

theorem created (hfresh : fresh ≠ "") (hs : r.status = 200) (hr : req.Is "POST" "/create") :
    ∃ sent, Event.ofJson req.body = .ok sent ∧ Created r b b' (sent.accepted fresh) := by
  cases h with
  | nothing _ hn => exact absurd (hn.resolve_left (absurd hs)) (hr.not_read (by decide))
  | creates e _ _ he hc => exact ⟨e, he, created_of_create hfresh he hc⟩
  | updates _ _ hr' => exact absurd (hr.method_eq hr') (by decide)
  | deletes _ _ hr' => exact absurd (hr.method_eq hr') (by decide)

theorem updated (hs : r.status = 200) (hr : req.Is "PUT" "/update") :
    ∃ sent, Event.ofJson req.body = .ok sent ∧ Updated r b b' sent.rearmed := by
  cases h with
  | nothing _ hn => exact absurd (hn.resolve_left (absurd hs)) (hr.not_read (by decide))
  | creates _ _ hr' => exact absurd (hr.method_eq hr') (by decide)
  | updates e _ _ he hc => exact ⟨e, he, updated_of_update he hc⟩
  | deletes _ _ hr' => exact absurd (hr.method_eq hr') (by decide)

theorem deleted (hs : r.status = 200) (hr : req.Is "DELETE" "/delete") :
    ∃ id, deletion.reader.decode req.body = .ok id ∧ Deleted r b b' id := by
  cases h with
  | nothing _ hn => exact absurd (hn.resolve_left (absurd hs)) (hr.not_read (by decide))
  | creates _ _ hr' => exact absurd (hr.method_eq hr') (by decide)
  | updates _ _ hr' => exact absurd (hr.method_eq hr') (by decide)
  | deletes id _ _ hd hc => exact ⟨id, hd, deleted_of_delete hc⟩

/-- Only creations, updates and deletions change anything, and no fault of the store. -/
theorem changed (hne : b' ≠ b) : b'.fault = b.fault ∧
    (req.Is "POST" "/create" ∨ req.Is "PUT" "/update" ∨ req.Is "DELETE" "/delete") := by
  cases h with
  | nothing => exact absurd rfl hne
  | creates _ _ hr _ hc => exact ⟨(Backend.create_ok hc).2, .inl hr⟩
  | updates _ _ hr _ hc => exact ⟨(Backend.update_ok hc).2, .inr (.inl hr)⟩
  | deletes _ _ hr _ hc => exact ⟨(Backend.delete_ok hc).2, .inr (.inr hr)⟩

end Effect

/-- **Requests.** Whatever the store and its faults: a request that fails or only reads leaves the
store as it is; one that succeeds otherwise is a creation, an update or a deletion, whose response
shows the one entry that has changed. Only a view can be without a response. -/
theorem all_or_nothing (hfresh : fresh ≠ "") (now : Instant) (req : Request) (b : Backend) :
    (∀ r b', handle? fresh now req b = some (r, b') →
      (r.status ≠ 200 ∨ req.method = "GET" ∨ req.method = "HEAD" → b' = b) ∧
      (r.status = 200 → req.Is "POST" "/create" → ∃ sent, Event.ofJson req.body = .ok sent ∧
        Created r b b' (sent.accepted fresh)) ∧
      (r.status = 200 → req.Is "PUT" "/update" → ∃ sent, Event.ofJson req.body = .ok sent ∧
        Updated r b b' sent.rearmed) ∧
      (r.status = 200 → req.Is "DELETE" "/delete" → ∃ id, deletion.reader.decode req.body = .ok id ∧
        Deleted r b b' id) ∧
      (b' ≠ b → b'.fault = b.fault ∧
        (req.Is "POST" "/create" ∨ req.Is "PUT" "/update" ∨ req.Is "DELETE" "/delete"))) ∧
    (handle? fresh now req b = none → req.method = "GET" ∨ req.method = "HEAD") := by
  refine ⟨fun r b' h => ?_, reads_of_handle?_eq_none⟩
  have heff := effect_of_handle? h
  exact ⟨heff.kept, heff.created hfresh, heff.updated, heff.deleted, heff.changed⟩

/-- A visit without an id. -/
def visit : Event :=
  { Event.blank with
    title := "Visit", owner := "ada", duration := .second,
    startDate := ⟨1792224000, 0, by decide⟩ }

/-- A request to create the visit. -/
def visitRequest : Request :=
  ⟨"POST", ⟨encode "/create".toList, none⟩, encode (visit.toJson?.getD [])⟩

theorem ofJson_visit : Event.ofJson visitRequest.body = .ok visit := by
  obtain ⟨cs, hcs⟩ := (Event.writable_iff (e := visit)).2 ⟨by decide, by decide⟩
  show Event.ofJson (encode (visit.toJson?.getD [])) = _
  rw [hcs, Option.getD_some]
  exact Event.ofJson_written hcs

theorem all_or_nothing_visit : ∃ r b',
    handle? "a1" visit.startDate visitRequest (.reliable .empty) = some (r, b') ∧ r.status = 200 ∧
    Created r (.reliable .empty) b' { visit with id := "a1" } := by
  have hr : visitRequest.Is "POST" "/create" := ⟨rfl, rfl⟩
  have hstored : (Backend.reliable .empty).create (visit.accepted "a1") =
    .ok (.reliable ⟨[{ visit with id := "a1" }], by decide⟩) := by rfl
  have hcreate := createEvent_eq_ok.2
    ⟨visit, by decide +kernel, ofJson_visit, by decide, hstored, rfl⟩
  have hs := (eventResponse_eq (Event.writable_accepted "a1" (Event.writable_of_ofJson
    ofJson_visit))).1
  have hh : handle? "a1" visit.startDate visitRequest (.reliable .empty) = _ :=
    handle?_create hr (by decide +kernel)
  rw [hcreate] at hh
  obtain ⟨sent, hj, hcreated⟩ := ((all_or_nothing (by decide) _ _ _).1 _ _ hh).2.1 hs hr
  rw [ofJson_visit] at hj
  cases hj
  exact ⟨_, _, hh, hs, hcreated⟩

end Router

end Http

end Agenda
