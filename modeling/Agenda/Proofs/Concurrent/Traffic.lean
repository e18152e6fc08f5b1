import Agenda.Proofs.Concurrent.Sent
import Agenda.Proofs.Event.Kept
import Agenda.Proofs.Http.Views
import Agenda.Proofs.Retention
import Mathlib.Logic.Relation

/-!
# Nothing from outside spoils the store

Requests and messages come in as bytes, and jobs write back what they have listed. One stored event
that cannot be written would make every view of its owner a failure and leave its reminder pending for
ever. No bytes lead there: what is stored, and what a dispatch has listed, is fit to be kept.

* `Traffic`: a request, a message, a whole run of a job or one step of a job.
* `Unspoilt`: the invariant; `Unspoilt.traffic`: every step keeps it.
* `unspoilt_serves`: so every view is answered with what is stored, and every due event is published.
-/
namespace Agenda.Concurrent

open Http Reminders Retention Text.Utf8

variable {s s' : State} {b b' : Backend} {e : Event} {fresh : String} {now : Instant}

/-! ## Steps -/

/-- A step of the service. Requests and messages are any bytes, and a fresh id is never empty; a job
runs to its end, or takes its steps among all others. -/
inductive Traffic : State → State → Prop where
  | request {s : State} {r : Response} {b : Backend} (fresh : String) (hfresh : fresh ≠ "")
      (now : Instant) (req : Request) (h : Router.handle? fresh now req s.backend = some (r, b)) :
      Traffic s { s with backend := b }
  | message {s : State} {i : Intake} {b : Backend} (fresh : String) (hfresh : fresh ≠ "")
      (payload : Option (List UInt8)) (h : Intake.consume fresh payload s.backend = .ok (i, b)) :
      Traffic s { s with backend := b }
  | dispatch {s : State} {d : Dispatch} (accepts : Event → Bool) (now : Instant)
      (h : Reminders.dispatch accepts now s.backend = .ok d) :
      Traffic s { s with backend := d.backend }
  | purge {s : State} {p : Nat × Backend} (now : Instant)
      (h : Retention.purge now s.backend = .ok p) : Traffic s { s with backend := p.2 }
  | job {s s' : State} {o : Occurrence} (h : Step s o s') (hjob : ∀ ch, o ≠ .called ch) :
      Traffic s s'

/-- A state that the service can be in, if nothing was stored at first. -/
def Reachable (s : State) : Prop := Relation.ReflTransGen Traffic (start (.reliable .empty)) s

/-! ## The invariant -/

/-- What is stored is fit to be kept, and so is what a dispatch may write back. -/
structure Unspoilt (s : State) : Prop where
  reliable : s.backend.fault = fun _ => none
  stored : ∀ e ∈ s.backend.store.events, e.Kept
  listed : ∀ j ∈ s.jobs, ∀ e ∈ j.listed, e.Kept

theorem Unspoilt.start : Unspoilt (start (.reliable .empty)) where
  reliable := rfl
  stored := by intro e he; cases he
  listed := by intro j hj; cases hj

/-- A change at one id keeps the invariant if what it sets is fit to be kept. -/
theorem kept_of_update {id : String} {v : Option Event} (hb : ∀ e ∈ b.store.events, e.Kept)
    (hf : b'.store.find? = Function.update b.store.find? id v) (hv : ∀ e, v = some e → e.Kept) :
    ∀ e ∈ b'.store.events, e.Kept := by
  intro e he
  have hfind := Store.find?_of_mem he
  rw [hf] at hfind
  by_cases hi : e.id = id
  · rw [hi, Function.update_self] at hfind
    exact hv e hfind
  · rw [Function.update_of_ne hi] at hfind
    exact hb e (Store.mem_of_find? hfind)

/-! ## What one step does -/

theorem kept_of_request {req : Request} {r : Response} (hfresh : fresh ≠ "")
    (hb : ∀ e ∈ b.store.events, e.Kept) (h : Router.handle? fresh now req b = some (r, b')) :
    (∀ e ∈ b'.store.events, e.Kept) ∧ b'.fault = b.fault := by
  cases Router.effect_of_handle? h with
  | nothing => exact ⟨hb, rfl⟩
  | creates e b' _ hj hc =>
    obtain ⟨hf, hfault⟩ := Backend.create_ok hc
    refine ⟨kept_of_update hb hf fun x hx => ?_, hfault⟩
    cases hx
    exact Event.kept_accepted hj hfresh
  | updates e b' _ hj hc =>
    obtain ⟨hf, hfault⟩ := Backend.update_ok hc
    refine ⟨kept_of_update hb hf fun x hx => ?_, hfault⟩
    cases hx
    -- The event that is replaced has the same id.
    obtain ⟨f, hold⟩ := Store.holds_iff.1 (Store.update_ok (Backend.change_ok hc).2.1).1
    have hid : f.id = e.id := Store.id_of_find? hold
    exact Event.kept_rearmed hj (hid ▸ (hb f (Store.mem_of_find? hold)).named)
  | deletes id b' _ _ hc =>
    obtain ⟨hf, hfault⟩ := Backend.delete_ok hc
    refine ⟨kept_of_update hb hf fun x hx => ?_, hfault⟩
    cases hx

theorem kept_of_message {payload : Option (List UInt8)} {i : Intake} (hfresh : fresh ≠ "")
    (hb : ∀ e ∈ b.store.events, e.Kept) (h : Intake.consume fresh payload b = .ok (i, b')) :
    (∀ e ∈ b'.store.events, e.Kept) ∧ b'.fault = b.fault := by
  cases i with
  | created id =>
    obtain ⟨bytes, e, -, hj, -, -, hc⟩ := Intake.consume_eq_created h
    obtain ⟨hf, hfault⟩ := Backend.create_ok hc
    refine ⟨kept_of_update hb hf fun x hx => ?_, hfault⟩
    cases hx
    exact Event.kept_accepted hj hfresh
  | duplicate id =>
    obtain rfl := Intake.consume_eq_duplicate h
    exact ⟨hb, rfl⟩

theorem kept_of_dispatch {accepts : Event → Bool} {d : Dispatch}
    (hb : ∀ e ∈ b.store.events, e.Kept) (h : Reminders.dispatch accepts now b = .ok d) :
    ∀ e ∈ d.backend.store.events, e.Kept := by
  intro e he
  have hf := Store.find?_of_mem he
  rw [dispatch_find? h] at hf
  obtain ⟨x, hx, rfl⟩ := Option.map_eq_some_iff.1 hf
  have hkept := hb x (Store.mem_of_find? hx)
  split
  · exact hkept.sent
  · exact hkept

theorem kept_of_purge {p : Nat × Backend} (hb : ∀ e ∈ b.store.events, e.Kept)
    (h : Retention.purge now b = .ok p) : ∀ e ∈ p.2.store.events, e.Kept := by
  intro e he
  have hf := Store.find?_of_mem he
  rw [purge_find? h] at hf
  split at hf
  · cases hf
  · exact hb e (Store.mem_of_find? hf)

/-- What a job writes back is an event that it has listed. -/
theorem Unspoilt.stored_of_job {o : Occurrence} (hu : Unspoilt s) (h : Step s o s')
    (hjob : ∀ ch, o ≠ .called ch) : ∀ e ∈ s'.backend.store.events, e.Kept := by
  have hf := h.find?_eq
  cases o with
  | called ch => exact absurd rfl (hjob ch)
  | marked x =>
    refine kept_of_update hu.stored hf fun e he => ?_
    cases he
    obtain ⟨due, hj⟩ := h.marked
    exact (hu.listed _ hj x List.mem_cons_self).sent
  | purged now id => exact kept_of_update hu.stored hf fun e he => by cases he
  | listed | published | unsent | idle =>
    intro e he
    exact hu.stored e ((Store.perm_of_find?_eq hf).mem_iff.1 he)

/-- What a dispatch has listed was stored. -/
theorem Unspoilt.listed_of_job {o : Occurrence} (hu : Unspoilt s) (h : Step s o s') :
    ∀ j ∈ s'.jobs, ∀ e ∈ j.listed, e.Kept := by
  intro j hj e he
  obtain hj | ⟨es, now, listing, hl, hp, rfl | rfl⟩ | ⟨j₀, hj₀, b, hs⟩ := h.jobs hj
  · exact hu.listed j hj e he
  · have hmem : e ∈ es := hp.mem_iff.1 (List.mem_of_mem_filter he)
    rw [Backend.list_ok hl] at hmem
    exact hu.stored e hmem
  · cases he
  · exact hu.listed j₀ hj₀ e (hs.listed_subset he)

/-- **Steps.** No step spoils the store. -/
theorem Unspoilt.traffic (hu : Unspoilt s) (h : Traffic s s') : Unspoilt s' := by
  cases h with
  | request fresh hfresh now req h =>
    obtain ⟨hstored, hfault⟩ := kept_of_request hfresh hu.stored h
    exact ⟨hfault.trans hu.reliable, hstored, hu.listed⟩
  | message fresh hfresh payload h =>
    obtain ⟨hstored, hfault⟩ := kept_of_message hfresh hu.stored h
    exact ⟨hfault.trans hu.reliable, hstored, hu.listed⟩
  | dispatch accepts now h =>
    exact ⟨(dispatch_fault h).trans hu.reliable, kept_of_dispatch hu.stored h, hu.listed⟩
  | purge now h => exact ⟨(purge_fault h).trans hu.reliable, kept_of_purge hu.stored h, hu.listed⟩
  | job h hjob =>
    exact ⟨h.fault_eq.trans hu.reliable, hu.stored_of_job h hjob, hu.listed_of_job h⟩

theorem Reachable.unspoilt (h : Reachable s) : Unspoilt s := by
  induction h with
  | refl => exact .start
  | tail _ hs ih => exact ih.traffic hs

/-! ## What the service gives -/

/-- The message shows the event. -/
def Shows (m : Message) (e : Event) : Prop := m.id = e.id ∧ e.toJson? = some m.payload

theorem forall₂_publish (accepts : Event → Bool) {es : List Event} (h : ∀ e ∈ es, e.Kept) :
    List.Forall₂ Shows (es.filterMap (publish accepts)) es := by
  induction es with
  | nil => exact .nil
  | cons e es ih =>
    obtain ⟨he, hrest⟩ := List.forall_mem_cons.1 h
    obtain ⟨cs, hcs⟩ := he.writable
    rw [List.filterMap_cons_some (publish_eq_some.2 ⟨cs, hcs, rfl⟩)]
    exact .cons ⟨rfl, hcs⟩ (ih hrest)

/-- The request asks for a view of an owner. -/
structure AsksFor (req : Request) (v : View) (owner : String) : Prop where
  path : req.Is "GET" (Route.view v).path
  query : Query.values "owner" (req.target.query.getD []) = [owner.toList]
  named : owner ≠ ""

/-- The response is a list of events as JSON, and these are the events of the owner that are stored and
start in the window, each once. -/
structure ShowsWindow (r : Response) (s : Store) (owner : String) (w : Window) : Prop where
  status : r.status = 200
  contentType : r.contentType = some "application/json"
  body : ∃ es, Event.listOfJson (encode r.body) = .ok es ∧ (es.map Event.id).Nodup ∧
    ∀ e, e ∈ es ↔ e ∈ s.events ∧ e.owner = owner ∧ w.start ≤ e.startDate ∧ e.startDate < w.stop

theorem Unspoilt.view (hu : Unspoilt s) {req : Request} {v : View} {owner : String} {w : Window}
    (fresh : String) (hreq : AsksFor req v owner) (hw : v.window? now = some w) :
    ∃ r, Router.handle? fresh now req s.backend = some (r, s.backend) ∧
      ShowsWindow r s.backend.store owner w := by
  have hb : s.backend = .reliable s.backend.store := by
    rw [Backend.reliable, ← hu.reliable]
  have hsub := s.backend.store.sublist_period owner w.start w.stop
  obtain ⟨hstatus, htype, hbody⟩ := eventsResponse_eq fun e he =>
    (hu.stored e (hsub.subset he)).writable
  refine ⟨_, ?_, hstatus, htype, _, hbody, ?_, fun e => Store.mem_period⟩
  · rw [hb]
    exact Router.handle?_view _ fresh hreq.path hreq.query hreq.named hw
  · exact s.backend.store.distinct.sublist (hsub.map Event.id)

theorem Unspoilt.dispatch (hu : Unspoilt s) (accepts : Event → Bool) (now : Instant) :
    ∃ d, Reminders.dispatch accepts now s.backend = .ok d ∧
      List.Forall₂ Shows d.messages.reverse (dueEvents now s.backend.store.events) := by
  have hlist : s.backend.fault .list = none := by rw [hu.reliable]
  have hd := dispatch_of_no_fault accepts now hlist
  refine ⟨_, hd, ?_⟩
  rw [dispatch_messages hd]
  exact forall₂_publish accepts fun e he => hu.stored e (List.mem_of_mem_filter he)

/-- **No bytes spoil the store.** Whatever requests and messages have come, and whatever jobs have
done or are doing: all that is stored can be written, as JSON and as a row; every view that has a window
shows what is stored; and a dispatch can publish every event that is due, as can one on its way. -/
theorem unspoilt_serves (h : Reachable s) :
    (∀ e ∈ s.backend.store.events, e.Kept ∧ (∃ cs, e.toJson? = some cs) ∧
      ∃ n : Int64, Relational.storedNanos e = .ok n ∧ n.toInt = e.duration.nanos) ∧
    (∀ req v owner now w fresh, AsksFor req v owner → v.window? now = some w →
      ∃ r, Router.handle? fresh now req s.backend = some (r, s.backend) ∧
        ShowsWindow r s.backend.store owner w) ∧
    (∀ accepts now, ∃ d, Reminders.dispatch accepts now s.backend = .ok d ∧
      List.Forall₂ Shows d.messages.reverse (dueEvents now s.backend.store.events)) ∧
    ∀ j ∈ s.jobs, ∀ e ∈ j.listed, ∃ cs, e.toJson? = some cs := by
  have hu := h.unspoilt
  refine ⟨fun e he => ?_, fun req v owner now w fresh hreq hw => hu.view fresh hreq hw, hu.dispatch,
    fun j hj e he => (hu.listed j hj e he).writable⟩
  have hkept := hu.stored e he
  exact ⟨hkept, hkept.writable, hkept.storedNanos⟩

/-- A request for the day of an owner, `/getDay?owner=ada`. -/
def dayRequest : Request := ⟨"GET", ⟨encode "/getDay".toList, some (encode "owner=ada".toList)⟩, []⟩

/-- The store with the visit of a first request. -/
def visitStore : Store := ⟨[{ Router.visit with id := "a1" }], by decide⟩

/-- The visit is created by a request. -/
theorem reachable_visit : Reachable (start (.reliable visitStore)) := by
  have hr : Router.visitRequest.Is "POST" "/create" := ⟨rfl, rfl⟩
  have hcreate := createEvent_eq_ok.2 ⟨Router.visit, by decide +kernel, Router.ofJson_visit,
    by decide, (rfl : (Backend.reliable .empty).create (Router.visit.accepted "a1") =
      .ok (.reliable visitStore)), rfl⟩
  have hh : Router.handle? "a1" Router.visit.startDate Router.visitRequest (.reliable .empty) = _ :=
    Router.handle?_create hr (by decide +kernel)
  rw [hcreate] at hh
  exact .single (.request "a1" (by decide) Router.visit.startDate Router.visitRequest hh)

theorem unspoilt_serves_visit : ∃ r w, View.day.window? Router.visit.startDate = some w ∧
    Router.handle? "" Router.visit.startDate dayRequest (.reliable visitStore) =
      some (r, .reliable visitStore) ∧
    ShowsWindow r visitStore "ada" w ∧
    ∃ d, Reminders.dispatch (fun _ => true) Router.visit.startDate (.reliable visitStore) = .ok d ∧
      d.messages.length = 1 := by
  obtain ⟨-, hview, hdispatch, -⟩ := unspoilt_serves reachable_visit
  have hasks : AsksFor dayRequest .day "ada" := ⟨⟨rfl, rfl⟩, by decide +kernel, by decide⟩
  obtain ⟨w, hw⟩ : ∃ w, View.day.window? Router.visit.startDate = some w :=
    ⟨_, Option.some_get (by decide +kernel) |>.symm⟩
  obtain ⟨r, hh, hshows⟩ := hview dayRequest .day "ada" Router.visit.startDate w "" hasks hw
  obtain ⟨d, hd, hmessages⟩ := hdispatch (fun _ => true) Router.visit.startDate
  refine ⟨r, w, hw, hh, hshows, d, hd, ?_⟩
  have hlen := hmessages.length_eq
  rw [List.length_reverse] at hlen
  rw [hlen]
  decide +kernel

end Agenda.Concurrent
