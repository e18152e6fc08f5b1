import Agenda.Proofs.Concurrent.Sent
import Agenda.Proofs.Concurrent.Alone
import Agenda.Proofs.Time.Instant
import Mathlib.Data.List.Perm.Subperm

/-!
# A purge and a dispatch at the same time

Both jobs follow one schedule, so they begin together and work on one store, each on its own listing.
Their steps may come in any order: a purge deletes events that the dispatch has listed and marks later,
and lists events that the dispatch has marked.

* `Pair.Step`, `Pair.Run`: one purge and one dispatch, and nothing else.
* `Partial`: what the store holds while they run. An event is gone once the purge has come to it, and
  marked once the dispatch has; `Partial.step` keeps this.
* `confluent`: every order of the steps ends, and leaves the same store.
-/
namespace Agenda.Concurrent

open Reminders Retention

/-! ## The jobs -/

/-- When the jobs take place, and the events whose messages the broker takes. -/
structure Plan where
  purgeAt : Instant
  dispatchAt : Instant
  accepts : Event → Bool

/-- What the broker does follows the plan. -/
def Plan.Allows (plan : Plan) : Occurrence → Prop
  | .published e _ => plan.accepts e = true
  | .unsent e => ¬ Delivers plan.accepts e
  | _ => True

/-- One purge and one dispatch on a store; a job that is yet to begin is `none`. -/
structure Pair where
  backend : Backend
  purge : Option Job
  dispatch : Option Job

namespace Pair

/-- Neither job has begun. -/
def start (st : Store) : Pair := ⟨.reliable st, none, none⟩

/-- Both jobs have come to the end of their listings. -/
def Ended (plan : Plan) (p : Pair) : Prop :=
  p.purge = some (.deleting plan.purgeAt []) ∧ p.dispatch = some (.publishing [])

/-- A job lists the events, in any order, or takes its next step; neither is cancelled. -/
inductive Step (plan : Plan) : Pair → Occurrence → Pair → Prop where
  | listExpired {p : Pair} {es listing : List Event} (hn : p.purge = none)
      (hl : p.backend.list = .ok es) (hp : listing.Perm es) :
      Step plan p .listed
        { p with purge := some (.deleting plan.purgeAt (expired plan.purgeAt listing)) }
  | listDue {p : Pair} {es listing : List Event} (hn : p.dispatch = none)
      (hl : p.backend.list = .ok es) (hp : listing.Perm es) :
      Step plan p .listed
        { p with dispatch := some (.publishing (dueEvents plan.dispatchAt listing)) }
  | purge {p : Pair} {j j' : Job} {o : Occurrence} {b : Backend} (hj : p.purge = some j)
      (h : JobStep p.backend j o b j') (hc : j' ≠ .cancelled) :
      Step plan p o { p with backend := b, purge := some j' }
  | dispatch {p : Pair} {j j' : Job} {o : Occurrence} {b : Backend} (hj : p.dispatch = some j)
      (h : JobStep p.backend j o b j') (hc : j' ≠ .cancelled) (ho : plan.Allows o) :
      Step plan p o { p with backend := b, dispatch := some j' }

/-- Steps one after the other, with what has occurred. -/
inductive Run (plan : Plan) : Pair → List Occurrence → Pair → Prop where
  | nil (p : Pair) : Run plan p [] p
  | concat {p p' p'' : Pair} {os : List Occurrence} {o : Occurrence} :
      Run plan p os p' → Step plan p' o p'' → Run plan p (os ++ [o]) p''

end Pair

/-! ## How far the jobs have come -/

variable {plan : Plan} {st : Store} {p p' : Pair} {j : Job} {o : Occurrence} {e f x : Event}
  {id : String} {purge dispatch : Option Job} {b : Backend} {due : List Event}

/-- The events that a purge has still to delete. -/
def Job.condemned : Job → List Event
  | deleting _ es => es
  | publishing _ | marking _ _ | cancelled => []

namespace Plan

/-- The event is expired, and the purge has come to it. -/
def Gone (plan : Plan) (purge : Option Job) (e : Event) : Prop :=
  e.startDate < threshold plan.purgeAt ∧ ∃ j ∈ purge, e.id ∉ j.condemned.map Event.id

instance (plan : Plan) (purge : Option Job) (e : Event) : Decidable (plan.Gone purge e) :=
  inferInstanceAs (Decidable (_ ∧ _))

/-- The event is due and delivered, whenever that is. -/
def Reminds (plan : Plan) (e : Event) : Prop :=
  e.IsDue plan.dispatchAt ∧ Delivers plan.accepts e

instance (plan : Plan) (e : Event) : Decidable (plan.Reminds e) :=
  inferInstanceAs (Decidable (_ ∧ _))

/-- The event is due and delivered, and the dispatch has come to it. -/
def Marked (plan : Plan) (dispatch : Option Job) (e : Event) : Prop :=
  plan.Reminds e ∧ ∃ j ∈ dispatch, e ∉ j.listed

instance (plan : Plan) (dispatch : Option Job) (e : Event) : Decidable (plan.Marked dispatch e) :=
  inferInstanceAs (Decidable (_ ∧ _))

/-- An event of the store at the beginning, as it is now if it is still there. -/
def version (plan : Plan) (dispatch : Option Job) (e : Event) : Event :=
  if plan.Marked dispatch e then { e with isSent := true } else e

theorem version_id : (plan.version dispatch e).id = e.id := by
  unfold version
  split <;> rfl

theorem version_startDate : (plan.version dispatch e).startDate = e.startDate := by
  unfold version
  split <;> rfl

theorem version_of_not_marked (h : ¬ plan.Marked dispatch e) : plan.version dispatch e = e :=
  if_neg h

theorem not_gone_none : ¬ plan.Gone none e := by simp [Gone]

theorem not_marked_none : ¬ plan.Marked none e := by simp [Marked]

theorem gone_some_iff : plan.Gone (some j) e ↔
    e.startDate < threshold plan.purgeAt ∧ e.id ∉ j.condemned.map Event.id := by simp [Gone]

theorem marked_some_iff : plan.Marked (some j) e ↔ plan.Reminds e ∧ e ∉ j.listed := by
  simp [Marked]

end Plan

/-- A purge on its way: it has still to delete events that are expired, each of them once. -/
structure Purging (plan : Plan) (st : Store) (j : Job) : Prop where
  deleting : j = .deleting plan.purgeAt j.condemned
  nodup : (j.condemned.map Event.id).Nodup
  expired : ∀ x ∈ j.condemned, ∃ e ∈ st.events, e.id = x.id ∧ e.startDate < threshold plan.purgeAt

/-- A dispatch on its way: it has still to come to events that are due, each of them once, and marks
an event only if it is delivered. -/
structure Dispatching (plan : Plan) (st : Store) (j : Job) : Prop where
  shape : j = .publishing j.listed ∨
    ∃ x due, j = .marking x due ∧ Delivers plan.accepts x
  nodup : (j.listed.map Event.id).Nodup
  due : ∀ x ∈ j.listed, x ∈ st.events ∧ x.IsDue plan.dispatchAt

/-- What the store holds while the jobs run: the events that the purge has not come to, and of these
as marked the ones that the dispatch has come to. -/
structure Partial (plan : Plan) (st : Store) (p : Pair) : Prop where
  fault : p.backend.fault = fun _ => none
  purge : ∀ j ∈ p.purge, Purging plan st j
  dispatch : ∀ j ∈ p.dispatch, Dispatching plan st j
  view : ∀ id, p.backend.store.find? id =
    ((st.find? id).filter fun e => ¬ plan.Gone p.purge e).map (plan.version p.dispatch)

theorem Partial.start (plan : Plan) (st : Store) : Partial plan st (Pair.start st) where
  fault := rfl
  purge := by intro j hj; cases hj
  dispatch := by intro j hj; cases hj
  view := by
    intro id
    have hv : plan.version none = fun e => e := by
      funext e
      exact Plan.version_of_not_marked Plan.not_marked_none
    show st.find? id = _
    cases st.find? id <;> simp [Pair.start, Option.filter_some, Plan.not_gone_none, hv]

theorem Partial.mem_events (hi : Partial plan st p) : f ∈ p.backend.store.events ↔
    ∃ e ∈ st.events, ¬ plan.Gone p.purge e ∧ plan.version p.dispatch e = f := by
  constructor
  · intro hf
    have hv := hi.view f.id
    rw [Store.find?_of_mem hf, eq_comm, Option.map_eq_some_iff] at hv
    obtain ⟨e, he, hef⟩ := hv
    rw [Option.filter_eq_some_iff] at he
    exact ⟨e, Store.mem_of_find? he.1, by simpa using he.2, hef⟩
  · rintro ⟨e, he, hg, rfl⟩
    have hv := hi.view e.id
    rw [Store.find?_of_mem he, Option.filter_some, if_pos (by simpa using hg), Option.map_some] at hv
    exact Store.mem_of_find? hv

/-- A change of the jobs alone leaves the store as it should be if it moves no event past a job. -/
theorem Partial.view_congr (hi : Partial plan st p)
    (hg : ∀ e ∈ st.events, plan.Gone purge e ↔ plan.Gone p.purge e)
    (hm : ∀ e ∈ st.events, ¬ plan.Gone p.purge e →
      (plan.Marked dispatch e ↔ plan.Marked p.dispatch e))
    (id : String) : p.backend.store.find? id =
      ((st.find? id).filter fun e => ¬ plan.Gone purge e).map (plan.version dispatch) := by
  rw [hi.view id]
  cases he : st.find? id with
  | none => rfl
  | some e =>
    have hmem := Store.mem_of_find? he
    by_cases hgone : plan.Gone p.purge e
    · simp [Option.filter_some, hgone, hg e hmem]
    · simp [Option.filter_some, hgone, hg e hmem, Plan.version, hm e hmem hgone]

/-! ### Listings -/

theorem Partial.list_ok (hi : Partial plan st p) : p.backend.list = .ok p.backend.store.events := by
  exact Backend.list_of_no_fault (by rw [hi.fault])

/-- A purge that begins finds every expired event, whatever has been marked. -/
theorem Partial.mem_expired (hi : Partial plan st p) (hn : p.purge = none) {listing : List Event}
    (hp : listing.Perm p.backend.store.events) :
    id ∈ (expired plan.purgeAt listing).map Event.id ↔
      id ∈ (expired plan.purgeAt st.events).map Event.id := by
  simp only [expired, List.mem_map, List.mem_filter, decide_eq_true_eq, hp.mem_iff, hi.mem_events,
    hn]
  constructor
  · rintro ⟨f, ⟨⟨e, he, -, rfl⟩, hlt⟩, rfl⟩
    rw [Plan.version_startDate] at hlt
    exact ⟨e, ⟨he, hlt⟩, Plan.version_id.symm⟩
  · rintro ⟨e, ⟨he, hlt⟩, rfl⟩
    refine ⟨plan.version p.dispatch e, ⟨⟨e, he, Plan.not_gone_none, rfl⟩, ?_⟩, Plan.version_id⟩
    rwa [Plan.version_startDate]

theorem nodup_ids_of_perm {listing : List Event} (hp : listing.Perm b.store.events)
    {q : Event → Bool} : ((listing.filter q).map Event.id).Nodup := by
  have hn : (listing.map Event.id).Nodup := (hp.map Event.id).nodup_iff.2 b.store.distinct
  exact hn.sublist (List.filter_sublist.map Event.id)

theorem Partial.listExpired (hi : Partial plan st p) (hn : p.purge = none) {listing : List Event}
    (hp : listing.Perm p.backend.store.events) :
    Partial plan st
      { p with purge := some (.deleting plan.purgeAt (Retention.expired plan.purgeAt listing)) } where
  fault := hi.fault
  dispatch := hi.dispatch
  purge := by
    intro j hj
    cases hj
    refine ⟨rfl, nodup_ids_of_perm hp, fun x hx => ?_⟩
    have hid := (hi.mem_expired hn hp).1 (List.mem_map_of_mem hx)
    obtain ⟨e, he, hid⟩ := List.mem_map.1 hid
    simp only [Retention.expired, List.mem_filter, decide_eq_true_eq] at he
    exact ⟨e, he.1, hid, he.2⟩
  view := by
    refine hi.view_congr (fun e he => ?_) fun e he hg => Iff.rfl
    rw [hn, iff_false_right Plan.not_gone_none, Plan.gone_some_iff]
    rintro ⟨hlt, hid⟩
    refine hid ((hi.mem_expired hn hp).2 (List.mem_map_of_mem ?_))
    simpa [Retention.expired] using And.intro he hlt

theorem Partial.listDue (hi : Partial plan st p) (hn : p.dispatch = none) {listing : List Event}
    (hp : listing.Perm p.backend.store.events) :
    Partial plan st
      { p with dispatch := some (.publishing (dueEvents plan.dispatchAt listing)) } where
  fault := hi.fault
  purge := hi.purge
  dispatch := by
    intro j hj
    cases hj
    refine ⟨.inl rfl, nodup_ids_of_perm hp, fun x hx => ?_⟩
    simp only [Job.listed, dueEvents, List.mem_filter, decide_eq_true_eq, hp.mem_iff, hi.mem_events,
      hn] at hx
    obtain ⟨⟨e, he, -, rfl⟩, hd⟩ := hx
    rw [Plan.version_of_not_marked Plan.not_marked_none] at hd ⊢
    exact ⟨he, hd⟩
  view := by
    refine hi.view_congr (fun e he => Iff.rfl) fun e he hg => ?_
    rw [hn, iff_false_right Plan.not_marked_none, Plan.marked_some_iff]
    rintro ⟨hr, hl⟩
    refine hl ?_
    simp only [Job.listed, dueEvents, List.mem_filter, decide_eq_true_eq, hp.mem_iff, hi.mem_events,
      hn]
    exact ⟨⟨e, he, hg, Plan.version_of_not_marked Plan.not_marked_none⟩, hr.1⟩

/-! ### Steps -/

/-- A write under one id leaves the store as it should be if that id is as it should be, and no other
event is moved past a job. -/
theorem Partial.view_update (hi : Partial plan st p) {i : String} {v : Option Event}
    (hb : b.store.find? = Function.update p.backend.store.find? i v)
    (hv : v = ((st.find? i).filter fun e => ¬ plan.Gone purge e).map (plan.version dispatch))
    (hg : ∀ e, e.id ≠ i → (plan.Gone purge e ↔ plan.Gone p.purge e))
    (hm : ∀ e, e.id ≠ i → (plan.Marked dispatch e ↔ plan.Marked p.dispatch e)) (id : String) :
    b.store.find? id =
      ((st.find? id).filter fun e => ¬ plan.Gone purge e).map (plan.version dispatch) := by
  rw [hb]
  by_cases hid : id = i
  · subst hid
    rw [Function.update_self, hv]
  · rw [Function.update_of_ne hid, hi.view id]
    cases he : st.find? id with
    | none => rfl
    | some e =>
      have hne : e.id ≠ i := by rwa [Store.id_of_find? he]
      have hversion : plan.version p.dispatch e = plan.version dispatch e := by
        simp only [Plan.version, hm e hne]
      by_cases hgone : plan.Gone p.purge e <;>
        simp [Option.filter_some, hg e hne, hgone, hversion]

/-- An event of the beginning is still stored unless the purge has come to it. -/
theorem Partial.holds_iff (hi : Partial plan st p) (he : e ∈ st.events) :
    p.backend.store.Holds e.id ↔ ¬ plan.Gone p.purge e := by
  rw [← not_iff_not, not_not, ← Store.find?_eq_none_iff, hi.view e.id, Store.find?_of_mem he]
  by_cases hg : plan.Gone p.purge e <;> simp [Option.filter_some, hg]

/-- Nothing but the purge deletes, so each of its deletions succeeds. -/
theorem Partial.purge_cases (hi : Partial plan st p) (hj : p.purge = some j) {j' : Job}
    (h : JobStep p.backend j o b j') (hc : j' ≠ .cancelled) : ∃ x es,
      j = .deleting plan.purgeAt (x :: es) ∧ j' = .deleting plan.purgeAt es ∧
      o = .purged plan.purgeAt x.id ∧ p.backend.delete x.id = .ok b := by
  have hp := hi.purge j hj
  cases h with
  | publish | fail | mark | unmarked => cases hp.deleting
  | cancel => exact absurd rfl hc
  | delete h =>
    cases hp.deleting
    exact ⟨_, _, rfl, rfl, rfl, h⟩
  | @undeleted now x es err h =>
    exfalso
    obtain ⟨e, he, hid, hlt⟩ := hp.expired x (List.mem_cons_self ..)
    have hholds : p.backend.store.Holds x.id := by
      rw [← hid, hi.holds_iff he, hj, Plan.gone_some_iff, hid]
      simp [Job.condemned]
    obtain ⟨s, hs⟩ := Store.delete_of_holds hholds
    have hok : p.backend.delete x.id = .ok { p.backend with store := s } :=
      Backend.change_of_ok (congrFun hi.fault _) hs
    rw [h] at hok
    cases hok

theorem Partial.purge_step (hi : Partial plan st p) (hj : p.purge = some j) {j' : Job}
    (h : JobStep p.backend j o b j') (hc : j' ≠ .cancelled) :
    Partial plan st { p with backend := b, purge := some j' } := by
  have hp := hi.purge j hj
  obtain ⟨x, es, rfl, rfl, -, hdel⟩ := hi.purge_cases hj h hc
  obtain ⟨hx, hes⟩ := List.nodup_cons.1 hp.nodup
  obtain ⟨e, he, hid, hlt⟩ := hp.expired x (List.mem_cons_self ..)
  obtain ⟨hb, hf⟩ := Backend.delete_ok hdel
  refine ⟨hf.trans hi.fault, ?_, hi.dispatch,
    hi.view_update hb ?_ (fun f hne => ?_) fun f _ => Iff.rfl⟩
  · intro j' hj'
    cases hj'
    exact ⟨rfl, hes, fun y hy => hp.expired y (List.mem_cons_of_mem x hy)⟩
  · have hgone : plan.Gone (some (.deleting plan.purgeAt es)) e := by
      rw [Plan.gone_some_iff, hid]
      exact ⟨hlt, hx⟩
    rw [← hid, Store.find?_of_mem he, Option.filter_some, if_neg (by simpa using hgone)]
    rfl
  · rw [hj, Plan.gone_some_iff, Plan.gone_some_iff]
    simp [Job.condemned, hne]

/-- After its first event a dispatch goes on with the others. -/
theorem Dispatching.rest (h : Dispatching plan st j) (hl : j.listed = x :: due) :
    Dispatching plan st (.publishing due) := by
  obtain ⟨-, hn, hdue⟩ := h
  rw [hl] at hn hdue
  exact ⟨.inl rfl, (List.nodup_cons.1 hn).2, fun y hy => hdue y (List.mem_cons_of_mem x hy)⟩

/-- A dispatch leaves an event as it is if it was not delivered, or if the purge has deleted it. -/
theorem Partial.pass_step (hi : Partial plan st p) (hj : p.dispatch = some j)
    (hl : j.listed = x :: due) (hx : plan.Reminds x → plan.Gone p.purge x) :
    Partial plan st { p with dispatch := some (.publishing due) } where
  fault := hi.fault
  purge := hi.purge
  dispatch := by
    intro j' hj'
    cases hj'
    exact (hi.dispatch j hj).rest hl
  view := by
    refine hi.view_congr (fun e he => Iff.rfl) fun e he hg => ?_
    have hne : plan.Reminds e → e ≠ x := by
      rintro hr rfl
      exact hg (hx hr)
    rw [hj, Plan.marked_some_iff, Plan.marked_some_iff, hl]
    simp only [Job.listed, List.mem_cons]
    tauto

/-- A message that is taken changes nothing yet, but was delivered. -/
theorem Partial.publish_step (hi : Partial plan st p)
    (hj : p.dispatch = some (.publishing (x :: due))) (hx : Delivers plan.accepts x) :
    Partial plan st { p with dispatch := some (.marking x due) } where
  fault := hi.fault
  purge := hi.purge
  dispatch := by
    intro j' hj'
    cases hj'
    have hd := hi.dispatch _ hj
    exact ⟨.inr ⟨x, due, rfl, hx⟩, hd.nodup, hd.due⟩
  view := by
    refine hi.view_congr (fun e he => Iff.rfl) fun e he hg => ?_
    rw [hj, Plan.marked_some_iff, Plan.marked_some_iff]
    rfl

theorem Partial.mark_step (hi : Partial plan st p) (hj : p.dispatch = some (.marking x due))
    (h : mark x p.backend = .ok b) :
    Partial plan st { p with backend := b, dispatch := some (.publishing due) } := by
  have hd := hi.dispatch _ hj
  obtain ⟨hx, -⟩ := List.nodup_cons.1 hd.nodup
  obtain ⟨hmem, hdue⟩ := hd.due x (List.mem_cons_self ..)
  have hdel : Delivers plan.accepts x := by
    obtain h | ⟨y, due, h, hdel⟩ := hd.shape <;> cases h
    exact hdel
  have hgone : ¬ plan.Gone p.purge x := (hi.holds_iff hmem).1 (mark_ok_iff.1 ⟨b, h⟩).2
  have hmarked : plan.Marked (some (.publishing due)) x := by
    rw [Plan.marked_some_iff]
    exact ⟨⟨hdue, hdel⟩, fun hin => hx (List.mem_map_of_mem hin)⟩
  refine ⟨(Backend.update_ok h).2.trans hi.fault, hi.purge, ?_,
    hi.view_update (mark_find? h) ?_ (fun _ _ => Iff.rfl) fun e he => ?_⟩
  · intro j' hj'
    cases hj'
    exact hd.rest rfl
  · rw [Store.find?_of_mem hmem, Option.filter_some, if_pos (by simpa using hgone),
      Option.map_some, Plan.version, if_pos hmarked]
  · have hne : e ≠ x := fun hex => he (congrArg Event.id hex)
    rw [hj, Plan.marked_some_iff, Plan.marked_some_iff]
    simp [Job.listed, hne]

/-- A mark is refused only if the purge has deleted the event. -/
theorem Partial.gone_of_unmarked (hi : Partial plan st p) (he : e ∈ st.events) {err : StoreError}
    (h : mark e p.backend = .error err) : plan.Gone p.purge e := by
  by_contra hg
  obtain ⟨b, hok⟩ := mark_ok_iff.2 ⟨congrFun hi.fault _, (hi.holds_iff he).2 hg⟩
  rw [h] at hok
  cases hok

theorem Partial.dispatch_step (hi : Partial plan st p) (hj : p.dispatch = some j) {j' : Job}
    (h : JobStep p.backend j o b j') (hc : j' ≠ .cancelled) (ho : plan.Allows o) :
    Partial plan st { p with backend := b, dispatch := some j' } := by
  have hd := hi.dispatch j hj
  cases h with
  | delete | undeleted => obtain h | ⟨x, due, h, -⟩ := hd.shape <;> cases h
  | cancel => exact absurd rfl hc
  | publish h =>
    obtain ⟨payload, hpay, -⟩ := publish_eq_some.1 h
    exact hi.publish_step hj ⟨ho, by rw [hpay]; rfl⟩
  | fail => exact hi.pass_step hj rfl fun hr => absurd hr.2 ho
  | mark h => exact hi.mark_step hj h
  | unmarked h =>
    obtain ⟨hmem, -⟩ := hd.due _ (List.mem_cons_self ..)
    exact hi.pass_step hj rfl fun _ => hi.gone_of_unmarked hmem h

theorem Partial.step (hi : Partial plan st p) (h : Pair.Step plan p o p') : Partial plan st p' := by
  cases h with
  | listExpired hn hl hp =>
    rw [hi.list_ok] at hl
    cases hl
    exact hi.listExpired hn hp
  | listDue hn hl hp =>
    rw [hi.list_ok] at hl
    cases hl
    exact hi.listDue hn hp
  | purge hj h hc => exact hi.purge_step hj h hc
  | dispatch hj h hc ho => exact hi.dispatch_step hj h hc ho

/-! ## Every order of the steps ends -/

/-- How many steps a job may still take. -/
def Job.work : Job → Nat
  | publishing due => 2 * due.length
  | marking _ due => 2 * due.length + 1
  | deleting _ es => es.length
  | cancelled => 0

theorem JobStep.work_lt {b b' : Backend} {j' : Job} (h : JobStep b j o b' j')
    (hc : j' ≠ .cancelled) : j'.work < j.work := by
  cases h with
  | cancel => exact absurd rfl hc
  | publish | fail | mark | unmarked | delete | undeleted =>
    simp only [Job.work, List.length_cons]
    omega

namespace Pair

/-- How many steps the jobs may still take; a job that has not begun may list all events. -/
def work (st : Store) (p : Pair) : Nat :=
  (p.purge.elim (st.events.length + 1) Job.work) +
    p.dispatch.elim (2 * st.events.length + 1) Job.work

/-- How many events the purge has still to delete. -/
def toDelete (plan : Plan) (st : Store) (p : Pair) : Nat :=
  p.purge.elim (expired plan.purgeAt st.events).length fun j => j.condemned.length

end Pair

theorem Dispatching.length_le (h : Dispatching plan st j) : j.listed.length ≤ st.events.length :=
  (List.subperm_of_subset (h.nodup.of_map _) fun x hx => (h.due x hx).1).length_le

theorem Partial.length_expired (hi : Partial plan st p) (hn : p.purge = none) {listing : List Event}
    (hp : listing.Perm p.backend.store.events) :
    (expired plan.purgeAt listing).length = (expired plan.purgeAt st.events).length := by
  have hids : ((expired plan.purgeAt listing).map Event.id).Perm
      ((expired plan.purgeAt st.events).map Event.id) := by
    refine (List.perm_ext_iff_of_nodup (nodup_ids_of_perm hp) ?_).2 fun id => hi.mem_expired hn hp
    exact nodup_ids_of_perm (b := .reliable st) (.refl _)
  simpa using hids.length_eq

theorem Partial.work_lt (hi : Partial plan st p) (h : Pair.Step plan p o p') :
    p'.work st < p.work st := by
  cases h with
  | listExpired hn hl hp =>
    rw [hi.list_ok] at hl
    cases hl
    have hlen := hi.length_expired hn hp
    have hle : (expired plan.purgeAt st.events).length ≤ st.events.length :=
      List.length_filter_le ..
    simp only [Pair.work, hn, Option.elim_none, Option.elim_some, Job.work]
    omega
  | listDue hn hl hp =>
    rw [hi.list_ok] at hl
    cases hl
    have hle := ((hi.listDue hn hp).dispatch _ rfl).length_le
    simp only [Job.listed] at hle
    simp only [Pair.work, hn, Option.elim_none, Option.elim_some, Job.work]
    omega
  | purge hj h hc =>
    have hlt := h.work_lt hc
    simp only [Pair.work, hj, Option.elim_some]
    omega
  | dispatch hj h hc ho =>
    have hlt := h.work_lt hc
    simp only [Pair.work, hj, Option.elim_some]
    omega

/-- What the purge deletes in a step is one less to delete. -/
theorem Partial.toDelete_step (hi : Partial plan st p) (h : Pair.Step plan p o p') :
    ([o].filterMap Occurrence.purge?).length + p'.toDelete plan st = p.toDelete plan st := by
  cases h with
  | listExpired hn hl hp =>
    rw [hi.list_ok] at hl
    cases hl
    have hlen := hi.length_expired hn hp
    simp [Pair.toDelete, hn, Occurrence.purge?, Job.condemned, hlen]
  | listDue hn hl hp => simp [Pair.toDelete, Occurrence.purge?]
  | purge hj h hc =>
    obtain ⟨x, es, rfl, rfl, rfl, -⟩ := hi.purge_cases hj h hc
    simp only [Pair.toDelete, hj, Option.elim_some, Job.condemned, List.length_cons]
    simp [Occurrence.purge?]
    omega
  | dispatch hj h hc ho =>
    have hd := hi.dispatch _ hj
    have hnone : o.purge? = none := by
      cases h with
      | delete => obtain h | ⟨x, due, h, -⟩ := hd.shape <;> cases h
      | publish | fail | mark | unmarked | undeleted | cancel => rfl
    simp [Pair.toDelete, hnone]

/-- A purge with events left can go on. -/
theorem Partial.purge_progress (hi : Partial plan st p) (hj : p.purge = some j)
    (hne : j.condemned ≠ []) : ∃ o p', Pair.Step plan p o p' := by
  obtain ⟨x, es, hes⟩ := List.exists_cons_of_ne_nil hne
  rw [(hi.purge j hj).deleting, hes] at hj
  cases hdel : p.backend.delete x.id with
  | ok b => exact ⟨_, _, .purge hj (.delete hdel) nofun⟩
  | error err => exact ⟨_, _, .purge hj (.undeleted hdel) nofun⟩

/-- A dispatch that has not come to its end can go on. -/
theorem Partial.dispatch_progress (hi : Partial plan st p) (hj : p.dispatch = some j)
    (hne : j ≠ .publishing []) : ∃ o p', Pair.Step plan p o p' := by
  obtain h | ⟨x, due, rfl, -⟩ := (hi.dispatch j hj).shape
  · have hl : j.listed ≠ [] := fun hl => hne (by rw [h, hl])
    obtain ⟨x, due, hl⟩ := List.exists_cons_of_ne_nil hl
    rw [h, hl] at hj
    by_cases hx : Delivers plan.accepts x
    · obtain ⟨payload, hpay⟩ := Option.isSome_iff_exists.1 hx.2
      have hpub : publish (fun _ => true) x = some ⟨x.id, payload, true⟩ :=
        publish_eq_some.2 ⟨payload, hpay, rfl⟩
      exact ⟨_, _, .dispatch hj (.publish hpub) nofun hx.1⟩
    · exact ⟨_, _, .dispatch hj .fail nofun hx⟩
  · cases hm : mark x p.backend with
    | ok b => exact ⟨_, _, .dispatch hj (.mark hm) nofun trivial⟩
    | error err => exact ⟨_, _, .dispatch hj (.unmarked hm) nofun trivial⟩

/-- Until both jobs have come to their end, one of them can go on. -/
theorem Partial.progress (hi : Partial plan st p) (hn : ¬ p.Ended plan) :
    ∃ o p', Pair.Step plan p o p' := by
  cases hp : p.purge with
  | none => exact ⟨_, _, .listExpired hp hi.list_ok (.refl _)⟩
  | some j =>
    by_cases hes : j.condemned = []
    · cases hd : p.dispatch with
      | none => exact ⟨_, _, .listDue hd hi.list_ok (.refl _)⟩
      | some j' =>
        refine hi.dispatch_progress hd fun hj' => hn ⟨?_, by rw [hd, hj']⟩
        rw [hp, (hi.purge j hp).deleting, hes]
    · exact hi.purge_progress hp hes

theorem Pair.Run.invariant {trace : List Occurrence} (h : Pair.Run plan (Pair.start st) trace p) :
    Partial plan st p ∧ trace.length + p.work st ≤ 3 * st.events.length + 2 ∧
    (trace.filterMap Occurrence.purge?).length + p.toDelete plan st =
      (expired plan.purgeAt st.events).length := by
  induction h with
  | nil =>
    refine ⟨.start plan st, ?_, ?_⟩
    · simp only [Pair.work, Pair.start, List.length_nil, Option.elim_none]
      omega
    · simp [Pair.toDelete, Pair.start]
  | concat _ hstep ih =>
    obtain ⟨hi, hwork, hcount⟩ := ih
    have hlt := hi.work_lt hstep
    have hdel := hi.toDelete_step hstep
    refine ⟨hi.step hstep, ?_, ?_⟩
    · rw [List.length_append, List.length_singleton]
      omega
    · rw [List.filterMap_append, List.length_append]
      omega

/-! ## The outcome -/

/-- The events that are not expired, the ones that are due and delivered as marked. -/
def Plan.outcome (plan : Plan) (st : Store) : List Event :=
  (st.events.filter fun e => threshold plan.purgeAt ≤ e.startDate).map fun e =>
    if plan.Reminds e then { e with isSent := true } else e

theorem Partial.perm_outcome (hi : Partial plan st p) (he : p.Ended plan) :
    p.backend.store.events.Perm (plan.outcome st) := by
  have hgone (e : Event) : ¬ plan.Gone p.purge e ↔ threshold plan.purgeAt ≤ e.startDate := by
    rw [he.1, Plan.gone_some_iff, ← Instant.not_lt]
    simp [Job.condemned]
  have hversion : plan.version p.dispatch =
      fun e => if plan.Reminds e then { e with isSent := true } else e := by
    funext e
    have hmarked : plan.Marked p.dispatch e ↔ plan.Reminds e := by
      rw [he.2, Plan.marked_some_iff]
      simp [Job.listed]
    simp only [Plan.version, hmarked]
  have hids : (plan.outcome st).map Event.id =
      (st.events.filter fun e => threshold plan.purgeAt ≤ e.startDate).map Event.id := by
    rw [Plan.outcome, List.map_map]
    refine List.map_congr_left fun e _ => ?_
    simp only [Function.comp_apply]
    split <;> rfl
  have hnodup : (plan.outcome st).Nodup := by
    refine List.Nodup.of_map Event.id ?_
    rw [hids]
    exact nodup_ids_of_perm (b := .reliable st) (.refl _)
  rw [List.perm_ext_iff_of_nodup (p.backend.store.distinct.of_map) hnodup]
  intro f
  rw [hi.mem_events, hversion]
  simp only [Plan.outcome, List.mem_map, List.mem_filter, decide_eq_true_eq, hgone, and_assoc]

/-- **Confluence.** However the steps of a purge and a dispatch interleave, they come to an end; then
the store holds the events that are not expired, those that were due and delivered marked as sent, and
the purge has deleted as many events as were expired at the beginning. -/
theorem confluent {trace : List Occurrence} (h : Pair.Run plan (Pair.start st) trace p) :
    trace.length ≤ 3 * st.events.length + 2 ∧
    (p.Ended plan ∨ ∃ o p', Pair.Step plan p o p') ∧
    (p.Ended plan → p.backend.store.events.Perm (plan.outcome st) ∧
      (trace.filterMap Occurrence.purge?).length = (expired plan.purgeAt st.events).length) := by
  obtain ⟨hi, hwork, hcount⟩ := h.invariant
  refine ⟨by omega, ?_, fun he => ⟨hi.perm_outcome he, ?_⟩⟩
  · by_cases he : p.Ended plan
    · exact .inl he
    · exact .inr (hi.progress he)
  · have hzero : p.toDelete plan st = 0 := by
      rw [Pair.toDelete, he.1]
      rfl
    omega

/-- Both jobs take place when the visit starts, and every message is taken. -/
def visitPlan : Plan := ⟨visit.startDate, visit.startDate, fun _ => true⟩

def twoVisits : Store := ⟨[oldVisit, visit], by decide⟩

def oldMessage : Message := ⟨"old", oldVisit.toJson?.getD [], true⟩

/-- The old visit is purged between its message and its mark. -/
theorem twoVisits_run : Pair.Run visitPlan (Pair.start twoVisits)
    [.listed, .published oldVisit oldMessage, .listed, .purged visit.startDate "old", .idle,
      .published visit visitMessage, .marked visit]
    ⟨.reliable ⟨[{ visit with isSent := true }], by decide⟩,
      some (.deleting visit.startDate []), some (.publishing [])⟩ := by
  have h₀ : Pair.Run visitPlan (Pair.start twoVisits) [] (Pair.start twoVisits) := .nil _
  have h₁ := h₀.concat (.listDue rfl rfl (.refl _))
  have h₂ := h₁.concat (.dispatch (j := .publishing [oldVisit, visit]) (by rfl)
    (.publish (m := oldMessage) (by rfl)) nofun rfl)
  have h₃ := h₂.concat (.listExpired rfl rfl (.refl _))
  have hdeleted : (Backend.reliable twoVisits).delete "old" =
      .ok (.reliable ⟨[visit], by decide⟩) := by rfl
  have h₄ := h₃.concat (.purge (j := .deleting visit.startDate [oldVisit]) (by rfl)
    (.delete hdeleted) nofun)
  have hrefused : mark oldVisit (.reliable ⟨[visit], by decide⟩) = .error (.notFound "old") := by rfl
  have h₅ := h₄.concat (.dispatch (j := .marking oldVisit [visit]) rfl (.unmarked hrefused) nofun
    trivial)
  have h₆ := h₅.concat (.dispatch (j := .publishing [visit]) rfl
    (.publish (m := visitMessage) (by rfl)) nofun rfl)
  have hmarked : mark visit (.reliable ⟨[visit], by decide⟩) =
      .ok (.reliable ⟨[{ visit with isSent := true }], by decide⟩) := by rfl
  exact h₆.concat (.dispatch rfl (.mark hmarked) nofun trivial)

theorem confluent_twoVisits : ∃ trace p, Pair.Run visitPlan (Pair.start twoVisits) trace p ∧
    p.Ended visitPlan ∧ p.backend.store.events.Perm (visitPlan.outcome twoVisits) ∧
    (trace.filterMap Occurrence.purge?).length =
      (expired visitPlan.purgeAt twoVisits.events).length := by
  obtain ⟨-, -, hend⟩ := confluent twoVisits_run
  exact ⟨_, _, twoVisits_run, ⟨rfl, rfl⟩, hend ⟨rfl, rfl⟩⟩

end Agenda.Concurrent
