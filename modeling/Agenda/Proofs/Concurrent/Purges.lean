import Agenda.Proofs.Concurrent.Edits

/-!
# Edits while a purge is on its way

A purge decides on its listing which events are expired, and deletes each of them under its id. An edit
that is accepted between the listing and the deletion is not looked at: an event that was moved to a
later start, or deleted and created anew, is deleted with the others.

* `find?_of_writes`: what is stored under an id is what was last written there.
* `Run.deleting`: a purge on its way has a part of its listing left.
* `purged_expired_iff`: a purge deletes an expired event iff what was last written since its listing,
  if anything was, is an expired event.
-/
namespace Agenda.Concurrent

open Reminders Retention

variable {s s' : State} {b b' : Backend} {j j' : Job} {o : Occurrence} {x : Event} {id : String}
  {now : Instant} {es : List Event} {i : Nat} {os : List Occurrence}

/-! ## What is written under an id -/

/-- What the occurrence writes under an id. -/
def Occurrence.writeAt? (id : String) (o : Occurrence) : Option (Option Event) :=
  o.write?.bind fun w => if w.1 = id then some w.2 else none

/-- What was written under an id, first to last; `none` stands for a deletion. -/
def writes (id : String) (trace : List Occurrence) : List (Option Event) :=
  trace.filterMap (Occurrence.writeAt? id)

theorem writes_append (os os' : List Occurrence) :
    writes id (os ++ os') = writes id os ++ writes id os' :=
  List.filterMap_append

theorem Occurrence.apply_eq (o : Occurrence) (view : String → Option Event) (id : String) :
    o.apply view id = (o.writeAt? id).getD (view id) := by
  unfold apply writeAt?
  cases o.write? with
  | none => rfl
  | some w =>
    by_cases hid : w.1 = id
    · subst hid
      simp
    · simp [hid, Function.update_of_ne (Ne.symm hid)]

/-- **Writes.** An event is stored as it was last written, or as it was before. -/
theorem find?_of_writes (h : Run s os s') (id : String) : s'.backend.store.find? id =
    (writes id os).getLast?.getD (s.backend.store.find? id) := by
  refine h.trace_induction (P := fun os t => t.backend.store.find? id =
    (writes id os).getLast?.getD (s.backend.store.find? id)) ?_ rfl
  intro pre t o t' ih hs
  rw [hs.find?_eq, Occurrence.apply_eq, ih, writes_append, List.getLast?_append]
  cases ho : o.writeAt? id <;> simp [writes, ho]

/-! ## A purge on its way -/

/-- The job is a purge at `now` that has a part of these events left, or that was cancelled. -/
def Job.Deletes (now : Instant) (es : List Event) (j : Job) : Prop :=
  j = .cancelled ∨ ∃ left, j = .deleting now left ∧ left ⊆ es

theorem Job.Deletes.step (h : j.Deletes now es) (hs : JobStep b j o b' j') : j'.Deletes now es := by
  obtain rfl | ⟨left, rfl, hsub⟩ := h
  · cases hs
    exact .inl rfl
  · cases hs with
    | cancel => exact .inl rfl
    | delete | undeleted => exact .inr ⟨_, rfl, fun x hx => hsub (List.mem_cons_of_mem _ hx)⟩

/-- A job keeps its place, and a purge its listing. -/
theorem Step.deleting (h : Step s o s') (hj : ∃ j, s.jobs[i]? = some j ∧ j.Deletes now es) :
    ∃ j, s'.jobs[i]? = some j ∧ j.Deletes now es := by
  obtain ⟨j, hget, hdel⟩ := hj
  have hi : i < s.jobs.length := (List.getElem?_eq_some_iff.1 hget).1
  cases h with
  | call | refuse => exact ⟨j, hget, hdel⟩
  | dispatch | purge => exact ⟨j, by rwa [List.getElem?_append_left hi], hdel⟩
  | @job k j₀ j' _ b hk h =>
    by_cases hik : k = i
    · subst hik
      rw [hget] at hk
      cases hk
      exact ⟨j', List.getElem?_set_self hi, hdel.step h⟩
    · exact ⟨j, by rwa [List.getElem?_set_ne hik], hdel⟩

theorem Run.deleting (h : Run s os s') (hj : s.jobs[i]? = some (.deleting now es)) :
    ∃ j, s'.jobs[i]? = some j ∧ j.Deletes now es :=
  h.trace_induction (P := fun _ t => ∃ j, t.jobs[i]? = some j ∧ j.Deletes now es)
    (fun ih hs => hs.deleting ih) ⟨_, hj, .inr ⟨es, rfl, List.Subset.refl es⟩⟩

/-- **Purges.** Whatever has happened since a purge listed the events, what it deletes is an expired
event iff nothing was written under its id since, or an expired event was written there last. -/
theorem purged_expired_iff {listing rest : List Event} {trace : List Occurrence}
    (hl : s.backend.list = .ok es) (hp : listing.Perm es)
    (hr : Run { s with jobs := s.jobs ++ [.deleting now (expired now listing)] } trace s')
    (hj : s'.jobs[s.jobs.length]? = some (.deleting now (x :: rest)))
    (hd : s'.backend.delete x.id = .ok b) :
    ∃ f, s'.backend.store.find? x.id = some f ∧
      (f.startDate < threshold now ↔
        ∀ v ∈ (writes x.id trace).getLast?, ∃ e ∈ v, e.startDate < threshold now) := by
  obtain ⟨j, hj', hdel⟩ := hr.deleting (i := s.jobs.length) (List.getElem?_concat_length ..)
  rw [hj] at hj'
  cases hj'
  have hx : x ∈ expired now listing := by
    obtain h | ⟨left, h, hsub⟩ := hdel <;> cases h
    exact hsub (List.mem_cons_self ..)
  simp only [expired, List.mem_filter, decide_eq_true_eq, hp.mem_iff, Backend.list_ok hl] at hx
  obtain ⟨f, hf⟩ := Store.holds_iff.1 (Store.delete_ok (Backend.change_ok hd).2.1).1
  refine ⟨f, hf, ?_⟩
  have hv := find?_of_writes hr x.id
  rw [hf] at hv
  cases hlast : (writes x.id trace).getLast? with
  | none =>
    rw [hlast, Option.getD_none, Store.find?_of_mem hx.1] at hv
    cases hv
    simpa using hx.2
  | some v =>
    rw [hlast, Option.getD_some] at hv
    subst hv
    simp

/-! ## An edit that a purge does not see -/

/-- The old visit, moved to the time of the visit. -/
def rescheduled : Event := { oldVisit with startDate := visit.startDate }

def beforePurge : State := start (.reliable ⟨[oldVisit], by decide⟩)

/-- The purge has listed the old visit, which was then moved. -/
def duringPurge : State :=
  ⟨.reliable ⟨[rescheduled], by decide⟩, [.deleting visit.startDate [oldVisit]]⟩

theorem rescheduled_run :
    Run { beforePurge with jobs := beforePurge.jobs ++
        [.deleting visit.startDate (expired visit.startDate [oldVisit])] }
      [.called (.updated rescheduled)] duringPurge :=
  .single (.call (.update rescheduled) (b := .reliable ⟨[rescheduled], by decide⟩) (by rfl))

theorem purged_expired_iff_rescheduled : ∃ f,
    duringPurge.backend.store.find? oldVisit.id = some f ∧
      (f.startDate < threshold visit.startDate ↔
        ∀ v ∈ (writes oldVisit.id [.called (.updated rescheduled)]).getLast?,
          ∃ e ∈ v, e.startDate < threshold visit.startDate) :=
  purged_expired_iff (s := beforePurge) (b := .reliable .empty) rfl (.refl _) rescheduled_run rfl rfl

/-- The purge deletes the visit as moved, which is not expired. -/
theorem rescheduled_purged : ∃ s s' s'' trace,
    Step beforePurge .listed s ∧ s.jobs = [.deleting visit.startDate [oldVisit]] ∧
    Run s trace s' ∧ (∀ o ∈ trace, ∃ ch, o = .called ch) ∧
    Step s' (.purged visit.startDate rescheduled.id) s'' ∧
    s'.backend.store.find? rescheduled.id = some rescheduled ∧
    ¬ rescheduled.startDate < threshold visit.startDate := by
  refine ⟨_, duringPurge, _, _, .purge visit.startDate rfl (.refl [oldVisit]), ?_, rescheduled_run,
    ?_, .job (i := 0) rfl (.delete rfl), ?_, ?_⟩
  · decide
  · intro o ho
    exact ⟨_, List.mem_singleton.1 ho⟩
  · decide
  · decide

end Agenda.Concurrent
