import Agenda.Proofs.Concurrent.System

/-!
# What is marked was sent

A dispatch marks an event only after the broker has taken its message, and it lists only events whose
reminder is pending. So whatever calls, purges and other dispatches do in between, and wherever a job
is cancelled, an event that is stored as sent is one whose message was taken.

* `Accounted`: the jobs in flight and the marks of the past are accounted for by messages that were
  taken. `Accounted.step`, `Run.accounted`: it holds after every run.
* `sent_was_delivered`: every event that is stored as sent was delivered.
-/
namespace Agenda.Concurrent

open Reminders

variable {s s' : State} {b b' : Backend} {j j' : Job} {o : Occurrence} {e : Event}

/-- The broker has taken the message of the event. -/
def Delivered (trace : List Occurrence) (e : Event) : Prop :=
  ∃ m, publish (fun _ => true) e = some m ∧ .published e m ∈ trace

theorem Delivered.append {trace : List Occurrence} (h : Delivered trace e) (os : List Occurrence) :
    Delivered (trace ++ os) e := by
  obtain ⟨m, hm, hp⟩ := h
  exact ⟨m, hm, List.mem_append_left os hp⟩

/-! ## What a step of a job can do -/

/-- The events that a dispatch has still to publish or to mark. -/
def Job.listed : Job → List Event
  | publishing due => due
  | marking e due => e :: due
  | deleting _ _ | cancelled => []

theorem JobStep.listed_subset (h : JobStep b j o b' j') : j'.listed ⊆ j.listed := by
  cases h with
  | publish | delete | undeleted => exact List.Subset.refl _
  | fail | mark | unmarked => exact List.subset_cons_self _ _
  | cancel => exact List.nil_subset _

/-- A dispatch is about to mark an event only once its message was taken. -/
theorem JobStep.marking {due : List Event} (h : JobStep b j o b' (.marking e due)) :
    ∃ m, Reminders.publish (fun _ => true) e = some m ∧ o = .published e m := by
  cases h with
  | publish h => exact ⟨_, h, rfl⟩

theorem JobStep.marked (h : JobStep b j (.marked e) b' j') : ∃ due, j = .marking e due := by
  cases h with
  | mark => exact ⟨_, rfl⟩

/-- A call that has changed an event was performed on the store, and the jobs do not notice. -/
theorem Step.called {ch : Change} (h : Step s (.called ch) s') :
    ∃ c b, Call.perform s.backend c = some (ch, b) ∧ s' = { s with backend := b } := by
  cases h with
  | call c h => exact ⟨c, _, h, rfl⟩
  | job _ h => cases h

theorem Step.marked (h : Step s (.marked e) s') : ∃ due, .marking e due ∈ s.jobs := by
  cases h with
  | job hj h =>
    obtain ⟨due, rfl⟩ := h.marked
    exact ⟨due, List.mem_of_getElem? hj⟩

/-- A job after a step was there before, has just begun, or has taken a step. -/
theorem Step.jobs (h : Step s o s') (hj' : j' ∈ s'.jobs) :
    j' ∈ s.jobs ∨
    (∃ es now listing, s.backend.list = .ok es ∧ listing.Perm es ∧
      (j' = .publishing (dueEvents now listing) ∨
        j' = .deleting now (Retention.expired now listing))) ∨
    (∃ j ∈ s.jobs, ∃ b', JobStep s.backend j o b' j') := by
  cases h with
  | call | refuse => exact .inl hj'
  | dispatch now h hp =>
    rcases List.mem_append.1 hj' with hj | hj
    · exact .inl hj
    · exact .inr (.inl ⟨_, now, _, h, hp, .inl (List.mem_singleton.1 hj)⟩)
  | purge now h hp =>
    rcases List.mem_append.1 hj' with hj | hj
    · exact .inl hj
    · exact .inr (.inl ⟨_, now, _, h, hp, .inr (List.mem_singleton.1 hj)⟩)
  | job hj h =>
    rcases List.mem_or_eq_of_mem_set hj' with hm | rfl
    · exact .inl hm
    · exact .inr (.inr ⟨_, List.mem_of_getElem? hj, _, h⟩)

/-! ## The invariant -/

/-- Jobs in flight and marks of the past are accounted for by messages that were taken. -/
structure Accounted (trace : List Occurrence) (s : State) : Prop where
  pending : ∀ j ∈ s.jobs, ∀ e ∈ j.listed, e.isSent = false
  taken : ∀ e due, .marking e due ∈ s.jobs → Delivered trace e
  marked : ∀ e, .marked e ∈ trace → e.isSent = false ∧ Delivered trace e

theorem Accounted.start (b : Backend) : Accounted [] (start b) where
  pending := by intro j hj; cases hj
  taken := by intro e due hj; cases hj
  marked := by intro e he; cases he

theorem Accounted.step {pre : List Occurrence} (hi : Accounted pre s) (h : Step s o s') :
    Accounted (pre ++ [o]) s' where
  pending := by
    intro j hj e he
    obtain hj | ⟨es, now, listing, -, -, rfl | rfl⟩ | ⟨j₀, hj₀, b', hs⟩ := h.jobs hj
    · exact hi.pending j hj e he
    · have hd : e.IsDue now := by simpa using (List.mem_filter.1 he).2
      exact hd.1
    · cases he
    · exact hi.pending j₀ hj₀ e (hs.listed_subset he)
  taken := by
    intro e due hj
    obtain hj | ⟨es, now, listing, -, -, hj | hj⟩ | ⟨j₀, -, b', hs⟩ := h.jobs hj
    · exact (hi.taken e due hj).append [o]
    · cases hj
    · cases hj
    · obtain ⟨m, hm, rfl⟩ := hs.marking
      exact ⟨m, hm, List.mem_append_right pre (List.mem_singleton.2 rfl)⟩
  marked := by
    intro e he
    rcases List.mem_append.1 he with he | he
    · obtain ⟨hs, hd⟩ := hi.marked e he
      exact ⟨hs, hd.append [o]⟩
    · rw [← List.mem_singleton.1 he] at h ⊢
      obtain ⟨due, hj⟩ := h.marked
      exact ⟨hi.pending _ hj e (List.mem_cons_self ..), (hi.taken e due hj).append _⟩

theorem Run.accounted {trace : List Occurrence} (h : Run (start b) trace s) : Accounted trace s :=
  h.trace_induction Accounted.step (Accounted.start b)

/-! ## Events that are stored as sent -/

/-- The view shows as sent only what was delivered. -/
def Truthful (trace : List Occurrence) (view : String → Option Event) : Prop :=
  ∀ id f, view id = some f → f.isSent = true →
    ∃ e, Delivered trace e ∧ e.isSent = false ∧ f = { e with isSent := true }

theorem Truthful.append {trace : List Occurrence} {view : String → Option Event}
    (h : Truthful trace view) (os : List Occurrence) : Truthful (trace ++ os) view := by
  intro id f hf hs
  obtain ⟨e, hd, he, rfl⟩ := h id f hf hs
  exact ⟨e, hd.append os, he, rfl⟩

/-- A view that is truthful stays so when an id is set to a truthful event or to none. -/
theorem Truthful.update {trace : List Occurrence} {view : String → Option Event} {id : String}
    {v : Option Event} (h : Truthful trace view)
    (hv : ∀ f ∈ v, f.isSent = true →
      ∃ e, Delivered trace e ∧ e.isSent = false ∧ f = { e with isSent := true }) :
    Truthful trace (Function.update view id v) := by
  intro i f hf hs
  by_cases hi : i = id
  · subst hi
    rw [Function.update_self] at hf
    exact hv f hf hs
  · rw [Function.update_of_ne hi] at hf
    exact h i f hf hs

theorem Truthful.step {pre : List Occurrence} (ha : Accounted pre s)
    (hi : Truthful pre s.backend.store.find?) (h : Step s o s') :
    Truthful (pre ++ [o]) s'.backend.store.find? := by
  rw [h.find?_eq]
  have hi := hi.append [o]
  cases o with
  | listed | published | unsent | idle => exact hi
  | purged now id => exact hi.update fun f hf => absurd hf (Option.not_mem_none f)
  | marked e =>
    refine hi.update fun f hf _ => ?_
    obtain ⟨hs, hd⟩ := (ha.step h).marked e (List.mem_append_right pre (List.mem_singleton.2 rfl))
    cases hf
    exact ⟨e, hd, hs, rfl⟩
  | called ch =>
    refine hi.update fun f hf hs => ?_
    obtain ⟨c, b, hc, -⟩ := h.called
    rw [Call.not_sent_perform hc hf] at hs
    cases hs

/-- **No mark without a message.** From an empty store, however calls and jobs interleave, an event
that is stored as sent is one that was delivered, with its reminder then pending. -/
theorem sent_was_delivered {fault : Operation → Option StoreError} {trace : List Occurrence}
    (h : Run (start ⟨.empty, fault⟩) trace s) {f : Event} (hf : f ∈ s.backend.store.events)
    (hs : f.isSent = true) :
    ∃ e, Delivered trace e ∧ e.isSent = false ∧ f = { e with isSent := true } := by
  have hi : Accounted trace s ∧ Truthful trace s.backend.store.find? :=
    h.trace_induction (P := fun os s => Accounted os s ∧ Truthful os s.backend.store.find?)
      (fun ⟨ha, ht⟩ hs => ⟨ha.step hs, ht.step ha hs⟩)
      ⟨.start _, fun id f hf => absurd hf (Option.not_mem_none f)⟩
  exact hi.2 f.id f (Store.find?_of_mem hf) hs

/-- The visit is created, its message is taken, and it is marked. -/
theorem visit_run : Run (start ⟨.empty, fun _ => none⟩)
    [.called (.created visit), .listed, .published visit visitMessage, .marked visit]
    ⟨⟨⟨[{ visit with isSent := true }], by decide⟩, fun _ => none⟩, [.publishing []]⟩ := by
  refine .cons (.call (.create "" visit) (b := ⟨⟨[visit], by decide⟩, fun _ => none⟩) (by rfl)) ?_
  refine .cons (.dispatch visit.startDate rfl (.refl [visit])) ?_
  refine .cons (.job (i := 0) (j := .publishing [visit]) (by rfl) (.publish (by rfl))) ?_
  exact .single (.job (i := 0) rfl (.mark rfl))

theorem sent_was_delivered_visit : ∃ trace s f,
    Run (start ⟨.empty, fun _ => none⟩) trace s ∧ f ∈ s.backend.store.events ∧ f.isSent = true ∧
    ∃ e, Delivered trace e ∧ e.isSent = false ∧ f = { e with isSent := true } :=
  ⟨_, _, _, visit_run, List.mem_singleton.2 rfl, rfl,
    sent_was_delivered visit_run (List.mem_singleton.2 rfl) rfl⟩

end Agenda.Concurrent
