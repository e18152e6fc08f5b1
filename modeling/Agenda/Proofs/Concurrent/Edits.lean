import Agenda.Proofs.Concurrent.Sent

/-!
# Edits while reminders are dispatched

A dispatch marks an event by storing it as it was listed. An edit that is accepted between the listing
and the mark is overwritten: the mark brings back what the event was before, and shows as sent a
reminder that nobody has got for the event as edited. `Kept` says that this has not happened.

* `find?_of_marks`: while an event is not changed otherwise, it is as the last mark has left it.
* `Settled`: no dispatch in flight may mark another version of the event. `Settled.step` keeps it.
* `edit_kept_iff`: after an edit the event is kept iff the last mark is of the event as edited, and it
  is kept in every run iff the edit finds no other version of the event in flight.
-/
namespace Agenda.Concurrent

open Reminders

variable {s s' s₁ s₂ : State} {b b' : Backend} {j j' : Job} {o : Occurrence} {e x : Event}
  {id : String} {pre post trace : List Occurrence}

/-- The occurrence changes the event with this id, other than by a mark. -/
def Occurrence.Changes (id : String) : Occurrence → Prop
  | called ch => ch.id = id
  | purged _ id' => id' = id
  | _ => False

/-- What was marked under this id. -/
def marks (id : String) (trace : List Occurrence) : List Event :=
  (trace.filterMap Occurrence.mark?).filter fun x => x.id = id

/-- The event is stored as accepted, up to the mark, and it is marked only if it was delivered. -/
def Kept (trace : List Occurrence) (e : Event) (s : State) : Prop :=
  ∃ f, s.backend.store.find? e.id = some f ∧ { f with isSent := e.isSent } = e ∧
    (f.isSent = true → Delivered trace e)

/-- The events that a dispatch in flight may still mark. -/
def Job.mayMark : Job → List Event
  | publishing due => due.filter fun e => e.toJson?.isSome
  | marking e due => e :: due.filter fun e => e.toJson?.isSome
  | deleting _ _ | cancelled => []

/-! ## Marks -/

theorem mem_marks : x ∈ marks id trace ↔ .marked x ∈ trace ∧ x.id = id := by
  simp only [marks, List.mem_filter, List.mem_filterMap, decide_eq_true_eq]
  constructor
  · rintro ⟨⟨o, ho, hx⟩, hid⟩
    cases o with
    | marked y => cases hx; exact ⟨ho, hid⟩
    | _ => cases hx
  · rintro ⟨hx, hid⟩
    exact ⟨⟨_, hx, rfl⟩, hid⟩

theorem marks_append (os os' : List Occurrence) :
    marks id (os ++ os') = marks id os ++ marks id os' := by
  simp [marks]

/-- A step that does not change an event leaves it alone or marks it. -/
theorem Step.find?_of_mark (h : Step s o s') (hn : ¬ o.Changes id) :
    s'.backend.store.find? id =
      ((marks id [o]).getLast?.map fun x => { x with isSent := true }).or
        (s.backend.store.find? id) := by
  rw [h.find?_eq]
  cases o with
  | listed | published | unsent | idle => rfl
  | called ch => exact Function.update_of_ne (Ne.symm hn) _ _
  | purged now i => exact Function.update_of_ne (Ne.symm hn) _ _
  | marked x =>
    by_cases hx : x.id = id
    · subst hx
      simp [Occurrence.apply, Occurrence.write?, marks, Occurrence.mark?]
    · simp [Occurrence.apply, Occurrence.write?, marks, Occurrence.mark?, hx,
        Function.update_of_ne (Ne.symm hx)]

/-- **Marks.** An event that is not changed otherwise is as the last mark has left it. -/
theorem find?_of_marks (h : Run s post s') (hn : ∀ o ∈ post, ¬ o.Changes id) :
    s'.backend.store.find? id =
      ((marks id post).getLast?.map fun x => { x with isSent := true }).or
        (s.backend.store.find? id) := by
  refine h.trace_induction (P := fun os t => (∀ o ∈ os, ¬ o.Changes id) →
    t.backend.store.find? id = ((marks id os).getLast?.map fun x => { x with isSent := true }).or
      (s.backend.store.find? id)) ?_ (fun _ => rfl) hn
  intro os t o t' ih hs hos
  rw [hs.find?_of_mark (hos o (by simp)), ih fun o' ho' => hos o' (by simp [ho']), marks_append,
    List.getLast?_append]
  cases (marks id [o]).getLast? <;> rfl

/-- What an edit keeps is stored right after it. -/
theorem Step.find?_kept {ch : Change} (h : Step s (.called ch) s') (he : ch.kept? = some e) :
    s'.backend.store.find? e.id = some e := by
  have hid : ch.id = e.id := by cases ch <;> cases he <;> rfl
  rw [h.find?_eq, ← hid]
  exact (Function.update_self ..).trans he

theorem kept_iff_marks {ch : Change} (h₁ : Run (start b) pre s₁) (hc : Step s₁ (.called ch) s₂)
    (he : ch.kept? = some e) (hp : Run s₂ post s) (hn : ∀ o ∈ post, ¬ o.Changes e.id) :
    Kept (pre ++ .called ch :: post) e s ↔ ∀ x ∈ (marks e.id post).getLast?, x = e := by
  have ha := (h₁.append (.cons hc hp)).accounted
  have hv := find?_of_marks hp hn
  rw [hc.find?_kept he] at hv
  have hs : e.isSent = false := by
    obtain ⟨c, b', hcall, -⟩ := hc.called
    exact Call.not_sent_perform hcall he
  cases hl : (marks e.id post).getLast? with
  | none =>
    rw [hl] at hv
    constructor
    · intro _ x hx
      cases hx
    · intro _
      refine ⟨e, hv, rfl, fun ht => ?_⟩
      rw [hs] at ht
      cases ht
  | some x =>
    rw [hl] at hv
    have hx := mem_marks.1 (List.mem_of_getLast? hl)
    obtain ⟨hxs, hd⟩ := ha.marked x (List.mem_append_right pre (List.mem_cons_of_mem _ hx.1))
    constructor
    · rintro ⟨f, hf, hfe, -⟩ y hy
      cases hy
      rw [hf] at hv
      cases hv
      rw [← hfe]
      simp only [hs, ← hxs]
    · intro hxe
      cases hxe x rfl
      exact ⟨_, hv, by simp, fun _ => hd⟩

/-! ## When no other version is in flight -/

theorem JobStep.mayMark_subset (h : JobStep b j o b' j') : j'.mayMark ⊆ j.mayMark := by
  cases h with
  | delete | undeleted => exact List.Subset.refl _
  | publish h =>
    obtain ⟨payload, hj, -⟩ := publish_eq_some.1 h
    simp only [Job.mayMark, List.filter_cons, hj, Option.isSome_some, if_true]
    exact List.Subset.refl _
  | fail => exact List.filter_subset _ (List.subset_cons_self _ _)
  | mark | unmarked => exact List.subset_cons_self _ _
  | cancel => exact List.nil_subset _

/-- The event is stored, up to the mark, and no dispatch in flight may mark another version of it. -/
structure Settled (e : Event) (s : State) : Prop where
  stored : ∃ f, s.backend.store.find? e.id = some f ∧ { f with isSent := false } = e
  inFlight : ∀ j ∈ s.jobs, ∀ x ∈ j.mayMark, x.id = e.id → x = e

/-- What a call leaves behind: the event as accepted, and the dispatches in flight. -/
theorem Settled.after {ch : Change} (hc : Step s (.called ch) s') (he : ch.kept? = some e)
    (hj : ∀ j ∈ s.jobs, ∀ x ∈ j.mayMark, x.id = e.id → x = e) : Settled e s' := by
  obtain ⟨c, b', hcall, rfl⟩ := hc.called
  have hs := Call.not_sent_perform hcall he
  exact ⟨⟨e, hc.find?_kept he, by rw [← hs]⟩, hj⟩

/-- A listing of a settled event shows the event as accepted, if its reminder is pending. -/
theorem Settled.eq_of_due (hi : Settled e s) {es : List Event} {now : Instant}
    (hl : s.backend.list = .ok es) (hx : x ∈ dueEvents now es) (hid : x.id = e.id) : x = e := by
  obtain ⟨f, hf, hfe⟩ := hi.stored
  obtain ⟨hxs, hd⟩ := List.mem_filter.1 hx
  have hp : x.isSent = false := (of_decide_eq_true hd).1
  rw [Backend.list_ok hl] at hxs
  rw [← hid, Store.find?_of_mem hxs] at hf
  cases hf
  rw [← hfe, ← hp]

theorem Settled.inFlight_step (hi : Settled e s) (h : Step s o s') :
    ∀ j ∈ s'.jobs, ∀ x ∈ j.mayMark, x.id = e.id → x = e := by
  intro j hj x hx hid
  obtain hj | ⟨es, now, listing, hl, hp, rfl | rfl⟩ | ⟨j₀, hj₀, b', hs⟩ := h.jobs hj
  · exact hi.inFlight j hj x hx hid
  · have hd : x ∈ dueEvents now listing := List.mem_of_mem_filter hx
    exact hi.eq_of_due hl ((hp.filter _).mem_iff.1 hd) hid
  · cases hx
  · exact hi.inFlight j₀ hj₀ x (hs.mayMark_subset hx) hid

/-- A settled event is marked only as it was accepted. -/
theorem Settled.eq_of_marked (hi : Settled e s) (h : Step s (.marked x) s') (hid : x.id = e.id) :
    x = e := by
  obtain ⟨due, hj⟩ := h.marked
  exact hi.inFlight _ hj x (List.mem_cons_self ..) hid

theorem Settled.step (hi : Settled e s) (h : Step s o s') (hn : ¬ o.Changes e.id) :
    Settled e s' where
  inFlight := hi.inFlight_step h
  stored := by
    obtain ⟨f, hf, hfe⟩ := hi.stored
    have hv := h.find?_of_mark hn
    cases hl : (marks e.id [o]).getLast? with
    | none => exact ⟨f, by rw [hv, hl, hf]; rfl, hfe⟩
    | some x =>
      obtain ⟨hx, hid⟩ := mem_marks.1 (List.mem_of_getLast? hl)
      rw [← List.mem_singleton.1 hx] at h
      cases hi.eq_of_marked h hid
      refine ⟨{ e with isSent := true }, by rw [hv, hl]; rfl, ?_⟩
      rw [← hfe]

/-- After an edit that finds no other version in flight, only the event as accepted is marked. -/
theorem Settled.marks_eq (hi : Settled e s) (h : Run s post s') (hn : ∀ o ∈ post, ¬ o.Changes e.id) :
    ∀ x ∈ marks e.id post, x = e := by
  refine (h.trace_induction (P := fun os t => (∀ o ∈ os, ¬ o.Changes e.id) →
    Settled e t ∧ ∀ x ∈ marks e.id os, x = e) ?_ (fun _ => ⟨hi, List.forall_mem_nil _⟩) hn).2
  intro os t o t' ih hs hos
  obtain ⟨hset, hall⟩ := ih fun o' ho' => hos o' (by simp [ho'])
  refine ⟨hset.step hs (hos o (by simp)), fun x hx => ?_⟩
  rw [marks_append, List.mem_append] at hx
  rcases hx with hx | hx
  · exact hall x hx
  · obtain ⟨hm, hid⟩ := mem_marks.1 hx
    rw [← List.mem_singleton.1 hm] at hs
    exact hset.eq_of_marked hs hid

/-! ## When another version is in flight -/

/-- A run in which a dispatch in flight gets to its mark of `x`, and nothing else is done to `x`. -/
def Reaches (x : Event) (s : State) : Prop :=
  ∃ post s', Run s post s' ∧ (∀ o ∈ post, ¬ o.Changes x.id) ∧ (marks x.id post).getLast? = some x

theorem Reaches.cons (h : Step s o s') (hn : ¬ o.Changes x.id) (hr : Reaches x s') :
    Reaches x s := by
  obtain ⟨post, t, hrun, hpost, hl⟩ := hr
  refine ⟨o :: post, t, .cons h hrun, List.forall_mem_cons.2 ⟨hn, hpost⟩, ?_⟩
  rw [← List.singleton_append, marks_append, List.getLast?_append, hl]
  rfl

theorem reaches_of_marking {i : Nat} {due : List Event} (hf : s.backend.fault = fun _ => none)
    (hx : s.backend.store.Holds x.id) (hj : s.jobs[i]? = some (.marking x due)) : Reaches x s := by
  obtain ⟨b', hm⟩ := mark_ok_iff.2 ⟨congrFun hf (.update x.id), hx⟩
  refine ⟨[.marked x], _, .single (.job hj (.mark hm)), ?_, ?_⟩
  · intro o ho hc
    rw [List.mem_singleton.1 ho] at hc
    exact hc
  · simp [marks, Occurrence.mark?]

theorem reaches_of_publishing {i : Nat} {due : List Event} (hf : s.backend.fault = fun _ => none)
    (hx : s.backend.store.Holds x.id) (hj : s.jobs[i]? = some (.publishing due)) (hd : x ∈ due)
    (hp : x.toJson?.isSome) : Reaches x s := by
  induction due generalizing s with
  | nil => cases hd
  | cons y due ih =>
    have hi : i < s.jobs.length := (List.getElem?_eq_some_iff.1 hj).1
    by_cases hy : x = y
    · subst hy
      obtain ⟨payload, hpay⟩ := Option.isSome_iff_exists.1 hp
      refine .cons (.job hj (.publish (publish_eq_some.2 ⟨payload, hpay, rfl⟩))) id ?_
      exact reaches_of_marking hf hx (List.getElem?_set_self hi)
    · refine .cons (.job hj .fail) id (ih hf hx (List.getElem?_set_self hi) ?_)
      exact (List.mem_cons.1 hd).resolve_left hy

/-- Whatever a dispatch may still mark, it marks in some run. -/
theorem reaches_of_mayMark (hf : s.backend.fault = fun _ => none) (hx : s.backend.store.Holds x.id)
    (hj : j ∈ s.jobs) (hm : x ∈ j.mayMark) : Reaches x s := by
  obtain ⟨i, hi, rfl⟩ := List.mem_iff_getElem.1 hj
  have hget : s.jobs[i]? = some s.jobs[i] := List.getElem?_eq_getElem hi
  cases hji : s.jobs[i] with
  | deleting | cancelled => rw [hji] at hm; cases hm
  | publishing due =>
    rw [hji] at hm hget
    obtain ⟨hd, hp⟩ := List.mem_filter.1 hm
    exact reaches_of_publishing hf hx hget hd hp
  | marking y due =>
    rw [hji] at hm hget
    rcases List.mem_cons.1 hm with rfl | hm
    · exact reaches_of_marking hf hx hget
    · obtain ⟨hd, hp⟩ := List.mem_filter.1 hm
      cases hk : mark y s.backend with
      | error err =>
        exact .cons (.job hget (.unmarked hk)) id
          (reaches_of_publishing hf hx (List.getElem?_set_self hi) hd hp)
      | ok b' =>
        have hf' : b'.fault = fun _ => none := (Backend.update_ok hk).2.trans hf
        exact .cons (.job hget (.mark hk)) id (reaches_of_publishing hf' ((mark_holds hk _).2 hx)
          (List.getElem?_set_self hi) hd hp)

/-- **Edits.** An event that a call has kept stays as accepted until the next change iff the last mark
is of the event as accepted. It stays so in every run iff no dispatch that is in flight at the call
may still mark another version of it. -/
theorem edit_kept_iff {st : Store} {ch : Change} (h₁ : Run (start (.reliable st)) pre s₁)
    (hc : Step s₁ (.called ch) s₂) (he : ch.kept? = some e) :
    (∀ post s, Run s₂ post s → (∀ o ∈ post, ¬ o.Changes e.id) →
      (Kept (pre ++ .called ch :: post) e s ↔ ∀ x ∈ (marks e.id post).getLast?, x = e)) ∧
    ((∀ post s, Run s₂ post s → (∀ o ∈ post, ¬ o.Changes e.id) →
      Kept (pre ++ .called ch :: post) e s) ↔
        ∀ j ∈ s₁.jobs, ∀ x ∈ j.mayMark, x.id = e.id → x = e) := by
  have hiff : ∀ post s, Run s₂ post s → (∀ o ∈ post, ¬ o.Changes e.id) →
      (Kept (pre ++ .called ch :: post) e s ↔ ∀ x ∈ (marks e.id post).getLast?, x = e) :=
    fun post s hp hn => kept_iff_marks h₁ hc he hp hn
  refine ⟨hiff, fun hk j hj x hx hid => ?_, fun hj post s hp hn => ?_⟩
  · have hf : s₂.backend.fault = fun _ => none := (h₁.append (.single hc)).fault_eq
    have hs : s₂.backend.store.Holds x.id := by
      rw [hid]; exact Store.holds_iff.2 ⟨e, hc.find?_kept he⟩
    have hj₂ : j ∈ s₂.jobs := by
      obtain ⟨c, b', -, rfl⟩ := hc.called
      exact hj
    obtain ⟨post, s, hp, hn, hl⟩ := reaches_of_mayMark hf hs hj₂ hx
    rw [hid] at hn hl
    exact (hiff post s hp hn).1 (hk post s hp hn) x hl
  · refine (hiff post s hp hn).2 fun x hx => ?_
    exact (Settled.after hc he hj).marks_eq hp hn x (List.mem_of_getLast? hx)

/-! ## An edit that is lost -/

/-- The visit, an hour later. -/
def moved : Event := { visit with startDate := ⟨1792155630, 0, by decide⟩ }

/-- The message of the visit was taken. -/
def beforeEdit : State := ⟨.reliable ⟨[visit], by decide⟩, [.marking visit []]⟩

/-- The visit was edited, and is still to be marked as it was listed. -/
def afterEdit : State := ⟨.reliable ⟨[moved], by decide⟩, [.marking visit []]⟩

theorem visit_published : Run (start (.reliable ⟨[visit], by decide⟩))
    [.listed, .published visit visitMessage] beforeEdit := by
  refine .cons (.dispatch visit.startDate rfl (.refl [visit])) ?_
  exact .single (.job (i := 0) (j := .publishing [visit]) (by rfl) (.publish (by rfl)))

theorem visit_edited : Step beforeEdit (.called (.updated moved)) afterEdit :=
  .call (.update moved) (b := .reliable ⟨[moved], by decide⟩) (by rfl)

theorem edit_kept_iff_moved :
    (∀ post s, Run afterEdit post s → (∀ o ∈ post, ¬ o.Changes moved.id) →
      (Kept ([.listed, .published visit visitMessage] ++ .called (.updated moved) :: post) moved s ↔
        ∀ x ∈ (marks moved.id post).getLast?, x = moved)) ∧
    ¬ ∀ post s, Run afterEdit post s → (∀ o ∈ post, ¬ o.Changes moved.id) →
      Kept ([.listed, .published visit visitMessage] ++ .called (.updated moved) :: post) moved s := by
  obtain ⟨hiff, hall⟩ := edit_kept_iff visit_published visit_edited rfl
  refine ⟨hiff, fun hk => ?_⟩
  have hv : visit = moved :=
    hall.1 hk (.marking visit []) (List.mem_singleton.2 rfl) visit (List.mem_cons_self ..) rfl
  exact absurd hv (by decide)

/-- The mark of the visit as it was listed brings back its old start. -/
theorem edit_lost : ∃ pre s₁ s₂ post s,
    Run (start (.reliable ⟨[visit], by decide⟩)) pre s₁ ∧
    Step s₁ (.called (.updated moved)) s₂ ∧ Run s₂ post s ∧
    (∀ o ∈ post, ¬ o.Changes moved.id) ∧
    s.backend.store.find? moved.id = some { visit with isSent := true } ∧
    ¬ Kept (pre ++ .called (.updated moved) :: post) moved s := by
  have hm : Run afterEdit [.marked visit]
      ⟨.reliable ⟨[{ visit with isSent := true }], by decide⟩, [.publishing []]⟩ :=
    .single (.job (i := 0) rfl (.mark rfl))
  have hf : (⟨[{ visit with isSent := true }], by decide⟩ : Store).find? moved.id =
      some { visit with isSent := true } := by decide
  refine ⟨_, _, _, _, _, visit_published, visit_edited, hm, ?_, hf, ?_⟩
  · intro o ho hc
    rw [List.mem_singleton.1 ho] at hc
    exact hc
  · rintro ⟨f, hk, hfe, -⟩
    cases hf.symm.trans hk
    exact absurd hfe (by decide)

end Agenda.Concurrent
