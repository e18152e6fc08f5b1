import Agenda.Proofs.Answers
import Agenda.Proofs.Concurrent.Purges

/-!
# Creations and deletions in balance

However calls and jobs interleave, an id is created only while it is not stored and deleted only while
it is, and nothing else adds or removes an id. So the creations of an id are as many as its deletions,
and one more while it is stored.

* `Step.found`: what a step finds under the id that it writes.
* `Run.balance`: the creations, the deletions and what is stored, on any part of a run.
* `creations_sub_deletions`: the accounts of a run from the empty store.
-/
namespace Agenda.Concurrent

open Reminders

variable {s s' t t' : State} {o : Occurrence} {os : List Occurrence} {id : String} {e : Event}
  {c : Call} {v : Option Event}

/-! ## Accounts -/

/-- The id that is created in the occurrence. -/
def Occurrence.created? : Occurrence → Option String
  | called (.created e) => some e.id
  | _ => none

/-- The id that is deleted in the occurrence, by a call or by a purge. -/
def Occurrence.deleted? : Occurrence → Option String
  | called (.deleted id) | purged _ id => some id
  | _ => none

/-- How often an id was created. -/
def creations (id : String) (trace : List Occurrence) : Nat :=
  (trace.filterMap Occurrence.created?).count id

/-- How often an id was deleted. -/
def deletions (id : String) (trace : List Occurrence) : Nat :=
  (trace.filterMap Occurrence.deleted?).count id

/-- How often an id is stored. -/
def State.stored (s : State) (id : String) : Nat := if s.backend.store.Holds id then 1 else 0

theorem count_filterMap_cons (f : Occurrence → Option String) (id : String) (o : Occurrence)
    (os : List Occurrence) : ((o :: os).filterMap f).count id =
      (if f o = some id then 1 else 0) + (os.filterMap f).count id := by
  cases h : f o with
  | none => simp [h]
  | some i => by_cases hi : i = id <;> simp [h, hi, Nat.add_comm]

theorem creations_cons (o : Occurrence) (os : List Occurrence) :
    creations id (o :: os) = (if o.created? = some id then 1 else 0) + creations id os :=
  count_filterMap_cons Occurrence.created? id o os

theorem deletions_cons (o : Occurrence) (os : List Occurrence) :
    deletions id (o :: os) = (if o.deleted? = some id then 1 else 0) + deletions id os :=
  count_filterMap_cons Occurrence.deleted? id o os

theorem deletions_append (os os' : List Occurrence) :
    deletions id (os ++ os') = deletions id os + deletions id os' := by
  simp [deletions]

/-! ## Steps -/

namespace Occurrence

theorem write?_of_writeAt? (h : o.writeAt? id = some v) : o.write? = some (id, v) := by
  obtain ⟨⟨i, w⟩, hw, hi⟩ := Option.bind_eq_some_iff.1 h
  obtain ⟨rfl, hv⟩ := Option.ite_none_right_eq_some.1 hi
  cases hv
  exact hw

/-- A creation or a deletion writes under its id. -/
theorem writeAt?_ne_none (h : o.created? = some id ∨ o.deleted? = some id) :
    o.writeAt? id ≠ none := by
  cases o with
  | listed | published | unsent | idle | marked => simp [created?, deleted?] at h
  | purged now i =>
    obtain rfl : i = id := by simpa [created?, deleted?] using h
    simp [writeAt?, write?]
  | called ch =>
    have hid : ch.id = id := by
      cases ch <;> simp only [created?, deleted?, reduceCtorEq, Option.some.injEq, or_false,
        false_or] at h <;> exact h
    simp [writeAt?, write?, hid]

/-- Only a deletion writes that there is no event. -/
theorem write?_none_iff (h : o.write? = some (id, v)) : v = none ↔ o.deleted? = some id := by
  cases o with
  | listed | published | unsent | idle => cases h
  | marked e => cases h; exact iff_of_false nofun nofun
  | purged now i => cases h; exact iff_of_true rfl rfl
  | called ch =>
    cases h
    cases ch with
    | created | updated => exact iff_of_false nofun nofun
    | deleted => exact iff_of_true rfl rfl

end Occurrence

/-- **Steps.** A step writes under an id that is stored, unless it creates it. -/
theorem Step.found (h : Step s o s') (hw : o.write? = some (id, v)) :
    s.backend.store.Holds id ↔ o.created? ≠ some id := by
  cases o with
  | listed | published | unsent | idle => cases hw
  | marked e =>
    cases hw
    cases h with
    | job _ h =>
      cases h with
      | mark h => exact iff_of_true (mark_ok_iff.1 ⟨_, h⟩).2 nofun
  | purged now i =>
    cases hw
    cases h with
    | job _ h =>
      cases h with
      | delete h => exact iff_of_true (Store.delete_ok (Backend.change_ok h).2.1).1 nofun
  | called ch =>
    cases hw
    obtain ⟨c, b, hc, -⟩ := h.called
    have hrun := (Backend.change_ok (Call.perform_eq_some_iff.1 hc).2).2.1
    cases ch with
    | created e => exact iff_of_false (Store.create_ok hrun).1 (not_not_intro rfl)
    | updated e => exact iff_of_true (Store.update_ok hrun).1 nofun
    | deleted i => exact iff_of_true (Store.delete_ok hrun).1 nofun

theorem Step.balance (h : Step s o s') (id : String) :
    (if o.created? = some id then 1 else 0) + s.stored id =
      (if o.deleted? = some id then 1 else 0) + s'.stored id := by
  have hv : s'.backend.store.find? id = (o.writeAt? id).getD (s.backend.store.find? id) := by
    rw [h.find?_eq, Occurrence.apply_eq]
  cases hw : o.writeAt? id with
  | none =>
    have hn := not_or.1 (mt Occurrence.writeAt?_ne_none (not_not_intro hw))
    have hsame : s'.backend.store.Holds id ↔ s.backend.store.Holds id := by
      rw [Store.holds_iff, Store.holds_iff, hv, hw, Option.getD_none]
    simp only [State.stored, hsame, if_neg hn.1, if_neg hn.2]
  | some v =>
    -- What is written is stored before unless it is created, and after unless it is deleted.
    have hwrite := Occurrence.write?_of_writeAt? hw
    have hafter : s'.backend.store.Holds id ↔ o.deleted? ≠ some id := by
      rw [hw, Option.getD_some] at hv
      rw [← not_iff_not, ← Store.find?_eq_none_iff, hv, Occurrence.write?_none_iff hwrite, not_not]
    simp only [State.stored, h.found hwrite, hafter, ite_not]
    by_cases hc : o.created? = some id <;> by_cases hd : o.deleted? = some id <;> simp [hc, hd]

/-- **Runs.** On any part of a run, what is created is deleted or stored in the end. -/
theorem Run.balance (h : Run s os s') (id : String) :
    creations id os + s.stored id = deletions id os + s'.stored id := by
  induction h with
  | nil s => rfl
  | cons hs _ ih =>
    have hstep := hs.balance id
    rw [creations_cons, deletions_cons]
    omega

/-- What is written under an id has that id. -/
theorem id_of_mem_writes {trace : List Occurrence} (hv : v ∈ writes id trace) (he : e ∈ v) :
    e.id = id := by
  obtain ⟨o, -, ho⟩ := List.mem_filterMap.1 hv
  have hw := Occurrence.write?_of_writeAt? ho
  cases he
  cases o with
  | listed | published | unsent | idle | purged => cases hw
  | marked x => cases hw; rfl
  | called ch => cases ch <;> cases hw <;> rfl

/-! ## Attempts -/

/-- A call is made: it changes an event, or nothing. -/
inductive Attempt (c : Call) (s : State) : Occurrence → State → Prop where
  | change {ch : Change} {b : Backend} (h : c.perform s.backend = some (ch, b)) :
      Attempt c s (.called ch) { s with backend := b }
  | refuse (h : c.perform s.backend = none) : Attempt c s .idle s

theorem Attempt.step (h : Attempt c s o s') : Step s o s' := by
  cases h with
  | change h => exact .call c h
  | refuse h => exact .refuse c h

/-- The run comes upon a call that is to create the id. -/
def Tries (id : String) (s : State) (os : List Occurrence) (s' : State) : Prop :=
  ∃ c e pre t o t' post, c.change? = some (.created e) ∧ e.id = id ∧ os = pre ++ o :: post ∧
    Run s pre t ∧ Attempt c t o t' ∧ Run t' post s'

/-- Unless the store fails, an id is stored after a call that is to create it: the call has done so, or
it was refused because of an event that is stored. -/
theorem Attempt.holds (h : Attempt c s o s') (hc : c.change? = some (.created e))
    (hf : s.backend.fault (.create e.id) = none) : s'.backend.store.Holds e.id := by
  rw [Store.holds_iff]
  cases h with
  | change h =>
    obtain ⟨hch, hrun⟩ := Call.perform_eq_some_iff.1 h
    rw [hc] at hch
    cases hch
    refine ⟨e, ?_⟩
    rw [(Change.run_ok hrun).1]
    exact Function.update_self ..
  | refuse h =>
    cases hfound : s.backend.store.find? e.id with
    | some f => exact ⟨f, rfl⟩
    | none =>
      have hn : (Change.created e).failure? s.backend = none := by
        rw [Change.failure?, Change.operation, hf]
        show Change.conflict? _ (s.backend.store.find? e.id) = none
        rw [hfound]
        rfl
      obtain ⟨b, hrun⟩ := Change.run_eq_ok_iff.2 hn
      rw [Call.perform_eq_some_iff.2 ⟨hc, hrun⟩] at h
      cases h

/-- Without a deletion, an id that is stored stays so. -/
theorem Run.stored_of_stored (h : Run s os s') (hd : deletions id os = 0)
    (hs : s.backend.store.Holds id) : s'.backend.store.Holds id := by
  have hb := h.balance id
  by_contra hn
  simp only [State.stored, if_pos hs, if_neg hn] at hb
  omega

/-- An id that is not stored is created once where it is tried at all, unless it is deleted. -/
theorem Tries.creations_eq (h : Tries id s os s') (hf : s.backend.fault (.create id) = none)
    (hn : ¬ s.backend.store.Holds id) (hd : deletions id os = 0) : creations id os = 1 := by
  obtain ⟨c, e, pre, t, o, t', post, hc, rfl, rfl, hpre, hattempt, hpost⟩ := h
  rw [deletions_append, deletions_cons] at hd
  have ht' := hattempt.holds hc (by rw [hpre.fault_eq, hf])
  have hs' := hpost.stored_of_stored (by omega) ht'
  have hb := (hpre.append (.cons hattempt.step hpost)).balance e.id
  simp only [State.stored, if_neg hn, if_pos hs', deletions_append, deletions_cons] at hb
  omega

/-- **Accounts.** From an empty store, however calls and jobs interleave, an id was created as often as
it was deleted, and once more if it is stored. Until it is deleted it is created at most once, and once
if a call tries to. Nothing else adds an id. What is stored was last written under its own id, and a
listing shows every id that is stored once. -/
theorem creations_sub_deletions {fault : Operation → Option StoreError} {trace : List Occurrence}
    (h : Run (start ⟨.empty, fault⟩) trace s) (id : String) :
    (creations id trace : Int) - deletions id trace = (if s.backend.store.Holds id then 1 else 0) ∧
    (∀ os s', Run s os s' → deletions id os = 0 → creations id os ≤ 1) ∧
    (∀ os s', Tries id s os s' → fault (.create id) = none → ¬ s.backend.store.Holds id →
      deletions id os = 0 → creations id os = 1) ∧
    (∀ o s', Step s o s' → s'.backend.store.Holds id →
      s.backend.store.Holds id ∨ o.created? = some id) ∧
    s.backend.store.find? id = (writes id trace).getLast?.join ∧
    (∀ v ∈ writes id trace, ∀ e ∈ v, e.id = id) ∧
    ∀ es, s.backend.list = .ok es → (∀ e ∈ es, s.backend.store.find? e.id = some e) ∧
      (es.map Event.id).count id = if s.backend.store.Holds id then 1 else 0 := by
  refine ⟨?_, fun os s' hrun hd => ?_, fun os s' ht hf hn hd => ?_, fun o s' hs hh => ?_, ?_,
    fun v hv e he => id_of_mem_writes hv he, fun es hl => ⟨fun e he => ?_, ?_⟩⟩
  · have hb := h.balance id
    have hzero : (start ⟨.empty, fault⟩).stored id = 0 := rfl
    rw [hzero, State.stored] at hb
    by_cases hh : s.backend.store.Holds id
    · rw [if_pos hh] at hb ⊢
      omega
    · rw [if_neg hh] at hb ⊢
      omega
  · have hb := hrun.balance id
    have hle : s'.stored id ≤ 1 := by unfold State.stored; split <;> omega
    omega
  · exact ht.creations_eq (by rw [h.fault_eq]; exact hf) hn hd
  · have hb := hs.balance id
    by_contra hn
    obtain ⟨hn, hc⟩ := not_or.1 hn
    simp only [State.stored, if_neg hn, if_neg hc, if_pos hh] at hb
    omega
  · rw [find?_of_writes h id]
    cases (writes id trace).getLast? <;> rfl
  · rw [Backend.list_ok hl] at he
    exact Store.find?_of_mem he
  · rw [Backend.list_ok hl, s.backend.store.distinct.count]
    rfl

/-- The visit is created, and then once more in vain. -/
theorem visit_tried : Tries visit.id (start ⟨.empty, fun _ => none⟩)
    [.called (.created visit), .idle] ⟨⟨⟨[visit], by decide⟩, fun _ => none⟩, []⟩ := by
  have hdone : Step (start ⟨.empty, fun _ => none⟩) (.called (.created visit))
      ⟨⟨⟨[visit], by decide⟩, fun _ => none⟩, []⟩ :=
    .call (.create "" visit) (b := ⟨⟨[visit], by decide⟩, fun _ => none⟩) (by rfl)
  exact ⟨.create "" visit, visit, [.called (.created visit)], _, .idle, _, [], by rfl, rfl, rfl,
    .single hdone, .refuse (by rfl), .nil _⟩

theorem creations_sub_deletions_visit :
    (∃ trace s, Run (start ⟨.empty, fun _ => none⟩) trace s ∧ s.backend.store.Holds visit.id ∧
      (creations visit.id trace : Int) - deletions visit.id trace = 1) ∧
    ∃ os s, Tries visit.id (start ⟨.empty, fun _ => none⟩) os s ∧ creations visit.id os = 1 := by
  obtain ⟨haccount, -⟩ := creations_sub_deletions visit_run visit.id
  obtain ⟨-, -, htries, -⟩ := creations_sub_deletions (.nil (start ⟨.empty, fun _ => none⟩)) visit.id
  exact ⟨⟨_, _, visit_run, List.mem_singleton.2 rfl, haccount⟩,
    _, _, visit_tried, htries _ _ visit_tried rfl (by decide) rfl⟩

end Agenda.Concurrent
