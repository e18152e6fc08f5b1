import Agenda.Proofs.Answers
import Agenda.Proofs.Reminders
import Mathlib.Data.List.Sort

/-!
# Calls in another order

A call touches one id, and what it answers depends on that id alone. So calls about different ids may
be served in any order, as long as the calls about each single id keep theirs.

* `answerAt`, `after`: what each call in a row is answered, and the store in the end.
* `after_alike`: to one id a row of calls does what the calls that name this id do.
* `Reordering`: the same calls in another order. `Reordering.about_take`: the calls that name an id
  come to each of their places after the same calls that name it.
* `order_within_ids_suffices`: every call is answered as before, and the same events are stored.
-/
namespace Agenda.Sequential

variable {b b₁ b₂ : Backend} {cs ds : List Call} {c : Call} {ch : Change} {id : String}

/-! ## Calls in a row -/

/-- The store after calls in a row. -/
def after (b : Backend) (cs : List Call) : Backend := cs.foldl (fun b c => (c.serve b).2) b

/-- What the call at a place of the row is answered: it finds the store as the calls before it have
left it. -/
def answerAt (b : Backend) (cs : List Call) (i : Fin cs.length) : Answer :=
  (cs[i].serve (after b (cs.take i))).1

/-- The calls of a row that name an id, without their fresh ids. -/
def about (id : String) (cs : List Call) : List Call :=
  (cs.filter fun c => c.id? = some id).map Call.request

/-! ## One id -/

/-- The stores are the same as to one id: its event and the failures are. -/
structure Alike (id : String) (b₁ b₂ : Backend) : Prop where
  found : b₁.store.find? id = b₂.store.find? id
  fault : b₁.fault = b₂.fault

theorem Alike.refl (id : String) (b : Backend) : Alike id b b := ⟨rfl, rfl⟩

theorem Alike.failure?_eq (h : Alike ch.id b₁ b₂) : ch.failure? b₁ = ch.failure? b₂ := by
  rw [Change.failure?, Change.failure?, h.found, h.fault]

/-- A change of the id keeps stores alike. -/
theorem Alike.after_change (h : Alike ch.id b₁ b₂) : Alike ch.id (ch.after b₁) (ch.after b₂) where
  found := by rw [Change.find?_after, Change.find?_after, h.failure?_eq, h.found]
  fault := by rw [Change.fault_after, Change.fault_after, h.fault]

/-- A change of another id keeps stores alike. -/
theorem Alike.change_left (h : Alike id b₁ b₂) (hne : ch.id ≠ id) : Alike id (ch.after b₁) b₂ where
  found := by rw [Change.find?_after, if_neg (fun hi => hne hi.1.symm), h.found]
  fault := by rw [Change.fault_after, h.fault]

/-- A call that names the id is answered alike, and keeps the stores alike. -/
theorem Alike.serve (h : Alike id b₁ b₂) (hn : c.Named) (hc : c.id? = some id) :
    (c.serve b₁).1 = (c.request.serve b₂).1 ∧ Alike id (c.serve b₁).2 (c.request.serve b₂).2 := by
  obtain ⟨ch, hch, rfl⟩ := Option.map_eq_some_iff.1 hc
  rw [← hn.serve_request]
  obtain ⟨hnone, -⟩ | ⟨ch', hch', answer, hserve⟩ := c.request.serve_cases
  · rw [hnone] at hch
    cases hch
  · rw [hch] at hch'
    cases hch'
    simp only [hserve, h.failure?_eq, true_and]
    exact h.after_change

/-- A call that does not name the id keeps the stores alike. -/
theorem Alike.serve_left (h : Alike id b₁ b₂) (hn : c.Named) (hc : c.id? ≠ some id) :
    Alike id (c.serve b₁).2 b₂ := by
  rw [← hn.serve_request]
  obtain ⟨-, a, hserve⟩ | ⟨ch, hch, answer, hserve⟩ := c.request.serve_cases
  · rw [hserve]
    exact h
  · rw [hserve]
    exact h.change_left fun hi => hc (by rw [Call.id?, hch, Option.map_some, hi])

/-- **Rows.** To one id a row of calls does what the calls that name this id do. -/
theorem after_alike (hn : ∀ c ∈ cs, c.Named) (h : Alike id b₁ b₂) :
    Alike id (after b₁ cs) (after b₂ (about id cs)) := by
  induction cs generalizing b₁ b₂ with
  | nil => exact h
  | cons c cs ih =>
    obtain ⟨hc, hcs⟩ := List.forall_mem_cons.1 hn
    by_cases hid : c.id? = some id
    · rw [about, List.filter_cons_of_pos (by simpa using hid)]
      exact ih hcs (h.serve hc hid).2
    · rw [about, List.filter_cons_of_neg (by simpa using hid)]
      exact ih hcs (h.serve_left hc hid)

/-! ## Reorderings -/

/-- The same calls in another order, in which the calls that name one id keep theirs. Fresh ids are
generated anew. -/
structure Reordering (cs ds : List Call) where
  /-- Where a call of the first row stands in the second. -/
  place : Fin cs.length ≃ Fin ds.length
  request_eq : ∀ i, ds[place i].request = cs[i].request
  order : ∀ i j, i < j → ∀ id ∈ cs[i].id?, cs[j].id? = some id → place i < place j

/-- The calls that name an id, by their places. -/
theorem about_take (id : String) (cs : List Call) (n : Nat) : about id (cs.take n) =
    ((List.finRange cs.length).filter fun i => i.val < n ∧ cs[i].id? = some id).map
      fun i => cs[i].request := by
  induction cs generalizing n with
  | nil => rw [List.take_nil]; rfl
  | cons c cs ih =>
    cases n with
    | zero => simp [about]
    | succ n =>
      have hrest := ih n
      rw [about] at hrest
      show about id (c :: cs.take n) = List.map _ (List.filter _ (List.finRange (cs.length + 1)))
      rw [List.finRange_succ, List.filter_cons, List.filter_map]
      by_cases hc : c.id? = some id
      · simp [about, hc, hrest, Function.comp_def]
      · simp [about, hc, hrest, Function.comp_def]

namespace Reordering

theorem id?_eq (r : Reordering cs ds) (i : Fin cs.length) : ds[r.place i].id? = cs[i].id? := by
  rw [Call.id?, Call.id?, r.request_eq]

/-- Of two calls that name an id the same one comes first in both rows. -/
theorem place_lt_iff (r : Reordering cs ds) {i j : Fin cs.length} (hi : cs[i].id? = some id)
    (hj : cs[j].id? = some id) : r.place i < r.place j ↔ i < j := by
  refine ⟨fun h => ?_, fun h => r.order i j h id hi hj⟩
  by_contra hle
  rcases lt_or_eq_of_le (not_lt.1 hle) with hlt | rfl
  · exact lt_asymm h (r.order j i hlt id hj hi)
  · exact lt_irrefl _ h

/-- Two parts from the beginning that hold the same calls about an id hold them in the same order. -/
theorem about_take_eq (r : Reordering cs ds) {n m : Nat}
    (h : ∀ i, cs[i].id? = some id → (i.val < n ↔ (r.place i).val < m)) :
    about id (cs.take n) = about id (ds.take m) := by
  have hplaces : ((List.finRange cs.length).filter fun i => i.val < n ∧ cs[i].id? = some id).map
      r.place = (List.finRange ds.length).filter fun j => j.val < m ∧ ds[j].id? = some id := by
    refine List.Pairwise.eq_of_mem_iff (r := (· < ·)) ?_ ?_ ?_
    · rw [List.pairwise_map]
      refine ((List.pairwise_lt_finRange _).filter _).imp_of_mem fun {i j} hi hj hlt => ?_
      simp only [List.mem_filter, decide_eq_true_eq] at hi hj
      exact (r.place_lt_iff hi.2.2 hj.2.2).2 hlt
    · exact (List.pairwise_lt_finRange _).filter _
    · intro j
      obtain ⟨i, rfl⟩ := r.place.surjective j
      simp only [List.mem_map_of_injective r.place.injective, List.mem_filter, List.mem_finRange,
        true_and, decide_eq_true_eq, r.id?_eq]
      exact and_congr_left fun hi => h i hi
  rw [about_take, about_take, ← hplaces, List.map_map]
  exact List.map_congr_left fun i _ => (r.request_eq i).symm

theorem named (r : Reordering cs ds) (hn : ∀ c ∈ cs, c.Named) : ∀ d ∈ ds, d.Named := by
  intro d hd
  obtain ⟨j, hj, rfl⟩ := List.mem_iff_getElem.1 hd
  obtain ⟨i, hi⟩ := r.place.surjective ⟨j, hj⟩
  have hid := r.id?_eq i
  simp only [hi] at hid
  intro id hmem
  exact hn _ (List.getElem_mem i.isLt) id (hid ▸ hmem)

/-- Parts that hold the same calls about an id leave stores that are alike as to it. -/
theorem alike (r : Reordering cs ds) (hn : ∀ c ∈ cs, c.Named) (b : Backend) {n m : Nat}
    (h : ∀ i, cs[i].id? = some id → (i.val < n ↔ (r.place i).val < m)) :
    Alike id (after b (cs.take n)) (after b (ds.take m)) := by
  have h₁ : Alike id (after b (cs.take n)) (after b (about id (cs.take n))) :=
    after_alike (fun c hc => hn c (List.mem_of_mem_take hc)) (.refl id b)
  have h₂ : Alike id (after b (ds.take m)) (after b (about id (ds.take m))) :=
    after_alike (fun d hd => r.named hn d (List.mem_of_mem_take hd)) (.refl id b)
  rw [r.about_take_eq h] at h₁
  exact ⟨h₁.found.trans h₂.found.symm, h₁.fault.trans h₂.fault.symm⟩

end Reordering

/-- **Other orders.** Calls that name their ids, or are refused before they come to the store, may be
served in any order that keeps the calls about each single id in theirs: every call is answered the
same, and the same events are stored in the end. -/
theorem order_within_ids_suffices (b : Backend) (hn : ∀ c ∈ cs, c.Named) (r : Reordering cs ds) :
    (∀ i, answerAt b ds (r.place i) = answerAt b cs i) ∧
    (after b ds).store.events.Perm (after b cs).store.events := by
  refine ⟨fun i => ?_, ?_⟩
  · have hc : cs[i].Named := hn _ (List.getElem_mem i.isLt)
    have hd : ds[r.place i].Named := r.named hn _ (List.getElem_mem (r.place i).isLt)
    rw [answerAt, answerAt, ← hd.serve_request, r.request_eq]
    cases hid : cs[i].id? with
    | none =>
      -- The call is refused before it comes to the store, so the store does not matter.
      obtain ⟨-, a, hserve⟩ | ⟨ch, hch, -⟩ := cs[i].request.serve_cases
      · rw [← hc.serve_request, hserve, hserve]
      · rw [Call.id?, hch] at hid
        cases hid
    | some id =>
      have h : Alike id (after b (cs.take i)) (after b (ds.take (r.place i))) :=
        r.alike hn b fun j hj => (r.place_lt_iff hj hid).symm
      exact (h.serve hc hid).1.symm
  · refine Store.perm_of_find?_eq (funext fun id => ?_)
    have h : Alike id (after b (cs.take cs.length)) (after b (ds.take ds.length)) :=
      r.alike hn b fun i _ => iff_of_true i.isLt (r.place i).isLt
    rw [List.take_length, List.take_length] at h
    exact h.found.symm

/-! ## Two visits -/

open Reminders

/-- The visit, under another title. -/
def renamed : Event := { visit with title := "Long visit" }

def visitFirst : List Call := [.create "" visit, .create "" oldVisit, .update renamed]

def oldFirst : List Call := [.create "a1" oldVisit, .create "a2" visit, .update renamed]

/-- The visit is created before it is updated; where the old one is created does not matter. -/
def oldFirst_reordering : Reordering visitFirst oldFirst where
  place := (Equiv.swap 0 1 : Equiv.Perm (Fin 3))
  request_eq := fun (i : Fin 3) =>
    match i with
    | 0 | 1 | 2 => rfl
  order := by decide

theorem order_within_ids_suffices_oldFirst :
    (∀ c ∈ visitFirst, c.Named) ∧
    (∀ i, answerAt (.reliable .empty) oldFirst (oldFirst_reordering.place i) =
      answerAt (.reliable .empty) visitFirst i) ∧
    (after (.reliable .empty) oldFirst).store.events.Perm [oldVisit, renamed] := by
  have hn : ∀ c ∈ visitFirst, c.Named := by decide
  obtain ⟨hanswers, hstore⟩ := order_within_ids_suffices (.reliable .empty) hn oldFirst_reordering
  exact ⟨hn, hanswers, hstore⟩

end Agenda.Sequential
