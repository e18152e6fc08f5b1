import Agenda.Store.Backend
import Mathlib.Data.List.Nodup
import Mathlib.Logic.Function.Basic

/-!
# The view of a store

A store is seen through `Store.find?`, the event under each id: callers may not rely on the order of
the events, so this is all there is to see. A change that succeeds sets the view at one id and leaves
it alone elsewhere; these lemmas say so once, and nothing below opens the operations again.

* `find?_create`, `find?_update`, `find?_delete`: the view after a change.
* `Backend.create_ok`, `Backend.update_ok`, `Backend.delete_ok`: the same for a store that may fail.
-/
namespace Agenda

namespace Store

variable {s s' : Store} {e : Event} {id : String}

/-! ## Lookup -/

theorem find?_eq_some_iff : s.find? id = some e ↔ e ∈ s.events ∧ e.id = id := by
  constructor
  · intro h
    exact ⟨List.mem_of_find?_eq_some h, by simpa using List.find?_some h⟩
  · rintro ⟨he, rfl⟩
    cases hf : s.find? e.id with
    | none => simpa using List.find?_eq_none.1 hf e he
    | some f =>
      have hm := List.mem_of_find?_eq_some hf
      have hi : f.id = e.id := by simpa using List.find?_some hf
      rw [List.inj_on_of_nodup_map s.distinct hm he hi]

theorem find?_of_mem (h : e ∈ s.events) : s.find? e.id = some e := find?_eq_some_iff.2 ⟨h, rfl⟩

theorem mem_of_find? (h : s.find? id = some e) : e ∈ s.events := (find?_eq_some_iff.1 h).1

theorem id_of_find? (h : s.find? id = some e) : e.id = id := (find?_eq_some_iff.1 h).2

/-- Looking for an event under an id with a further property. -/
theorem find?_and (s : Store) (id : String) (p : Event → Bool) :
    s.events.find? (fun e => decide (e.id = id) && p e) = (s.find? id).filter p := by
  apply Option.ext
  intro e
  rw [Option.filter_eq_some_iff, find?_eq_some_iff]
  constructor
  · intro h
    have hp := List.find?_some h
    simp only [Bool.and_eq_true, decide_eq_true_eq] at hp
    exact ⟨⟨List.mem_of_find?_eq_some h, hp.1⟩, hp.2⟩
  · rintro ⟨⟨he, rfl⟩, hp⟩
    cases hf : s.events.find? fun x => decide (x.id = e.id) && p x with
    | none => simpa [hp] using List.find?_eq_none.1 hf e he
    | some f =>
      have hq := List.find?_some hf
      simp only [Bool.and_eq_true, decide_eq_true_eq] at hq
      rw [List.inj_on_of_nodup_map s.distinct (List.mem_of_find?_eq_some hf) he hq.1]

theorem holds_iff : s.Holds id ↔ ∃ e, s.find? id = some e := by
  simp only [Holds, List.mem_map, find?_eq_some_iff]

theorem find?_eq_none_iff : s.find? id = none ↔ ¬ s.Holds id := by
  rw [holds_iff, Option.eq_none_iff_forall_ne_some, not_exists]

/-- A view whose value at `e`'s id is `e` and that agrees with the old one elsewhere. -/
theorem find?_eq_update {v : Option Event}
    (h : ∀ i f, s'.find? i = some f ↔ (i = id ∧ v = some f) ∨ (i ≠ id ∧ s.find? i = some f)) :
    s'.find? = Function.update s.find? id v := by
  funext i
  apply Option.ext
  intro f
  rw [h i f]
  by_cases hi : i = id
  · subst hi; simp
  · simp [hi]

theorem mem_iff_find? : e ∈ s.events ↔ s.find? e.id = some e := by
  rw [find?_eq_some_iff, and_iff_left rfl]

/-- Stores that hold the same events look the same, whatever the order. -/
theorem find?_eq_of_perm (h : s.events.Perm s'.events) : s.find? = s'.find? := by
  funext id
  apply Option.ext
  intro e
  rw [find?_eq_some_iff, find?_eq_some_iff, h.mem_iff]

/-- A view in which every event is replaced by one with its id. -/
theorem perm_map_of_find? {f : Event → Event} (hid : ∀ e, (f e).id = e.id)
    (h : ∀ id, s'.find? id = (s.find? id).map f) : s'.events.Perm (s.events.map f) := by
  have hids : ((s.events.map f).map Event.id).Nodup := by
    have hcomp : Event.id ∘ f = Event.id := funext hid
    rw [List.map_map, hcomp]
    exact s.distinct
  refine (List.perm_ext_iff_of_nodup s'.distinct.of_map hids.of_map).2 fun e => ?_
  rw [mem_iff_find?, h, Option.map_eq_some_iff, List.mem_map]
  constructor
  · rintro ⟨x, hx, rfl⟩
    exact ⟨x, mem_of_find? hx, rfl⟩
  · rintro ⟨x, hx, rfl⟩
    exact ⟨x, by rw [hid]; exact find?_of_mem hx, rfl⟩

/-- A view in which only the events with a property are left. -/
theorem perm_filter_of_find? {p : Event → Bool}
    (h : ∀ id, s'.find? id = (s.find? id).filter p) : s'.events.Perm (s.events.filter p) := by
  refine (List.perm_ext_iff_of_nodup s'.distinct.of_map (s.distinct.of_map.filter p)).2 fun e => ?_
  rw [mem_iff_find?, h, Option.filter_eq_some_iff, ← mem_iff_find?, List.mem_filter]

/-- Stores that look the same hold the same events. -/
theorem perm_of_find?_eq (h : s.find? = s'.find?) : s.events.Perm s'.events := by
  refine (List.perm_ext_iff_of_nodup s.distinct.of_map s'.distinct.of_map).2 fun e => ⟨?_, ?_⟩
  · intro he
    exact mem_of_find? (h ▸ find?_of_mem he)
  · intro he
    exact mem_of_find? (h ▸ find?_of_mem he)

/-! ## Changes -/

theorem create_ok (h : create e s = .ok s') : ¬ s.Holds e.id ∧ s'.events = e :: s.events := by
  unfold create at h
  split at h
  · cases h
  · rename_i hn; cases h; exact ⟨hn, rfl⟩

theorem find?_create (h : create e s = .ok s') :
    s'.find? = Function.update s.find? e.id (some e) := by
  obtain ⟨hn, he⟩ := create_ok h
  apply find?_eq_update
  intro i f
  rw [find?_eq_some_iff, he, List.mem_cons, find?_eq_some_iff]
  constructor
  · rintro ⟨rfl | hf, hi⟩
    · exact .inl ⟨hi.symm, rfl⟩
    · refine .inr ⟨fun hie => hn ?_, hf, hi⟩
      exact holds_iff.2 ⟨f, find?_eq_some_iff.2 ⟨hf, hi.trans hie⟩⟩
  · rintro (⟨rfl, hf⟩ | ⟨-, hf, hi⟩)
    · cases hf; exact ⟨.inl rfl, rfl⟩
    · exact ⟨.inr hf, hi⟩

theorem update_ok (h : update e s = .ok s') : s.Holds e.id ∧ s'.events = replaced e s.events := by
  unfold update at h
  split at h
  · rename_i hh; cases h; exact ⟨hh, rfl⟩
  · cases h

theorem mem_replaced {es : List Event} {f : Event} :
    f ∈ replaced e es ↔ (f = e ∧ e.id ∈ es.map Event.id) ∨ (f.id ≠ e.id ∧ f ∈ es) := by
  simp only [replaced, List.mem_map]
  constructor
  · rintro ⟨x, hx, rfl⟩
    split
    · rename_i hi; exact .inl ⟨rfl, x, hx, hi⟩
    · rename_i hi; exact .inr ⟨hi, hx⟩
  · rintro (⟨rfl, x, hx, hi⟩ | ⟨hi, hf⟩)
    · exact ⟨x, hx, if_pos hi⟩
    · exact ⟨f, hf, if_neg hi⟩

theorem find?_update (h : update e s = .ok s') :
    s'.find? = Function.update s.find? e.id (some e) := by
  obtain ⟨hh, he⟩ := update_ok h
  apply find?_eq_update
  intro i f
  rw [find?_eq_some_iff, he, mem_replaced, find?_eq_some_iff]
  constructor
  · rintro ⟨⟨rfl, -⟩ | ⟨hi, hf⟩, rfl⟩
    · exact .inl ⟨rfl, rfl⟩
    · exact .inr ⟨hi, hf, rfl⟩
  · rintro (⟨rfl, hf⟩ | ⟨hn, hf, rfl⟩)
    · cases hf; exact ⟨.inl ⟨rfl, hh⟩, rfl⟩
    · exact ⟨.inr ⟨hn, hf⟩, rfl⟩

theorem delete_ok (h : delete id s = .ok s') :
    s.Holds id ∧ s'.events = s.events.filter fun e => e.id ≠ id := by
  unfold delete at h
  split at h
  · rename_i hh; cases h; exact ⟨hh, rfl⟩
  · cases h

theorem find?_delete (h : delete id s = .ok s') : s'.find? = Function.update s.find? id none := by
  obtain ⟨-, he⟩ := delete_ok h
  apply find?_eq_update
  intro i f
  rw [find?_eq_some_iff, he, List.mem_filter, find?_eq_some_iff]
  simp only [decide_eq_true_eq, reduceCtorEq, and_false, false_or]
  constructor
  · rintro ⟨⟨hf, hn⟩, rfl⟩; exact ⟨hn, hf, rfl⟩
  · rintro ⟨hn, hf, rfl⟩; exact ⟨⟨hf, hn⟩, rfl⟩

theorem update_of_holds (h : s.Holds e.id) : ∃ s', update e s = .ok s' := by
  unfold update; rw [if_pos h]; exact ⟨_, rfl⟩

theorem delete_of_holds (h : s.Holds id) : ∃ s', delete id s = .ok s' := by
  unfold delete; rw [if_pos h]; exact ⟨_, rfl⟩

end Store

namespace Backend

variable {b b' : Backend} {e : Event} {id : String}

/-! ## Stores that may fail -/

theorem change_ok {op : Operation} {run : Store → Except StoreError Store}
    (h : b.change op run = .ok b') :
    b.fault op = none ∧ run b.store = .ok b'.store ∧ b'.fault = b.fault := by
  unfold change attempt at h
  cases hf : b.fault op with
  | some err => simp [hf, Except.map] at h
  | none =>
    cases hr : run b.store with
    | error err => simp [hf, hr, Except.map] at h
    | ok s =>
      simp only [hf, hr, Except.map, Except.ok.injEq] at h
      subst h; exact ⟨rfl, rfl, rfl⟩

theorem change_of_ok {op : Operation} {run : Store → Except StoreError Store} {s : Store}
    (hf : b.fault op = none) (hr : run b.store = .ok s) :
    b.change op run = .ok { b with store := s } := by
  unfold change attempt; rw [hf]; simp [hr, Except.map]

theorem create_ok (h : b.create e = .ok b') :
    b'.store.find? = Function.update b.store.find? e.id (some e) ∧ b'.fault = b.fault := by
  obtain ⟨-, hs, hf⟩ := change_ok h
  exact ⟨Store.find?_create hs, hf⟩

theorem update_ok (h : b.update e = .ok b') :
    b'.store.find? = Function.update b.store.find? e.id (some e) ∧ b'.fault = b.fault := by
  obtain ⟨-, hs, hf⟩ := change_ok h
  exact ⟨Store.find?_update hs, hf⟩

theorem delete_ok (h : b.delete id = .ok b') :
    b'.store.find? = Function.update b.store.find? id none ∧ b'.fault = b.fault := by
  obtain ⟨-, hs, hf⟩ := change_ok h
  exact ⟨Store.find?_delete hs, hf⟩

theorem list_ok {es : List Event} (h : b.list = .ok es) : es = b.store.events := by
  unfold list attempt at h
  split at h <;> simp_all

theorem list_of_fault {err : StoreError} (h : b.fault .list = some err) : b.list = .error err := by
  rw [list, attempt, h]

theorem list_of_no_fault (h : b.fault .list = none) : b.list = .ok b.store.events := by
  rw [list, attempt, h]

end Backend

end Agenda
