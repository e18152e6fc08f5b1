import Agenda.Proofs.Store.View
import Agenda.Retention

/-!
# What a purge does

A purge goes through the expired events of its listing and deletes each one under its id, so what it
does to one id does not depend on the others.

* `remove_find?`, `remove_count`: the view and the count after one deletion.
* `purge_find?`: the view after a purge, as a function of the view before.
-/
namespace Agenda.Retention

variable {now : Instant} {b : Backend} {p : Nat × Backend}

/-! ## The run -/

theorem remove_fault (p : Nat × Backend) (e : Event) : (remove p e).2.fault = p.2.fault := by
  unfold remove
  cases hd : p.2.delete e.id with
  | ok b' => exact (Backend.delete_ok hd).2
  | error err => rfl

/-- A deletion that fails although the store does not has found nothing. -/
theorem not_holds_of_error {id : String} {err : StoreError} (hd : b.delete id = .error err)
    (hf : b.fault (.delete id) = none) : ¬ b.store.Holds id := by
  intro hh
  obtain ⟨s, hs⟩ := Store.delete_of_holds hh
  have hok : b.delete id = .ok { b with store := s } := Backend.change_of_ok hf hs
  rw [hd] at hok
  cases hok

/-- **One event.** Unless the store fails, nothing is stored under its id. -/
theorem remove_find? (p : Nat × Backend) (e : Event) :
    (remove p e).2.store.find? =
      if p.2.fault (.delete e.id) = none then Function.update p.2.store.find? e.id none
      else p.2.store.find? := by
  unfold remove
  cases hd : p.2.delete e.id with
  | ok b' =>
    rw [if_pos (Backend.change_ok hd).1]
    exact (Backend.delete_ok hd).1
  | error err =>
    by_cases hf : p.2.fault (.delete e.id) = none
    · have hn : p.2.store.find? e.id = none :=
        Store.find?_eq_none_iff.2 (not_holds_of_error hd hf)
      rw [if_pos hf, ← hn, Function.update_eq_self]
    · rw [if_neg hf]

/-- The event is counted if it is stored and the store does not fail. -/
theorem remove_count (p : Nat × Backend) (e : Event) :
    (remove p e).1 =
      if p.2.fault (.delete e.id) = none ∧ p.2.store.Holds e.id then p.1 + 1 else p.1 := by
  unfold remove
  cases hd : p.2.delete e.id with
  | ok b' =>
    obtain ⟨hf, hs, -⟩ := Backend.change_ok hd
    rw [if_pos ⟨hf, (Store.delete_ok hs).1⟩]
  | error err => rw [if_neg fun hc => not_holds_of_error hd hc.1 hc.2]

theorem remove_holds_of_ne (p : Nat × Backend) {e : Event} {id : String} (hne : id ≠ e.id) :
    (remove p e).2.store.Holds id ↔ p.2.store.Holds id := by
  rw [Store.holds_iff, Store.holds_iff, remove_find?]
  split
  · rw [Function.update_of_ne hne]
  · rfl

theorem foldl_remove_fault (es : List Event) (p : Nat × Backend) :
    (es.foldl remove p).2.fault = p.2.fault := by
  induction es generalizing p with
  | nil => rfl
  | cons e es ih => rw [List.foldl_cons, ih, remove_fault]

theorem foldl_remove_find? (es : List Event) (p : Nat × Backend) (id : String) :
    (es.foldl remove p).2.store.find? id =
      if id ∈ es.map Event.id ∧ p.2.fault (.delete id) = none then none
      else p.2.store.find? id := by
  induction es generalizing p with
  | nil => simp
  | cons e es ih =>
    rw [List.foldl_cons, ih, remove_fault, remove_find?]
    by_cases hi : id = e.id
    · subst hi
      by_cases hf : p.2.fault (.delete e.id) = none <;> simp [hf]
    · by_cases hf : p.2.fault (.delete e.id) = none <;> simp [hf, hi]

/-- Of distinct stored events, those are counted for which the store does not fail. -/
theorem foldl_remove_count {es : List Event} (hn : (es.map Event.id).Nodup) (p : Nat × Backend)
    (hh : ∀ e ∈ es, p.2.store.Holds e.id) :
    (es.foldl remove p).1 = p.1 + es.countP fun e => p.2.fault (.delete e.id) = none := by
  induction es generalizing p with
  | nil => rfl
  | cons e es ih =>
    obtain ⟨he, hn⟩ := List.nodup_cons.1 hn
    obtain ⟨hhead, hh⟩ := List.forall_mem_cons.1 hh
    -- The events that follow are still stored, because their ids differ.
    have hstill : ∀ x ∈ es, (remove p e).2.store.Holds x.id := by
      intro x hx
      have hne : x.id ≠ e.id := fun hid => he (hid ▸ List.mem_map_of_mem hx)
      exact (remove_holds_of_ne p hne).2 (hh x hx)
    rw [List.foldl_cons, ih hn _ hstill, remove_fault, remove_count, List.countP_cons]
    simp only [hhead, and_true, decide_eq_true_eq]
    split <;> omega

/-! ## Purges -/

/-- What a purge does with a listing: it deletes the events of it that are expired, in its order. -/
def sweep (now : Instant) (b : Backend) (listing : List Event) : Nat × Backend :=
  (expired now listing).foldl remove (0, b)

theorem purge_of_no_fault (now : Instant) (h : b.fault .list = none) :
    purge now b = .ok (sweep now b b.store.events) := by
  rw [purge, Backend.list_of_no_fault h]
  rfl

theorem purge_eq (h : purge now b = .ok p) :
    p = sweep now b b.store.events := by
  unfold purge at h
  cases hl : b.list with
  | error err => rw [hl] at h; cases h
  | ok es =>
    rw [hl, Backend.list_ok hl] at h
    cases h
    rfl

theorem purge_fault (h : purge now b = .ok p) : p.2.fault = b.fault := by
  rw [purge_eq h, sweep, foldl_remove_fault]

/-- **Purges.** The expired events are gone, unless the store fails; the others are as they were. -/
theorem purge_find? (h : purge now b = .ok p) (id : String) :
    p.2.store.find? id =
      if id ∈ (expired now b.store.events).map Event.id ∧ b.fault (.delete id) = none then none
      else b.store.find? id := by
  rw [purge_eq h, sweep, foldl_remove_find?]

end Agenda.Retention
