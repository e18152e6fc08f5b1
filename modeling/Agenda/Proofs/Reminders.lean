import Agenda.Proofs.Store.View
import Agenda.Reminders

/-!
# What a dispatch does

A dispatch goes through the events that are due, one after the other. Because their ids are distinct,
what it does to one event does not depend on the others, and the listing's order does not matter.

* `Dispatch.step_spec`: handling one event.
* `dispatch_find?`: the view after a dispatch, as a function of the view before.
* `dispatch_messages`: what is handed to the broker.
-/
namespace Agenda.Reminders

variable {accepts : Event → Bool} {now : Instant} {b b' : Backend} {d : Dispatch} {e x : Event}
  {es : List Event} {m : Message}

/-! ## Messages -/

theorem publish_eq_some : publish accepts e = some m ↔
    ∃ payload, e.toJson? = some payload ∧ m = ⟨e.id, payload, accepts e⟩ := by
  constructor
  · intro h
    obtain ⟨payload, hj, rfl⟩ := Option.map_eq_some_iff.1 h
    exact ⟨payload, hj, rfl⟩
  · rintro ⟨payload, hj, rfl⟩
    exact Option.map_eq_some_iff.2 ⟨payload, hj, rfl⟩

theorem publish_id (h : publish accepts e = some m) : m.id = e.id := by
  obtain ⟨payload, -, rfl⟩ := publish_eq_some.1 h
  rfl

/-- Messages come under the ids of their events, in the order of the events. -/
theorem sublist_messages (accepts : Event → Bool) (es : List Event) :
    ((es.filterMap (publish accepts)).map Message.id).Sublist (es.map Event.id) := by
  induction es with
  | nil => exact .slnil
  | cons e es ih =>
    rw [List.filterMap_cons]
    cases hp : publish accepts e with
    | none => exact ih.cons _
    | some m =>
      simp only [List.map_cons, publish_id hp]
      exact ih.cons_cons _

theorem publish_taken (h : publish accepts e = some m) (ht : m.taken = true) :
    publish (fun _ => true) e = some m := by
  obtain ⟨payload, hj, rfl⟩ := publish_eq_some.1 h
  exact publish_eq_some.2 ⟨payload, hj, by rw [show accepts e = true from ht]⟩

/-- The message of the event can be written, and the broker takes it. -/
def Delivers (accepts : Event → Bool) (e : Event) : Prop :=
  accepts e = true ∧ e.toJson?.isSome = true

instance (accepts : Event → Bool) (e : Event) : Decidable (Delivers accepts e) :=
  inferInstanceAs (Decidable (_ ∧ _))

theorem delivers_iff : Delivers accepts e ↔ ∃ m, publish accepts e = some m ∧ m.taken = true := by
  simp only [Delivers, publish_eq_some, Option.isSome_iff_exists]
  constructor
  · rintro ⟨ha, payload, hj⟩
    exact ⟨_, ⟨payload, hj, rfl⟩, ha⟩
  · rintro ⟨m, ⟨payload, hj, rfl⟩, ht⟩
    exact ⟨ht, payload, hj⟩

/-! ## Marks -/

/-- The event is delivered, and the store marks it. -/
def Marks (accepts : Event → Bool) (b : Backend) (e : Event) : Prop :=
  Delivers accepts e ∧ b.fault (.update e.id) = none ∧ b.store.Holds e.id

instance (accepts : Event → Bool) (b : Backend) (e : Event) : Decidable (Marks accepts b e) :=
  inferInstanceAs (Decidable (_ ∧ _ ∧ _))

theorem mark_ok_iff :
    (∃ b', mark e b = .ok b') ↔ b.fault (.update e.id) = none ∧ b.store.Holds e.id := by
  constructor
  · rintro ⟨b', h⟩
    obtain ⟨hf, hs, -⟩ := Backend.change_ok h
    exact ⟨hf, (Store.update_ok hs).1⟩
  · rintro ⟨hf, hh⟩
    obtain ⟨s, hs⟩ := Store.update_of_holds (e := { e with isSent := true }) hh
    exact ⟨_, Backend.change_of_ok hf hs⟩

theorem mark_find? (h : mark e b = .ok b') :
    b'.store.find? = Function.update b.store.find? e.id (some { e with isSent := true }) :=
  (Backend.update_ok h).1

theorem mark_holds (h : mark e b = .ok b') (id : String) :
    b'.store.Holds id ↔ b.store.Holds id := by
  have hh : b.store.Holds e.id := (mark_ok_iff.1 ⟨b', h⟩).2
  rw [Store.holds_iff, mark_find? h]
  by_cases hi : id = e.id
  · simp [hi, hh]
  · rw [Function.update_of_ne hi, Store.holds_iff]

/-- A mark does not change which events can be marked. -/
theorem marks_of_mark (h : mark e b = .ok b') : Marks accepts b' x ↔ Marks accepts b x := by
  have hf : b'.fault = b.fault := (Backend.update_ok h).2
  simp only [Marks, hf, mark_holds h]

theorem marks_iff : Marks accepts b e ↔
    (∃ m, publish accepts e = some m ∧ m.taken = true) ∧ ∃ b', mark e b = .ok b' := by
  rw [Marks, delivers_iff, mark_ok_iff]

/-! ## The run -/

/-- **One event.** Its message, if it can be written, is handed over; if it is delivered and the store
does not fail, the event is marked and counted. -/
theorem Dispatch.step_spec (accepts : Event → Bool) (d : Dispatch) (e : Event) :
    (d.step accepts e).messages = (publish accepts e).toList ++ d.messages ∧
    if Marks accepts d.backend e then
      mark e d.backend = .ok (d.step accepts e).backend ∧ (d.step accepts e).marked = d.marked + 1
    else (d.step accepts e).backend = d.backend ∧ (d.step accepts e).marked = d.marked := by
  unfold Dispatch.step
  cases hp : publish accepts e with
  | none =>
    have hn : ¬ Marks accepts d.backend e := by simp [marks_iff, hp]
    rw [if_neg hn]
    exact ⟨rfl, rfl, rfl⟩
  | some m =>
    dsimp only
    by_cases ht : m.taken = true
    · rw [if_pos ht]
      cases hk : mark e d.backend with
      | ok b =>
        have hm : Marks accepts d.backend e := marks_iff.2 ⟨⟨m, hp, ht⟩, b, hk⟩
        rw [if_pos hm]
        exact ⟨rfl, rfl, rfl⟩
      | error err =>
        have hn : ¬ Marks accepts d.backend e := by simp [marks_iff, hk]
        rw [if_neg hn]
        exact ⟨rfl, rfl, rfl⟩
    · have hn : ¬ Marks accepts d.backend e := by simp [marks_iff, hp, ht]
      rw [if_neg ht, if_neg hn]
      exact ⟨rfl, rfl, rfl⟩

theorem Dispatch.step_fault (accepts : Event → Bool) (d : Dispatch) (e : Event) :
    (d.step accepts e).backend.fault = d.backend.fault := by
  have h := (d.step_spec accepts e).2
  split at h
  · exact (Backend.update_ok h.1).2
  · rw [h.1]

theorem Dispatch.step_find? (accepts : Event → Bool) (d : Dispatch) (e : Event) :
    (d.step accepts e).backend.store.find? =
      if Marks accepts d.backend e then
        Function.update d.backend.store.find? e.id (some { e with isSent := true })
      else d.backend.store.find? := by
  have h := (d.step_spec accepts e).2
  split at h
  · rename_i hm; rw [if_pos hm, mark_find? h.1]
  · rename_i hn; rw [if_neg hn, h.1]

theorem Dispatch.step_marks (accepts : Event → Bool) (d : Dispatch) (e x : Event) :
    Marks accepts (d.step accepts e).backend x ↔ Marks accepts d.backend x := by
  have h := (d.step_spec accepts e).2
  split at h
  · exact marks_of_mark h.1
  · rw [h.1]

theorem foldl_messages (accepts : Event → Bool) (es : List Event) (d : Dispatch) :
    (es.foldl (Dispatch.step accepts) d).messages =
      (es.filterMap (publish accepts)).reverse ++ d.messages := by
  induction es generalizing d with
  | nil => rfl
  | cons e es ih =>
    rw [List.foldl_cons, ih, (d.step_spec accepts e).1, List.filterMap_cons]
    cases publish accepts e <;> simp

theorem foldl_fault (accepts : Event → Bool) (es : List Event) (d : Dispatch) :
    (es.foldl (Dispatch.step accepts) d).backend.fault = d.backend.fault := by
  induction es generalizing d with
  | nil => rfl
  | cons e es ih => rw [List.foldl_cons, ih, d.step_fault]

/-- Events with distinct ids are marked independently of each other. -/
theorem foldl_find? (accepts : Event → Bool) {es : List Event} (hn : (es.map Event.id).Nodup)
    (d : Dispatch) (id : String) :
    (es.foldl (Dispatch.step accepts) d).backend.store.find? id =
      ((es.find? fun e => decide (e.id = id) && decide (Marks accepts d.backend e)).map
        fun e => { e with isSent := true }).or (d.backend.store.find? id) := by
  induction es generalizing d with
  | nil => rfl
  | cons e es ih =>
    obtain ⟨he, hn⟩ := List.nodup_cons.1 hn
    rw [List.foldl_cons, ih hn, d.step_find?]
    simp only [d.step_marks]
    by_cases hm : Marks accepts d.backend e
    · by_cases hi : e.id = id
      · -- No later event has this id, so the mark stays.
        have hl : (es.find? fun x =>
            decide (x.id = id) && decide (Marks accepts d.backend x)) = none := by
          rw [List.find?_eq_none]
          intro x hx hc
          simp only [Bool.and_eq_true, decide_eq_true_eq] at hc
          exact he (List.mem_map.2 ⟨x, hx, hc.1.trans hi.symm⟩)
        rw [hl, if_pos hm, List.find?_cons_of_pos (by simp [hi, hm]), ← hi]
        exact Function.update_self ..
      · rw [if_pos hm, Function.update_of_ne (Ne.symm hi), List.find?_cons_of_neg (by simp [hi])]
    · rw [if_neg hm, List.find?_cons_of_neg (by simp [hm])]

/-- As many events are counted as can be marked. -/
theorem foldl_marked (accepts : Event → Bool) (es : List Event) (d : Dispatch) :
    (es.foldl (Dispatch.step accepts) d).marked =
      d.marked + es.countP fun e => Marks accepts d.backend e := by
  induction es generalizing d with
  | nil => rfl
  | cons e es ih =>
    have h := (d.step_spec accepts e).2
    rw [List.foldl_cons, ih, List.countP_cons]
    simp only [d.step_marks, decide_eq_true_eq]
    split at h
    · rename_i hm
      rw [if_pos hm, h.2]
      omega
    · rename_i hn
      rw [if_neg hn, h.2]
      omega

/-! ## Listings -/

/-- What a dispatch does with a listing: it handles the events of it that are due, in its order. -/
def handle (accepts : Event → Bool) (now : Instant) (b : Backend) (listing : List Event) :
    Dispatch :=
  (dueEvents now listing).foldl (Dispatch.step accepts) ⟨b, 0, []⟩

theorem handle_messages (accepts : Event → Bool) (now : Instant) (b : Backend)
    (listing : List Event) : (handle accepts now b listing).messages.reverse =
      (dueEvents now listing).filterMap (publish accepts) := by
  rw [handle, foldl_messages]
  simp

section
variable {listing : List Event} (hp : listing.Perm b.store.events)
include hp

theorem mem_dueEvents : e ∈ dueEvents now listing ↔ e ∈ b.store.events ∧ e.IsDue now := by
  rw [dueEvents, List.mem_filter, hp.mem_iff, decide_eq_true_eq]

theorem nodup_dueEvents (now : Instant) : ((dueEvents now listing).map Event.id).Nodup := by
  have hn : (listing.map Event.id).Nodup := (hp.map Event.id).nodup_iff.2 b.store.distinct
  exact hn.sublist (List.filter_sublist.map Event.id)

/-- **Marks.** In whatever order the events are listed, those that are due and can be marked are
marked, and nothing else changes. -/
theorem handle_find? (accepts : Event → Bool) (now : Instant) (id : String) :
    (handle accepts now b listing).backend.store.find? id = (b.store.find? id).map fun e =>
      if e.IsDue now ∧ Marks accepts b e then { e with isSent := true } else e := by
  let listed : Store := ⟨listing, (hp.map Event.id).nodup_iff.2 b.store.distinct⟩
  have hview : listed.find? = b.store.find? := Store.find?_eq_of_perm hp
  have hf : ((dueEvents now listing).find? fun e =>
        decide (e.id = id) && decide (Marks accepts b e)) =
      (b.store.find? id).filter fun e => decide (e.IsDue now ∧ Marks accepts b e) := by
    rw [← hview, ← Store.find?_and, dueEvents, List.find?_filter]
    congr 1
    funext e
    rw [Bool.eq_iff_iff]
    simp only [decide_eq_true_eq, Bool.and_eq_true]
    exact and_left_comm
  rw [handle, foldl_find? accepts (nodup_dueEvents hp now), hf]
  cases b.store.find? id with
  | none => rfl
  | some e =>
    rw [Option.filter_some]
    by_cases hm : e.IsDue now ∧ Marks accepts b e
    · rw [if_pos (decide_eq_true hm), Option.map_some, Option.map_some, if_pos hm]
      rfl
    · rw [if_neg (by simpa using hm), Option.map_some, if_neg hm]
      rfl

end

/-! ## Dispatches -/

theorem dispatch_of_no_fault (accepts : Event → Bool) (now : Instant) (h : b.fault .list = none) :
    dispatch accepts now b = .ok (handle accepts now b b.store.events) := by
  rw [dispatch, Backend.list_of_no_fault h]
  rfl

theorem dispatch_eq (h : dispatch accepts now b = .ok d) :
    d = handle accepts now b b.store.events := by
  unfold dispatch at h
  cases hl : b.list with
  | error err => rw [hl] at h; cases h
  | ok es =>
    rw [hl, Backend.list_ok hl] at h
    cases h
    rfl

theorem dispatch_fault (h : dispatch accepts now b = .ok d) : d.backend.fault = b.fault := by
  rw [dispatch_eq h, handle, foldl_fault]

/-- **Messages.** Every due event that can be written is handed over once, as it is stored. -/
theorem dispatch_messages (h : dispatch accepts now b = .ok d) :
    d.messages.reverse = (dueEvents now b.store.events).filterMap (publish accepts) := by
  rw [dispatch_eq h, handle_messages]

/-- A dispatch marks the due events that can be marked, and changes nothing else. -/
theorem dispatch_find? (h : dispatch accepts now b = .ok d) (id : String) :
    d.backend.store.find? id = (b.store.find? id).map fun e =>
      if e.IsDue now ∧ Marks accepts b e then { e with isSent := true } else e := by
  rw [dispatch_eq h, handle_find? (.refl _)]

/-! ## Examples -/

/-- An event that is due when it starts, on 2026-10-16 at 12:00:30. -/
def visit : Event :=
  { Event.blank with
    id := "visit", title := "Visit", owner := "ada", duration := .second,
    startDate := ⟨1792152030, 0, by decide⟩ }

/-- A visit of 2025-01-01, whose reminder was never sent. -/
def oldVisit : Event := { visit with id := "old", startDate := ⟨1735689600, 0, by decide⟩ }

def visitMessage : Message := ⟨"visit", visit.toJson?.getD [], true⟩

end Agenda.Reminders
