import Agenda.Proofs.Event.Json
import Agenda.Proofs.Intake
import Agenda.Proofs.Reminders

/-!
# From reminders to messages

A dispatch publishes an event as JSON, and an intake elsewhere reads it back. For an event that is kept
as the calendar keeps one, nothing is lost on the way: the message is the event, and taking it in stores
the same event, its reminder pending. Where the event itself is stored the message is a duplicate.

* `dispatch_messages_of`: a due event is published once, and no other message looks like its own.
* `dispatched_event_arrives`: what becomes of the message on either side.
-/
namespace Agenda.Reminders

open Text.Utf8

variable {accepts : Event → Bool} {now : Instant} {b : Backend} {st : Store} {e : Event} {d : Dispatch}
  {payload : List Char}

/-- The event is as the calendar keeps it: valid, under an id, and its start cut to microseconds. -/
structure Regular (e : Event) : Prop where
  id : e.id ≠ ""
  valid : e.violation? = none
  start : e.startDate.truncateToMicros = e.startDate
  writable : e.duration.Fits

/-- A dispatch on a store that does not fail comes to its end. -/
theorem exists_dispatch (accepts : Event → Bool) (now : Instant) (st : Store) :
    ∃ d, dispatch accepts now (.reliable st) = .ok d := ⟨_, rfl⟩

/-- A due event that is written is published once, and every message under its id or with its text is
that one. -/
theorem dispatch_messages_of (h : dispatch accepts now b = .ok d) (he : e ∈ b.store.events)
    (hd : e.IsDue now) (hj : e.toJson? = some payload) :
    (d.messages.filter fun m => m.id = e.id ∨ m.payload = payload) =
      [⟨e.id, payload, accepts e⟩] := by
  have hm := dispatch_messages h
  have hnodup : d.messages.Nodup := by
    have hids : (d.messages.reverse.map Message.id).Nodup := by
      rw [hm]
      refine (b.store.distinct.sublist ?_)
      exact (sublist_messages accepts _).trans (List.filter_sublist.map Event.id)
    exact List.nodup_reverse.1 hids.of_map
  refine List.perm_singleton.1 ((List.perm_ext_iff_of_nodup (hnodup.filter _)
    (List.nodup_singleton _)).2 fun m => ?_)
  rw [List.mem_filter, ← List.mem_reverse, hm, List.mem_filterMap, decide_eq_true_eq,
    List.mem_singleton]
  constructor
  · rintro ⟨⟨f, hf, hp⟩, hlike⟩
    obtain ⟨hf, -⟩ := List.mem_filter.1 hf
    obtain ⟨text, hjf, rfl⟩ := publish_eq_some.1 hp
    -- Its id or its text tells which event a message is of.
    have hfe : f = e := by
      rcases hlike with hid | htext
      · exact List.inj_on_of_nodup_map b.store.distinct hf he hid
      · exact Event.toJson?_inj (hjf.trans (congrArg some htext)) hj
    subst hfe
    rw [hj] at hjf
    cases hjf
    rfl
  · rintro rfl
    refine ⟨⟨e, List.mem_filter.2 ⟨he, decide_eq_true hd⟩, ?_⟩, .inl rfl⟩
    exact publish_eq_some.2 ⟨payload, hj, rfl⟩

/-- What is kept of a regular event whose reminder is pending is the event itself. -/
theorem Regular.rearmed_eq (hr : Regular e) (hs : e.isSent = false) : e.rearmed = e := by
  rw [Event.rearmed, Event.truncated, ← hs]
  simp only [hr.start]

/-- A message with a regular event is told to hold it. -/
theorem Regular.event?_written (hr : Regular e) (hj : e.toJson? = some payload) :
    Intake.event? (some (encode payload)) = some e :=
  Intake.event?_eq_some (Event.ofJson_written hj) hr.valid

/-- **Handover.** A regular event that is due is published once, as JSON. Whoever takes the message in
and does not store its id stores the event, and nothing else changes; where the event was published it
is stored as sent, and the message is a duplicate that changes nothing. -/
theorem dispatched_event_arrives (he : e ∈ st.events) (hd : e.IsDue now) (hr : Regular e)
    (ha : accepts e = true) :
    ∃ d payload, dispatch accepts now (.reliable st) = .ok d ∧ e.toJson? = some payload ∧
      (d.messages.filter fun m => m.id = e.id ∨ m.payload = payload) = [⟨e.id, payload, true⟩] ∧
      (∀ fresh st', ¬ st'.Holds e.id → ∃ st'' : Store,
        Intake.consume fresh (some (encode payload)) (.reliable st') =
          .ok (.created e.id, .reliable st'') ∧
        st''.events = e :: st'.events ∧ e.isSent = false) ∧
      d.backend.store.find? e.id = some { e with isSent := true } ∧
      ∀ fresh, Intake.consume fresh (some (encode payload)) d.backend =
        .ok (.duplicate e.id, d.backend) := by
  obtain ⟨payload, hj⟩ := Event.writable_iff.2 hr.writable
  obtain ⟨d, h⟩ := exists_dispatch accepts now st
  have hevent := hr.event?_written hj
  have hmessages := dispatch_messages_of h he hd hj
  rw [ha] at hmessages
  have hmarked : d.backend.store.find? e.id = some { e with isSent := true } := by
    have hmarks : Marks accepts (.reliable st) e :=
      ⟨⟨ha, by rw [hj]; rfl⟩, rfl, List.mem_map_of_mem he⟩
    rw [dispatch_find? h, show (Backend.reliable st).store.find? e.id = some e from
      Store.find?_of_mem he, Option.map_some, if_pos ⟨hd, hmarks⟩]
  refine ⟨d, payload, h, hj, hmessages, fun fresh st' hn => ?_, hmarked, fun fresh => ?_⟩
  · obtain ⟨st'', hadded, hconsume⟩ := Intake.consume_new hevent hr.id hn
    rw [hr.rearmed_eq hd.1] at hadded
    exact ⟨st'', hconsume fresh, hadded, hd.1⟩
  · have hstore : d.backend = .reliable d.backend.store := by
      rw [Backend.reliable, ← show d.backend.fault = fun _ => none from dispatch_fault h]
    rw [hstore]
    exact Intake.consume_held hevent hr.id (Store.holds_iff.2 ⟨_, hmarked⟩) fresh

theorem visit_regular : Regular visit where
  id := by decide
  valid := by decide
  start := by decide
  writable := ⟨by decide, by decide⟩

/-- The message of the visit fills an empty store. -/
theorem dispatched_event_arrives_visit : ∃ d payload st',
    dispatch (fun _ => true) visit.startDate (.reliable ⟨[visit], by decide⟩) = .ok d ∧
    visit.toJson? = some payload ∧
    d.backend.store.find? visit.id = some { visit with isSent := true } ∧
    Intake.consume "" (some (encode payload)) (.reliable .empty) =
      .ok (.created "visit", .reliable st') ∧
    st'.events = [visit] := by
  obtain ⟨d, payload, h, hj, -, hnew, hmarked, -⟩ := @dispatched_event_arrives (fun _ => true)
    visit.startDate ⟨[visit], by decide⟩ visit (List.mem_singleton.2 rfl) (by decide) visit_regular rfl
  obtain ⟨st', hconsume, hadded, -⟩ := hnew "" .empty (by decide)
  exact ⟨d, payload, st', h, hj, hmarked, hconsume, hadded⟩

end Agenda.Reminders
