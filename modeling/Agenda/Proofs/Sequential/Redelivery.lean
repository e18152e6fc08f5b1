import Agenda.Proofs.Event.Json
import Agenda.Proofs.Intake
import Agenda.Proofs.Reminders
import Mathlib.Data.Finset.Card

/-!
# Messages that come again

Messages are delivered at least once, so a message may come again at any later time. The first valid
event of each id is stored, unless one is stored under that id already. When its message comes again it
is a duplicate, and a message without a valid event is refused each time. So however often messages come
again, nothing changes.

* `receive`: messages one after the other into a store that does not fail.
* `find?_receive`, `created_eq_card`: what is stored in the end, and how many events were created.
* `Redelivered`: the same messages, some of them again later.
* `redelivery_harmless`: messages that come again change nothing.
-/
namespace Agenda.Sequential

/-- A message as it is delivered; an event without an id would be stored under the fresh one. -/
structure Delivery where
  fresh : String
  payload : Option (List UInt8)

/-- The valid event that a message holds. -/
def Delivery.event? (m : Delivery) : Option Event := Intake.event? m.payload

/-- Takes in a message: the outcome, and the store after it. -/
def Delivery.take (st : Store) (m : Delivery) : Except IntakeError Intake × Store :=
  match Intake.consume m.fresh m.payload (.reliable st) with
  | .ok (outcome, b) => (.ok outcome, b.store)
  | .error err => (.error err, st)

/-- If the payload holds a valid event, that has an id. -/
def Identified (payload : Option (List UInt8)) : Prop := ∀ e ∈ Intake.event? payload, e.id ≠ ""

/-- The store after messages one after the other. -/
def receive (st : Store) (ms : List Delivery) : Store := ms.foldl (fun st m => (m.take st).2) st

/-- An event was created. -/
def isCreated : Except IntakeError Intake → Bool
  | .ok (.created _) => true
  | _ => false

/-- For how many of the messages an event is created. -/
def created (st : Store) : List Delivery → Nat
  | [] => 0
  | m :: ms => (isCreated (m.take st).1).toNat + created (m.take st).2 ms

/-- The ids of events that are not stored under them. -/
def newIds (st : Store) (es : List Event) : Finset String :=
  (es.map Event.id).toFinset.filter fun id => ¬ st.Holds id

variable {st st' : Store} {m m' : Delivery} {ms ms' : List Delivery} {e : Event} {es : List Event}
  {id : String} {payload : Option (List UInt8)} {seen : List (Option (List UInt8))}

/-! ## One message -/

namespace Delivery

/-- The fresh id does not matter. -/
theorem take_congr (hm : Identified m.payload) (hp : m'.payload = m.payload) (st : Store) :
    m'.take st = m.take st := by
  rw [take, take, hp]
  cases he : Intake.event? m.payload with
  | none =>
    obtain ⟨err, hr⟩ := Intake.consume_refused he
    rw [hr, hr]
  | some e =>
    have hid := Event.accepted_of_ne (hm e he)
    rw [Intake.consume_event he, Intake.consume_event he, hid, hid]

/-- A message without a valid event is refused, for the same reason each time. -/
theorem take_of_none (h : m.event? = none) : ∃ err, ∀ st, m.take st = (.error err, st) := by
  obtain ⟨err, hr⟩ := Intake.consume_refused h
  refine ⟨err, fun st => ?_⟩
  rw [take, hr]

/-- An event whose id is stored is a duplicate. -/
theorem take_of_holds (hm : Identified m.payload) (he : m.event? = some e) (hh : st.Holds e.id) :
    m.take st = (.ok (.duplicate e.id), st) := by
  rw [take, Intake.consume_held he (hm e he) hh]
  rfl

/-- An event whose id is not stored is created. -/
theorem take_of_not_holds (hm : Identified m.payload) (he : m.event? = some e)
    (hn : ¬ st.Holds e.id) :
    ∃ st' : Store, st'.events = e.rearmed :: st.events ∧ m.take st = (.ok (.created e.id), st') := by
  obtain ⟨st', hadded, hconsume⟩ := Intake.consume_new he (hm e he) hn
  refine ⟨st', hadded, ?_⟩
  rw [take, hconsume]
  rfl

/-- **One message.** It is refused, or it is a duplicate, or its event is added. -/
theorem take_cases (hm : Identified m.payload) (st : Store) :
    (m.event? = none ∧ ∃ err, m.take st = (.error err, st)) ∨
    (∃ e, m.event? = some e ∧ st.Holds e.id ∧ m.take st = (.ok (.duplicate e.id), st)) ∨
    ∃ e st', m.event? = some e ∧ ¬ st.Holds e.id ∧ st'.events = e.rearmed :: st.events ∧
      m.take st = (.ok (.created e.id), st') := by
  cases he : m.event? with
  | none =>
    obtain ⟨err, hr⟩ := take_of_none he
    exact .inl ⟨rfl, err, hr st⟩
  | some e =>
    by_cases hh : st.Holds e.id
    · exact .inr (.inl ⟨e, rfl, hh, take_of_holds hm he hh⟩)
    · obtain ⟨st', hadded, hr⟩ := take_of_not_holds hm he hh
      exact .inr (.inr ⟨e, st', rfl, hh, hadded, hr⟩)

end Delivery

/-! ## Messages in a row -/

theorem holds_added (h : st'.events = e.rearmed :: st.events) :
    st'.Holds id ↔ id = e.id ∨ st.Holds id := by
  rw [Store.Holds, h]
  exact List.mem_cons

theorem find?_added (h : st'.events = e.rearmed :: st.events) (id : String) :
    st'.find? id = if e.id = id then some e.rearmed else st.find? id := by
  rw [Store.find?, h, List.find?_cons]
  by_cases hid : e.id = id
  · simp [Event.rearmed, Event.truncated, hid]
  · simp [Event.rearmed, Event.truncated, hid, Store.find?]

/-- What is stored stays so. -/
theorem holds_take (hm : Identified m.payload) (h : st.Holds id) : (m.take st).2.Holds id := by
  obtain ⟨-, err, hr⟩ | ⟨e, -, -, hr⟩ | ⟨e, st', -, -, hadded, hr⟩ := m.take_cases hm st
  · rw [hr]
    exact h
  · rw [hr]
    exact h
  · rw [hr]
    exact (holds_added hadded).2 (.inr h)

/-- **What is stored.** Under each id the event that is stored already, or else the first valid event
that comes with it. -/
theorem find?_receive (hm : ∀ m ∈ ms, Identified m.payload) (st : Store) (id : String) :
    (receive st ms).find? id = (st.find? id).or
      (((ms.filterMap Delivery.event?).find? fun e => e.id = id).map Event.rearmed) := by
  induction ms generalizing st with
  | nil => simp [receive]
  | cons m ms ih =>
    obtain ⟨hm, hms⟩ := List.forall_mem_cons.1 hm
    show (receive (m.take st).2 ms).find? id = _
    rw [ih hms]
    obtain ⟨hnone, err, hr⟩ | ⟨e, he, hh, hr⟩ | ⟨e, st', he, hn, hadded, hr⟩ := m.take_cases hm st
    · rw [hr, List.filterMap_cons_none hnone]
    · rw [hr, List.filterMap_cons_some he, List.find?_cons]
      by_cases hid : e.id = id
      · obtain ⟨f, hf⟩ := Store.holds_iff.1 (hid ▸ hh)
        rw [hf]
        rfl
      · simp [hid]
    · rw [hr, List.filterMap_cons_some he, List.find?_cons, find?_added hadded]
      by_cases hid : e.id = id
      · subst hid
        simp [Store.find?_eq_none_iff.2 hn]
      · simp [hid]

theorem newIds_held (hh : st.Holds e.id) : newIds st (e :: es) = newIds st es := by
  simp [newIds, Finset.filter_insert, hh]

theorem newIds_added (hn : ¬ st.Holds e.id) (h : st'.events = e.rearmed :: st.events)
    (es : List Event) :
    newIds st (e :: es) = insert e.id (newIds st' es) ∧ e.id ∉ newIds st' es := by
  refine ⟨Finset.ext fun id => ?_, ?_⟩
  · by_cases hid : id = e.id
    · simp [newIds, hid, hn]
    · simp [newIds, hid, holds_added h]
  · simp [newIds, holds_added h]

/-- **What is created.** One event for each id that comes with a valid event and is not stored. -/
theorem created_eq_card (hm : ∀ m ∈ ms, Identified m.payload) (st : Store) :
    created st ms = (newIds st (ms.filterMap Delivery.event?)).card := by
  induction ms generalizing st with
  | nil => rfl
  | cons m ms ih =>
    obtain ⟨hm, hms⟩ := List.forall_mem_cons.1 hm
    rw [created, ih hms]
    obtain ⟨hnone, err, hr⟩ | ⟨e, he, hh, hr⟩ | ⟨e, st', he, hn, hadded, hr⟩ := m.take_cases hm st
    · rw [hr, List.filterMap_cons_none hnone]
      exact Nat.zero_add _
    · rw [hr, List.filterMap_cons_some he, newIds_held hh]
      exact Nat.zero_add _
    · obtain ⟨hids, hfresh⟩ := newIds_added hn hadded (ms.filterMap Delivery.event?)
      rw [hr, List.filterMap_cons_some he, hids, Finset.card_insert_of_notMem hfresh]
      exact Nat.add_comm _ _

/-! ## Messages that have come before -/

/-- The store has nothing to gain from the message: it holds no valid event, or one whose id is
stored. -/
structure Known (st : Store) (payload : Option (List UInt8)) : Prop where
  identified : Identified payload
  holds : ∀ e ∈ Intake.event? payload, st.Holds e.id

/-- A message that is known changes nothing. -/
theorem Known.take (h : Known st m.payload) :
    isCreated (m.take st).1 = false ∧ (m.take st).2 = st := by
  obtain ⟨-, err, hr⟩ | ⟨e, -, -, hr⟩ | ⟨e, -, he, hn, -⟩ := m.take_cases h.identified st
  · rw [hr]
    exact ⟨rfl, rfl⟩
  · rw [hr]
    exact ⟨rfl, rfl⟩
  · exact absurd (h.holds e he) hn

/-- Once a message has come it is known. -/
theorem known_take (hm : Identified m.payload) (st : Store) : Known (m.take st).2 m.payload := by
  refine ⟨hm, fun f hf => ?_⟩
  obtain ⟨hnone, -⟩ | ⟨e, he, hh, hr⟩ | ⟨e, st', he, hn, hadded, hr⟩ := m.take_cases hm st
  · cases hnone.symm.trans hf
  · cases he.symm.trans hf
    rw [hr]
    exact hh
  · cases he.symm.trans hf
    rw [hr]
    exact (holds_added hadded).2 (.inl rfl)

/-- What is known stays so. -/
theorem Known.of_take (h : Known st payload) (hm : Identified m.payload) :
    Known (m.take st).2 payload :=
  ⟨h.identified, fun f hf => holds_take hm (h.holds f hf)⟩

theorem Known.receive (h : Known st payload) (hm : ∀ m ∈ ms, Identified m.payload) :
    Known (receive st ms) payload := by
  induction ms generalizing st with
  | nil => exact h
  | cons m ms ih =>
    obtain ⟨hm, hms⟩ := List.forall_mem_cons.1 hm
    exact ih (h.of_take hm) hms

/-- **Again.** A message that comes again is refused for the same reason, or it is a duplicate, and it
changes nothing. -/
theorem take_again {pre mid : List Delivery} (hm : Identified m.payload)
    (hmid : ∀ m ∈ mid, Identified m.payload) (hp : m'.payload = m.payload) (st : Store) :
    (∃ err, (m.take (receive st pre)).1 = .error err ∧
      m'.take (receive st (pre ++ m :: mid)) = (.error err, receive st (pre ++ m :: mid))) ∨
    ∃ e, m'.event? = some e ∧ m'.take (receive st (pre ++ m :: mid)) =
      (.ok (.duplicate e.id), receive st (pre ++ m :: mid)) := by
  have hknown : Known (receive st (pre ++ m :: mid)) m.payload := by
    rw [receive, List.foldl_append]
    exact (known_take hm _).receive hmid
  have hevent : m'.event? = m.event? := congrArg Intake.event? hp
  rw [Delivery.take_congr hm hp, hevent]
  cases he : m.event? with
  | none =>
    obtain ⟨err, hr⟩ := Delivery.take_of_none he
    exact .inl ⟨err, by rw [hr], hr _⟩
  | some e => exact .inr ⟨e, rfl, Delivery.take_of_holds hm he (hknown.holds e he)⟩

/-! ## Redelivery -/

/-- The second row is the first with messages inserted whose payloads have come before; those in `seen`
came before the row. Fresh ids are generated anew. -/
inductive Redelivered : (seen : List (Option (List UInt8))) → List Delivery → List Delivery → Prop
  | nil {seen : List (Option (List UInt8))} : Redelivered seen [] []
  | next {seen : List (Option (List UInt8))} {ms ms' : List Delivery} {m m' : Delivery}
      (hp : m'.payload = m.payload) (h : Redelivered (m.payload :: seen) ms ms') :
      Redelivered seen (m :: ms) (m' :: ms')
  | again {seen : List (Option (List UInt8))} {ms ms' : List Delivery} {m : Delivery}
      (hp : m.payload ∈ seen) (h : Redelivered seen ms ms') : Redelivered seen ms (m :: ms')

theorem Redelivered.identified (h : Redelivered seen ms ms') (hm : ∀ m ∈ ms, Identified m.payload)
    (hseen : ∀ p ∈ seen, Identified p) : ∀ m ∈ ms', Identified m.payload := by
  induction h with
  | nil => exact hm
  | next hp _ ih =>
    obtain ⟨hm, hms⟩ := List.forall_mem_cons.1 hm
    exact List.forall_mem_cons.2 ⟨hp ▸ hm, ih hms (List.forall_mem_cons.2 ⟨hm, hseen⟩)⟩
  | again hp _ ih => exact List.forall_mem_cons.2 ⟨hseen _ hp, ih hm hseen⟩

/-- Two rows that differ in messages that are known leave the same store and create as many events. -/
theorem Redelivered.receive_eq (h : Redelivered seen ms ms') (st : Store)
    (hm : ∀ m ∈ ms, Identified m.payload) (hseen : ∀ p ∈ seen, Known st p) :
    receive st ms' = receive st ms ∧ created st ms' = created st ms := by
  induction h generalizing st with
  | nil => exact ⟨rfl, rfl⟩
  | @next seen ms ms' m m' hp _ ih =>
    obtain ⟨hm, hms⟩ := List.forall_mem_cons.1 hm
    obtain ⟨hreceive, hcreated⟩ := ih (m.take st).2 hms
      (List.forall_mem_cons.2 ⟨known_take hm st, fun p hp => (hseen p hp).of_take hm⟩)
    have htake : m'.take st = m.take st := Delivery.take_congr hm hp st
    constructor
    · show receive (m'.take st).2 ms' = receive (m.take st).2 ms
      rw [htake, hreceive]
    · rw [created, created, htake, hcreated]
  | @again seen ms ms' m hp _ ih =>
    obtain ⟨hreceive, hcreated⟩ := ih st hm hseen
    obtain ⟨hnot, hsame⟩ := (hseen _ hp).take
    constructor
    · show receive (m.take st).2 ms' = receive st ms
      rw [hsame, hreceive]
    · rw [created, hnot, hsame, hcreated]
      exact Nat.zero_add _

/-- **Redelivery.** If every valid event has an id it does not matter that messages come again: the
store is the same in the end, with the first valid event of each new id, and as many events are created,
one for each of these ids. A message that comes again is refused for the same reason or a duplicate. -/
theorem redelivery_harmless (st : Store) (hm : ∀ m ∈ ms, Identified m.payload)
    (h : Redelivered [] ms ms') :
    receive st ms' = receive st ms ∧
    (∀ pre m mid m' post, ms' = pre ++ m :: (mid ++ m' :: post) → m'.payload = m.payload →
      (∃ err, (m.take (receive st pre)).1 = .error err ∧
        m'.take (receive st (pre ++ m :: mid)) = (.error err, receive st (pre ++ m :: mid))) ∨
      ∃ e, m'.event? = some e ∧ m'.take (receive st (pre ++ m :: mid)) =
        (.ok (.duplicate e.id), receive st (pre ++ m :: mid))) ∧
    created st ms' = created st ms ∧
    created st ms = (newIds st (ms.filterMap Delivery.event?)).card ∧
    ∀ id, (receive st ms).find? id = (st.find? id).or
      (((ms.filterMap Delivery.event?).find? fun e => e.id = id).map Event.rearmed) := by
  obtain ⟨hreceive, hcreated⟩ := h.receive_eq st hm (by simp)
  refine ⟨hreceive, ?_, hcreated, created_eq_card hm st, find?_receive hm st⟩
  rintro pre m mid m' post rfl hp
  have hall := h.identified hm (by simp)
  exact take_again (hall m (by simp)) (fun d hd => hall d (by simp [hd])) hp st

/-! ## A visit that comes again -/

open Reminders

/-- The message of the visit. -/
def visitDelivery (fresh : String) : Delivery := ⟨fresh, visit.toJson?.map Text.Utf8.encode⟩

/-- A message that is no text. -/
def noText : Delivery := ⟨"", some [255]⟩

def delivered : List Delivery := [visitDelivery "a", noText]

def redelivered : List Delivery :=
  [visitDelivery "a", noText, visitDelivery "b", noText, visitDelivery "c"]

theorem event?_visitDelivery (fresh : String) : (visitDelivery fresh).event? = some visit := by
  obtain ⟨text, hj⟩ := Event.writable_iff.2 (show visit.duration.Fits from ⟨by decide, by decide⟩)
  rw [Delivery.event?, visitDelivery, hj]
  exact Intake.event?_eq_some (Event.ofJson_written hj) (by decide)

theorem event?_noText : noText.event? = none := by decide +kernel

theorem redelivered_delivered : Redelivered [] delivered redelivered :=
  .next rfl <| .next rfl <| .again (by simp [visitDelivery]) <| .again (by simp) <|
    .again (by simp [visitDelivery]) .nil

/-- The visit is created once, and no event without an id comes with the messages. -/
theorem redelivery_harmless_visit : (∀ m ∈ delivered, Identified m.payload) ∧
    receive .empty redelivered = receive .empty delivered ∧
    created .empty redelivered = 1 ∧ (receive .empty redelivered).find? visit.id = some visit := by
  have hm : ∀ m ∈ delivered, Identified m.payload := by
    intro m hm e he
    simp only [delivered, List.mem_cons, List.not_mem_nil, or_false] at hm
    obtain rfl | rfl := hm
    · cases (event?_visitDelivery "a").symm.trans he
      decide
    · cases event?_noText.symm.trans he
  have hevents : delivered.filterMap Delivery.event? = [visit] := by
    simp [delivered, event?_visitDelivery, event?_noText]
  obtain ⟨hreceive, -, hcreated, hcard, hfind⟩ :=
    redelivery_harmless .empty hm redelivered_delivered
  rw [hevents] at hcard hfind
  refine ⟨hm, hreceive, ?_, ?_⟩
  · rw [hcreated, hcard]
    decide
  · rw [hreceive, hfind]
    decide

end Agenda.Sequential
