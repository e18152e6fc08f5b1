import Agenda.Proofs.Answers
import Agenda.Proofs.Event.Members
import Agenda.Proofs.Http.Router
import Agenda.Proofs.Json.Extension
import Agenda.Proofs.Json.Written

/-!
# Damaged events

All members of an event have default values, so an object is an event however few it has; what tells a
part of a written event from a whole one is its closing brace alone. An event that is cut short, or
that other bytes are added to, is not read as any event, nor as the id of one that is to be deleted.

* `Event.ofJson_damaged`, `Http.deletion_damaged`: what is read of damaged bytes.
* `Http.Router.damaged_refused`: messages and requests with such bytes are refused.
-/
namespace Agenda

open Json Text.Utf8

variable {e : Event} {cs : List Char} {input : List UInt8} {b : Backend}

namespace Event

/-! ## Written events -/

/-- The members of an event whose duration is so many nanoseconds, as they are written. -/
def writings (e : Event) (nanos : Int64) : List Writing := [
  ⟨"id", _, _, valueText_string e.id⟩,
  ⟨"title", _, _, valueText_string e.title⟩,
  ⟨"startDate", _, _, valueText_string (String.ofList e.startDate.toText)⟩,
  ⟨"duration", _, _, valueText_integer nanos.toInt⟩,
  ⟨"description", _, _, valueText_string e.description⟩,
  ⟨"owner", _, _, valueText_string e.owner⟩,
  ⟨"remindAt", _, _, valueText_integer e.remindAt.toInt⟩,
  ⟨"isSend", _, _, .bool e.isSent⟩]

theorem exists_writings (h : e.toJson? = some cs) :
    ∃ nanos, writeObject ((e.writings nanos).map Writing.full) = cs := by
  obtain ⟨nanos, -, hcs⟩ := Option.map_eq_some_iff.1 h
  exact ⟨nanos, hcs⟩

/-- A written event ends with a brace. -/
theorem last_written (h : e.toJson? = some cs) : ∀ c ∈ (encode cs).getLast?, ¬ isBlank c := by
  obtain ⟨nanos, rfl⟩ := exists_writings h
  have hbytes := encode_writeObject ((e.writings nanos).map Writing.full) []
  rw [List.append_nil] at hbytes
  rw [hbytes, ← List.cons_append, List.getLast?_concat]
  intro c hc
  cases hc
  decide

/-- No field of an event looks further than the byte after its value. -/
theorem extends_fields : ∀ f ∈ record.fields, Extends f.set.run := by
  have text : Extends readText.run := Reader.extends_map Reader.delimits_string.extends _
  have instant : Extends readInstant.run := Reader.extends_andThen Reader.delimits_string.extends _
  have duration : Extends readDuration.run :=
    Reader.extends_mapCause (Reader.extends_map Reader.extends_integer _) _
  intro f hf
  simp only [record, List.mem_cons, List.not_mem_nil, or_false] at hf
  rcases hf with rfl | rfl | rfl | rfl | rfl | rfl | rfl | rfl <;> dsimp only
  · exact Reader.extends_map text _
  · exact Reader.extends_map text _
  · exact Reader.extends_map instant _
  · exact Reader.extends_map duration _
  · exact Reader.extends_map text _
  · exact Reader.extends_map text _
  · exact Reader.extends_map Reader.extends_integer _
  · exact Reader.extends_map Reader.delimits_bool.extends _

theorem ofJson_damaged (h : e.toJson? = some cs) (hd : Damaged (encode cs) input) (f : Event) :
    ofJson input ≠ .ok f :=
  Reader.decode_damaged (Record.delimits_read extends_fields) (ofJson_written h) (last_written h) hd f

end Event

namespace Http

/-! ## Deletions -/

/-- What the id of a deletion makes of a value. -/
def deletionMeaning : deletion.Meaning where
  set? _ v := (Event.text? v).map fun id _ => id
  takes f hf := by
    obtain rfl := List.mem_singleton.1 hf
    dsimp only
    exact Event.text_takes.map _

/-- A written event is read as the deletion of its id. -/
theorem deletion_written (h : e.toJson? = some cs) :
    deletion.reader.decode (encode cs) = .ok e.id := by
  obtain ⟨nanos, rfl⟩ := Event.exists_writings h
  have hnames : ∀ m ∈ (e.writings nanos).map Writing.entry, m.name ≠ none := by
    intro m hm
    obtain ⟨w, -, rfl⟩ := List.mem_map.1 hm
    nofun
  have hknown : deletion.known ((e.writings nanos).map Writing.entry) =
      [("id", .string (some e.id.toList))] := by
    simp [Record.known, Record.field?, deletion, Event.writings, Writing.entry]
  have hid : deletionMeaning.build? [] deletion.blank [("id", .string (some e.id.toList))] =
      some e.id := congrArg some String.ofList_toList
  rw [← toOption_eq_some, deletionMeaning.decode_object (objectText_written _), if_pos hnames,
    hknown, hid]

theorem deletion_damaged (h : e.toJson? = some cs) (hd : Damaged (encode cs) input) (id : String) :
    deletion.reader.decode input ≠ .ok id := by
  refine Reader.decode_damaged (Record.delimits_read fun f hf => ?_) (deletion_written h)
    (Event.last_written h) hd id
  obtain rfl := List.mem_singleton.1 hf
  exact Reader.extends_map (Reader.extends_map Reader.delimits_string.extends _) _

/-! ## Requests -/

theorem decodeBody_refused {α : Type} {p : Reader α} {body : List UInt8}
    (h : ∀ a, p.decode body ≠ .ok a) : ∃ v, decodeBody p body = .error (.invalid v) := by
  rw [decodeBody]
  cases body with
  | nil => exact ⟨_, rfl⟩
  | cons c s =>
    cases hp : p.decode (c :: s) with
    | error err => exact ⟨_, rfl⟩
    | ok a => exact absurd hp (h a)

/-- A handler that refuses what it is given leaves the store as it is. -/
theorem respond_invalid (b : Backend) (v : Violation) :
    ∃ r, respond b (.error (.invalid v)) = (r, b) ∧ r.status = 400 := ⟨_, rfl, rfl⟩

/-- The request is to change the event that its body describes or names. -/
def Request.Edits (req : Request) : Prop :=
  req.Is "POST" "/create" ∨ req.Is "PUT" "/update" ∨ req.Is "DELETE" "/delete"

namespace Router

variable {fresh : String} {now : Instant} {req : Request}

/-- A body that is read neither as an event nor as a deletion is answered with 400. -/
theorem handle?_undecodable (hr : req.Edits) (hl : req.body.length ≤ maxBodyLength)
    (he : ∀ f, Event.ofJson req.body ≠ .ok f) (hid : ∀ id, deletion.reader.decode req.body ≠ .ok id) :
    ∃ r, handle? fresh now req b = some (r, b) ∧ r.status = 400 := by
  have hevent : ∃ v, decodeBody Event.record.reader req.body = .error (.invalid v) :=
    decodeBody_refused he
  have answered {run : Except ServiceError (Response × Backend)} {v : Violation}
      (h : run = .error (.invalid v)) :
      ∃ r, (if maxBodyLength < req.body.length then some (tooLarge, b) else some (respond b run)) =
        some (r, b) ∧ r.status = 400 := by
    rw [if_neg (Nat.not_lt.2 hl), h]
    obtain ⟨r, hres, hs⟩ := respond_invalid b v
    exact ⟨r, congrArg some hres, hs⟩
  rcases hr with hr | hr | hr
  · obtain ⟨v, hv⟩ := hevent
    rw [handle?_eq_serve? .create hr (by decide) (by decide)]
    exact answered (v := v) (by rw [createEvent, hv]; rfl)
  · obtain ⟨v, hv⟩ := hevent
    rw [handle?_eq_serve? .update hr (by decide) (by decide)]
    exact answered (v := v) (by rw [updateEvent, hv]; rfl)
  · obtain ⟨v, hv⟩ := decodeBody_refused hid
    rw [handle?_eq_serve? .delete hr (by decide) (by decide)]
    exact answered (v := v) (by rw [deleteEvent, hv]; rfl)

end Router

end Http

/-! ## Messages -/

/-- Why bytes that are no event are refused as a message. -/
inductive Intake.Refusal (input : List UInt8) : IntakeError → Prop
  | noPayload (h : input = []) : Refusal input .noPayload
  | undecodable (err : ReadError) (hne : input ≠ []) (h : Event.ofJson input = .error err) :
      Refusal input (.undecodable err)

theorem Intake.consume_undecodable (h : ∀ f, Event.ofJson input ≠ .ok f) (fresh : String)
    (b : Backend) : ∃ err, consume fresh (some input) b = .error err ∧ Refusal input err := by
  cases input with
  | nil => exact ⟨_, rfl, .noPayload rfl⟩
  | cons c s =>
    cases hj : Event.ofJson (c :: s) with
    | error err =>
      refine ⟨.undecodable err, ?_, .undecodable err (List.cons_ne_nil c s) hj⟩
      rw [consume]
      · rw [hj]
      · exact List.cons_ne_nil c s
    | ok f => exact absurd hj (h f)

namespace Http.Router

/-- **Damaged events.** Whatever part of a written event arrives, or with whatever other bytes than
blanks behind it, it is no event, neither the written one nor another. A message with it is refused, as
empty or as undecodable; a request with it is answered with 400; and neither changes the store. -/
theorem damaged_refused (h : e.toJson? = some cs) (hd : Damaged (encode cs) input) (b : Backend) :
    (∀ f, Event.ofJson input ≠ .ok f) ∧
    (∀ fresh, ∃ err, (Call.consume fresh (some input)).serve b = (.intake (.error err), b) ∧
      Intake.Refusal input err) ∧
    ∀ fresh now req, req.Edits → req.body = input → input.length ≤ maxBodyLength →
      ∃ r, handle? fresh now req b = some (r, b) ∧ r.status = 400 := by
  have hevent := Event.ofJson_damaged h hd
  refine ⟨hevent, fun fresh => ?_, ?_⟩
  · obtain ⟨err, hc, hrefusal⟩ := Intake.consume_undecodable hevent fresh b
    refine ⟨err, ?_, hrefusal⟩
    rw [Call.serve, hc]
    rfl
  · rintro fresh now req hr rfl hl
    exact handle?_undecodable hr hl hevent (deletion_damaged h hd)

/-- A request to delete the visit, with a brace too many. -/
def bracedRequest : Request :=
  ⟨"DELETE", ⟨encode "/delete".toList, none⟩, visitRequest.body ++ [0x7D]⟩

/-- The visit without its closing brace is not created, and with one more it is not deleted. -/
theorem damaged_refused_visit :
    (∀ f, Event.ofJson visitRequest.body.dropLast ≠ .ok f) ∧
    (∃ err, (Call.consume "a1" (some visitRequest.body.dropLast)).serve (.reliable .empty) =
      (.intake (.error (.undecodable err)), .reliable .empty)) ∧
    ∃ r, handle? "" visit.startDate bracedRequest (.reliable .empty) = some (r, .reliable .empty) ∧
      r.status = 400 := by
  obtain ⟨cs, hcs⟩ := (Event.writable_iff (e := visit)).2 ⟨by decide, by decide⟩
  have hbody : visitRequest.body = encode cs := by
    show encode (visit.toJson?.getD []) = _
    rw [hcs, Option.getD_some]
  have hne : visitRequest.body ≠ [] := by decide +kernel
  have hcut : Damaged (encode cs) visitRequest.body.dropLast := by
    have h : Damaged (visitRequest.body.dropLast ++ [visitRequest.body.getLast hne])
        visitRequest.body.dropLast := .cut (List.cons_ne_nil _ _)
    rw [List.dropLast_append_getLast] at h
    rw [← hbody]
    exact h
  have hextended : Damaged (encode cs) (visitRequest.body ++ [0x7D]) :=
    hbody ▸ .extended ⟨0x7D, List.mem_singleton_self _, by decide⟩
  obtain ⟨hevent, hmessage, -⟩ := damaged_refused hcs hcut (.reliable .empty)
  obtain ⟨-, -, hrequest⟩ := damaged_refused hcs hextended (.reliable .empty)
  refine ⟨hevent, ?_, ?_⟩
  · obtain ⟨err, hserve, hrefusal⟩ := hmessage "a1"
    cases hrefusal with
    | noPayload hnil => exact absurd hnil (by decide +kernel)
    | undecodable err => exact ⟨err, hserve⟩
  · exact hrequest "" visit.startDate bracedRequest (.inr (.inr ⟨rfl, rfl⟩)) rfl
      (by decide +kernel)

end Http.Router

end Agenda
