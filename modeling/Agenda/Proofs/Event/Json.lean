import Agenda.Event.Json
import Agenda.Proofs.Json.Record
import Agenda.Proofs.Time.Text

/-!
# Written events are read back

An event is written as an object of its eight fields. Each field is read back from its text, so the
whole event is, and two events that are written alike are the same. The only limit is the duration: it
must fit 64 bits of nanoseconds, and it does in every event that was read.

* `writable_iff`: an event can be written exactly if its duration fits.
* `ofJson_written`: a written event is read back.
* `writable_of_ofJson`: an event that was read can be written.
* `toJson_round_trip`: the three together.
-/
namespace Agenda

open Json Text.Utf8

namespace Duration

/-- The duration is a 64-bit count of nanoseconds. -/
def Fits (d : Duration) : Prop := -2 ^ 63 ≤ d.nanos ∧ d.nanos < 2 ^ 63

theorem fits_ofNanos (n : Int64) : (ofNanos n).Fits := ⟨n.le_toInt, n.toInt_lt⟩

theorem toNanos?_eq_some {d : Duration} (h : d.Fits) :
    d.toNanos? = some (Int64.ofInt d.nanos) := by
  have hmin : Int64.minValue.toInt = -2 ^ 63 := by decide
  have hmax : Int64.maxValue.toInt = 2 ^ 63 - 1 := by decide
  obtain ⟨h₁, h₂⟩ := h
  rw [toNanos?, if_pos (by omega)]

theorem toNanos?_eq_none {d : Duration} (h : ¬ d.Fits) : d.toNanos? = none := by
  have hmin : Int64.minValue.toInt = -2 ^ 63 := by decide
  have hmax : Int64.maxValue.toInt = 2 ^ 63 - 1 := by decide
  rw [Fits] at h
  rw [toNanos?, if_neg (by omega)]

theorem ofNanos_ofInt {d : Duration} (h : d.Fits) : ofNanos (Int64.ofInt d.nanos) = d := by
  have hn : (Int64.ofInt d.nanos).toInt = d.nanos := Int64.toInt_ofInt_of_le h.1 h.2
  cases d
  simp only [ofNanos, hn]

end Duration

namespace Event

/-! ## The fields -/

theorem text_reads (s : String) : readText.Reads (writeString s) s := by
  have h := (Reader.string_reads "a string" s).map String.ofList
  rw [String.ofList_toList] at h
  exact h

theorem instant_reads (t : Instant) :
    readInstant.Reads (writeString (String.ofList t.toText)) t := by
  refine (Reader.string_reads _ _).andThen ?_
  rw [String.toList_ofList, Instant.ofText_toText]
  rfl

theorem duration_reads (n : Int64) :
    readDuration.Reads (writeInteger n.toInt) (Duration.ofNanos n) :=
  ((Reader.integer_reads "i64" n).map Duration.ofNanos).mapCause _

/-- The members of an event whose duration is so many nanoseconds. -/
def members (e : Event) (nanos : Int64) : List (Member Event) := [
  .of "id" (fun s e => { e with id := s }) (text_reads e.id),
  .of "title" (fun s e => { e with title := s }) (text_reads e.title),
  .of "startDate" (fun t e => { e with startDate := t }) (instant_reads e.startDate),
  .of "duration" (fun d e => { e with duration := d }) (duration_reads nanos),
  .of "description" (fun s e => { e with description := s }) (text_reads e.description),
  .of "owner" (fun s e => { e with owner := s }) (text_reads e.owner),
  .of "remindAt" (fun n e => { e with remindAt := n }) (Reader.integer_reads "i64" e.remindAt),
  .of "isSend" (fun b e => { e with isSent := b }) (Reader.bool_reads "a boolean" e.isSent)]

theorem fields_members (e : Event) (nanos : Int64) :
    ((e.members nanos).map Member.field).Sublist record.fields := .refl record.fields

theorem record_names_nodup : (record.fields.map Field.name).Nodup := by
  simp only [record, List.map_cons, List.map_nil]
  decide

/-- The members replace every field of the blank event. -/
theorem set_members (e : Event) (nanos : Int64) :
    (e.members nanos).foldl (fun x m => m.set x) record.blank =
      { e with duration := .ofNanos nanos } := by
  simp only [members, List.foldl_cons, List.foldl_nil, Member.of]

theorem toJson?_eq (e : Event) :
    e.toJson? = e.duration.toNanos?.map fun nanos =>
      writeObject ((e.members nanos).map Member.text) := rfl

/-! ## The whole event -/

/-- An event can be written exactly if its duration is a 64-bit count of nanoseconds. -/
theorem writable_iff {e : Event} : (∃ cs, e.toJson? = some cs) ↔ e.duration.Fits := by
  by_cases h : e.duration.Fits
  · simp [toJson?_eq, Duration.toNanos?_eq_some h, h]
  · simp [toJson?_eq, Duration.toNanos?_eq_none h, h]

theorem reads_written {e : Event} {cs : List Char} (h : e.toJson? = some cs) :
    record.reader.Reads cs e := by
  have hfits := writable_iff.1 ⟨cs, h⟩
  rw [toJson?_eq, Duration.toNanos?_eq_some hfits, Option.map_some, Option.some.injEq] at h
  have hread := Record.read_written (e.fields_members (Int64.ofInt e.duration.nanos))
    record_names_nodup
  rwa [h, set_members, Duration.ofNanos_ofInt hfits] at hread

theorem ofJson_written {e : Event} {cs : List Char} (h : e.toJson? = some cs) :
    ofJson (encode cs) = .ok e := Reader.decode_of_reads (reads_written h)

/-- Events that are written alike are the same. -/
theorem toJson?_inj {e e' : Event} {cs : List Char} (h : e.toJson? = some cs)
    (h' : e'.toJson? = some cs) : e = e' := by
  have he := ofJson_written h
  rw [ofJson_written h'] at he
  cases he
  rfl

/-- A field that leaves the duration alone keeps it within 64 bits. -/
theorem keeps_fits {β : Type} {name : String} {p : Reader β} {set : β → Event → Event}
    (h : ∀ b e, e.duration.Fits → (set b e).duration.Fits) :
    (⟨name, p.map set⟩ : Json.Field Event).Keeps fun e => e.duration.Fits := by
  intro s g r hg x hx
  obtain ⟨⟨b, r'⟩, _, he⟩ := map_eq_ok.1 hg
  cases he
  exact h b x hx

theorem duration_keeps_fits :
    (⟨"duration", readDuration.map fun d e => { e with duration := d }⟩ : Json.Field Event).Keeps
      fun e => e.duration.Fits := by
  intro s g r hg x _
  obtain ⟨⟨d, r'⟩, hd, he⟩ := map_eq_ok.1 hg
  cases he
  simp only [readDuration, Reader.mapCause] at hd
  split at hd
  · rename_i hi
    obtain ⟨⟨n, _⟩, _, hn⟩ := map_eq_ok.1 hi
    cases hd
    cases hn
    exact Duration.fits_ofNanos n
  · cases hd

theorem writable_of_ofJson {input : List UInt8} {e : Event} (h : ofJson input = .ok e) :
    ∃ cs, e.toJson? = some cs := by
  rw [writable_iff]
  refine Record.decode_induction (P := fun e => e.duration.Fits) ?_ ?_ h
  · exact Duration.fits_ofNanos 0
  · intro f hf
    simp only [record, List.mem_cons, List.not_mem_nil, or_false] at hf
    rcases hf with rfl | rfl | rfl | rfl | rfl | rfl | rfl | rfl
    case inr.inr.inr.inl => exact duration_keeps_fits
    all_goals exact keeps_fits fun _ _ he => he

/-- **Events as JSON.** An event can be written exactly if its duration is a 64-bit count of
nanoseconds; what is written is read back as the same event; and every event that is read, from
whatever bytes, can be written. -/
theorem toJson_round_trip (e : Event) :
    ((∃ cs, e.toJson? = some cs) ↔ -2 ^ 63 ≤ e.duration.nanos ∧ e.duration.nanos ≤ 2 ^ 63 - 1) ∧
    (∀ cs, e.toJson? = some cs → ofJson (encode cs) = .ok e) ∧
    ∀ input, ofJson input = .ok e → ∃ cs, e.toJson? = some cs := by
  refine ⟨?_, fun _ => ofJson_written, fun _ => writable_of_ofJson⟩
  rw [writable_iff, Duration.Fits, Int.le_sub_one_iff]

end Event

end Agenda
