import Agenda.Proofs.Event.Members
import Agenda.Proofs.Json.Sequence
import Agenda.Proofs.Time.Offset

/-!
# Starts of events that are read

Which event is read depends on the text of its start only through the instant that the text denotes,
in an object as in a list, and whatever else stands there. So two texts that denote the same instant can
take each other's place.

* `StartText`: the texts of an event whose start is spelled in one way, by what else there is.
* `ofJson_start`: the start is set in what the rest makes of the blank event.
* `ofJson_of_start`: the events that are read when the start denotes an instant.
-/
namespace Agenda.Event

open Json Text.Utf8

/-- What there is beside the start: the other members of an object, or the items before and after it in
a list. -/
inductive Rest where
  | members (ms : List Entry)
  | items (id title : Value) (vs : List Value)

/-- The member that spells the start in this way. -/
def startEntry (cs : List Char) : Entry := ⟨some "startDate".toList, .string (some cs)⟩

/-- The text is one of an event whose start is spelled in this way. -/
inductive StartText (cs : List Char) : Rest → List Char → Prop
  | object {ms others : List Entry} {text : List Char} (h : ObjectText ms text)
      (hp : ms.Perm (startEntry cs :: others))
      (hothers : ∀ m ∈ others, m.name ≠ some "startDate".toList) :
      StartText cs (.members others) text
  | list {id title : Value} {vs : List Value} {text : List Char}
      (h : ListText (id :: title :: .string (some cs) :: vs) text) :
      StartText cs (.items id title vs) text

/-- What the rest makes of the blank event. -/
def other? : Rest → Option Event
  | .members ms =>
    if ∀ m ∈ ms, m.name ≠ none then meaning.build? [] blank (record.known ms) else none
  | .items id title vs =>
    (set? "id" id).bind fun setId => (set? "title" title).bind fun setTitle =>
      meaning.fill? (setTitle (setId blank)) (record.fields.drop 3) vs

variable {cs : List Char} {rest : Rest} {text : List Char} {t u : Instant}

theorem set?_start (cs : List Char) : set? "startDate" (.string (some cs)) =
    (Instant.ofText cs).toOption.map fun t e => { e with startDate := t } := rfl

theorem ofJson_start_object {ms others : List Entry} (h : ObjectText ms text)
    (hp : ms.Perm (startEntry cs :: others))
    (hothers : ∀ m ∈ others, m.name ≠ some "startDate".toList) :
    (ofJson (encode text)).toOption =
      (Instant.ofText cs).toOption.bind fun t =>
        (other? (.members others)).map fun e => { e with startDate := t } := by
  have hname : "startDate" ∈ record.fields.map Field.name := by decide
  have hnew : ∀ m ∈ record.known others, m.1 ≠ "startDate" := by
    intro m hm he
    obtain ⟨k, hk, hkname⟩ := exists_of_mem_known hm
    exact hothers k hk (he ▸ hkname)
  have hknown : (record.known ms).Perm
      (("startDate", .string (some cs)) :: record.known others) := by
    have h : (record.known ms).Perm (record.known (startEntry cs :: others)) := hp.filterMap _
    rwa [known_cons_field hname rfl] at h
  have hnames : (∀ m ∈ ms, m.name ≠ none) ↔ ∀ m ∈ others, m.name ≠ none := by
    simp only [hp.mem_iff, List.forall_mem_cons]
    simp [startEntry]
  rw [ofJson_object h, Record.Meaning.build?_perm meaning_commutes hknown,
    Record.Meaning.build?_front meaning_commutes hnew, other?]
  simp only [hnames]
  show (if _ then (set? "startDate" _).bind _ else none) = _
  rw [set?_start]
  cases Instant.ofText cs with
  | error e => simp [Except.toOption]
  | ok t =>
    split <;> rfl

theorem ofJson_start_list {id title : Value} {vs : List Value}
    (h : ListText (id :: title :: .string (some cs) :: vs) text) :
    (ofJson (encode text)).toOption =
      (Instant.ofText cs).toOption.bind fun t =>
        (other? (.items id title vs)).map fun e => { e with startDate := t } := by
  have hread := meaning.decode_list (List.cons_ne_nil _ _) h
  have hnew : ∀ f ∈ record.fields.drop 3, f.name ≠ "startDate" := by
    intro f hf
    have hall : ∀ name ∈ (record.fields.drop 3).map Field.name, name ≠ "startDate" := by decide
    exact hall f.name (List.mem_map_of_mem hf)
  have hfill : meaning.fill? blank record.fields (id :: title :: .string (some cs) :: vs) =
      (set? "id" id).bind fun setId => (set? "title" title).bind fun setTitle =>
        (set? "startDate" (.string (some cs))).bind fun setStart =>
          (meaning.fill? (setTitle (setId blank)) (record.fields.drop 3) vs).map setStart := by
    show (set? "id" id).bind _ = _
    refine Option.bind_congr fun setId _ => ?_
    show (set? "title" title).bind _ = _
    refine Option.bind_congr fun setTitle _ => ?_
    show (set? "startDate" (.string (some cs))).bind _ = _
    refine Option.bind_congr fun setStart hset => ?_
    have hset : meaning.set? "startDate" (.string (some cs)) = some setStart := hset
    exact Record.Meaning.fill?_set meaning_commutes hset hnew vs _
  refine hread.trans (hfill.trans ?_)
  rw [set?_start, other?]
  cases Instant.ofText cs with
  | error e => simp [Except.toOption]
  | ok t => simp [Except.toOption, Option.map_bind]

/-- **Starts.** An event is read if its start denotes an instant and the rest can be read. -/
theorem ofJson_start (h : StartText cs rest text) : (ofJson (encode text)).toOption =
    (Instant.ofText cs).toOption.bind fun t =>
      (other? rest).map fun e => { e with startDate := t } := by
  cases h with
  | object h hp hothers => exact ofJson_start_object h hp hothers
  | list h => exact ofJson_start_list h

theorem ofJson_of_start (h : StartText cs rest text) (ht : Instant.ofText cs = .ok t) {e : Event} :
    ofJson (encode text) = .ok e ↔ ∃ e', other? rest = some e' ∧ { e' with startDate := t } = e := by
  rw [← toOption_eq_some, ofJson_start h, ht]
  exact Option.map_eq_some_iff

end Agenda.Event
