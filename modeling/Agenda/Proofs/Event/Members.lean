import Agenda.Proofs.Call
import Agenda.Proofs.Event.Json
import Agenda.Proofs.Json.Object

/-!
# Events by their members

An object is read as an event by those of its own members that have the name of a field. Their order
does not matter, nor do blanks, nor members of other names, whatever values these have; a field that is
not there is as one with its default value. No name of a field may occur twice, and every name of an own
member has to be a text.

* `meaning`: what the fields of an event make of values.
* `ofJson_object`: what is read from an object.
* `reads_by_members`: on what of an object it depends which event is read, and whether one is.
* `nameless_fails`: a member whose name is no text is not skipped.
-/
namespace Agenda.Event

open Json Text.Utf8

/-! ## Fields -/

def text? (v : Value) : Option String := v.text?.map String.ofList

def instant? (v : Value) : Option Instant := v.text?.bind fun cs => (Instant.ofText cs).toOption

/-- What the field of a name makes of a value. -/
def set? (name : String) (v : Value) : Option (Event → Event) :=
  match name with
  | "id" => (text? v).map fun s e => { e with id := s }
  | "title" => (text? v).map fun s e => { e with title := s }
  | "startDate" => (instant? v).map fun t e => { e with startDate := t }
  | "duration" => (v.int64?.map Duration.ofNanos).map fun d e => { e with duration := d }
  | "description" => (text? v).map fun s e => { e with description := s }
  | "owner" => (text? v).map fun s e => { e with owner := s }
  | "remindAt" => v.int64?.map fun n e => { e with remindAt := n }
  | "isSend" => v.bool?.map fun b e => { e with isSent := b }
  | _ => none

theorem text_takes : readText.Takes text? := (Reader.string_takes _).map _

theorem instant_takes : readInstant.Takes instant? := by
  have h := (Reader.string_takes "an RFC 3339 formatted date and time string").andThen
    fun cs => (Instant.ofText cs).mapError Cause.invalidInstant
  have herror (cs : List Char) : ((Instant.ofText cs).mapError Cause.invalidInstant).toOption =
      (Instant.ofText cs).toOption := by
    cases Instant.ofText cs <;> rfl
  simp only [herror] at h
  exact h

theorem duration_takes : readDuration.Takes fun v => v.int64?.map Duration.ofNanos :=
  ((Reader.integer_takes "i64").map _).mapCause _

/-- What the fields of an event make of values. -/
def meaning : record.Meaning where
  set? := set?
  takes f hf := by
    simp only [record, List.mem_cons, List.not_mem_nil, or_false] at hf
    rcases hf with rfl | rfl | rfl | rfl | rfl | rfl | rfl | rfl <;> dsimp only
    · exact text_takes.map _
    · exact text_takes.map _
    · exact instant_takes.map _
    · exact duration_takes.map _
    · exact text_takes.map _
    · exact text_takes.map _
    · exact (Reader.integer_takes "i64").map _
    · exact (Reader.bool_takes "a boolean").map _

/-- Everything that a field can set. -/
inductive Sets : String → (Event → Event) → Prop
  | id (s : String) : Sets "id" fun e => { e with id := s }
  | title (s : String) : Sets "title" fun e => { e with title := s }
  | startDate (t : Instant) : Sets "startDate" fun e => { e with startDate := t }
  | duration (d : Duration) : Sets "duration" fun e => { e with duration := d }
  | description (s : String) : Sets "description" fun e => { e with description := s }
  | owner (s : String) : Sets "owner" fun e => { e with owner := s }
  | remindAt (n : Int64) : Sets "remindAt" fun e => { e with remindAt := n }
  | isSent (b : Bool) : Sets "isSend" fun e => { e with isSent := b }

theorem sets_of_set? {name : String} {v : Value} {set : Event → Event}
    (h : set? name v = some set) : Sets name set := by
  unfold set? at h
  split at h
  case h_9 => cases h
  all_goals
    obtain ⟨a, -, rfl⟩ := Option.map_eq_some_iff.1 h
    constructor

/-- Different names set different fields. -/
theorem meaning_commutes : meaning.Commutes := by
  intro name name' v v' set set' hne h h' x
  have hsets : Sets name set := sets_of_set? h
  have hsets' : Sets name' set' := sets_of_set? h'
  cases hsets <;> cases hsets' <;> first | rfl | exact absurd rfl hne

/-! ## Objects -/

variable {ms : List Entry} {text : List Char}

/-- **Objects.** Which event is read from an object. -/
theorem ofJson_object (h : ObjectText ms text) : (ofJson (encode text)).toOption =
    if ∀ m ∈ ms, m.name ≠ none then meaning.build? [] blank (record.known ms) else none :=
  meaning.decode_object h

/-- The member gives its field the value that it has when it is left out. -/
inductive GivesDefault : Entry → Prop
  | text {name : String} {v : Value} (hn : name ∈ ["id", "title", "description", "owner"])
      (hv : v.text? = some []) : GivesDefault ⟨some name.toList, v⟩
  | startDate {v : Value} (hv : instant? v = some zeroDate) :
      GivesDefault ⟨some "startDate".toList, v⟩
  | number {name : String} {v : Value} (hn : name ∈ ["duration", "remindAt"])
      (hv : v.int64? = some 0) : GivesDefault ⟨some name.toList, v⟩
  | isSend {v : Value} (hv : v.bool? = some false) : GivesDefault ⟨some "isSend".toList, v⟩

/-- A default value leaves the blank event as it is. -/
theorem GivesDefault.set?_blank {m : Entry} (h : GivesDefault m) :
    ∃ name ∈ record.fields.map Field.name, m.name = some name.toList ∧
      ∃ set, set? name m.value = some set ∧ set blank = blank := by
  cases h with
  | text hn hv =>
    simp only [List.mem_cons, List.not_mem_nil, or_false] at hn
    rcases hn with rfl | rfl | rfl | rfl
    all_goals
      refine ⟨_, by decide, rfl, ?_⟩
      simp only [set?, text?, hv]
      exact ⟨_, rfl, rfl⟩
  | startDate hv =>
    refine ⟨_, by decide, rfl, ?_⟩
    simp only [set?, hv]
    exact ⟨_, rfl, rfl⟩
  | number hn hv =>
    simp only [List.mem_cons, List.not_mem_nil, or_false] at hn
    rcases hn with rfl | rfl
    all_goals
      refine ⟨_, by decide, rfl, ?_⟩
      simp only [set?, hv]
      exact ⟨_, rfl, rfl⟩
  | isSend hv =>
    refine ⟨_, by decide, rfl, ?_⟩
    simp only [set?, hv]
    exact ⟨_, rfl, rfl⟩

theorem known_cons_field {name : String} (hn : name ∈ record.fields.map Field.name) {m : Entry}
    (hm : m.name = some name.toList) (ms : List Entry) :
    record.known (m :: ms) = (name, m.value) :: record.known ms := by
  obtain ⟨f, hf, rfl⟩ := List.mem_map.1 hn
  rw [Record.known_cons, hm, Option.bind_some, Record.field?_of_mem record_names_nodup hf]

/-- A known name is the name of a member. -/
theorem exists_of_mem_known {k : String × Value} (hk : k ∈ record.known ms) :
    ∃ m ∈ ms, m.name = some k.1.toList := by
  obtain ⟨m, hm, h⟩ := List.mem_filterMap.1 hk
  obtain ⟨f, hf, rfl⟩ := Option.map_eq_some_iff.1 h
  obtain ⟨name, hname, hfield⟩ := Option.bind_eq_some_iff.1 hf
  have hsame : f.name.toList = name := by simpa using List.find?_some hfield
  exact ⟨m, hm, by rw [hname, hsame]⟩

theorem ofJson_eq_ok_iff (h : ObjectText ms text) {e : Event} : ofJson (encode text) = .ok e ↔
    (∀ m ∈ ms, m.name ≠ none) ∧ meaning.build? [] blank (record.known ms) = some e := by
  rw [← toOption_eq_some, ofJson_object h]
  by_cases hn : ∀ m ∈ ms, m.name ≠ none
  · rw [if_pos hn, and_iff_right hn]
  · rw [if_neg hn]
    exact iff_of_false nofun fun h => hn h.1

/-- A default value counts as nothing. -/
theorem build?_default {m : Entry} (hm : GivesDefault m) (hnew : ∀ k ∈ ms, k.name ≠ m.name) :
    meaning.build? [] blank (record.known (m :: ms)) =
      meaning.build? [] blank (record.known ms) := by
  obtain ⟨name, hn, hname, set, hset, hblank⟩ := hm.set?_blank
  have hfresh : ∀ k ∈ record.known ms, k.1 ≠ name := by
    intro k hk he
    obtain ⟨m', hm', hk'⟩ := exists_of_mem_known hk
    exact hnew m' hm' (by rw [hk', he, hname])
  rw [known_cons_field hn hname, Record.Meaning.build?, if_neg List.not_mem_nil,
    show meaning.set? name m.value = some set from hset, Option.bind_some, hblank]
  exact Record.Meaning.build?_seen (fun k hk => by simp [hfresh k hk]) _

/-- **Events by their members.** Two objects of the same known members, in whatever order and among
whatever other members, are read alike, and so are two of which one has a default value where the other
has nothing. An object in which a name of a field occurs twice is not read, nor is one with a member
whose name is no text. -/
theorem reads_by_members (h : ObjectText ms text) :
    (∀ ms' text', ObjectText ms' text' → (∀ m ∈ ms, m.name ≠ none) → (∀ m ∈ ms', m.name ≠ none) →
      (record.known ms).Perm (record.known ms') →
      ∀ e, ofJson (encode text) = .ok e ↔ ofJson (encode text') = .ok e) ∧
    (∀ m ms' text', GivesDefault m → (∀ k ∈ ms, k.name ≠ m.name) → ms'.Perm (m :: ms) →
      ObjectText ms' text' →
      ∀ e, ofJson (encode text) = .ok e ↔ ofJson (encode text') = .ok e) ∧
    (¬ ((record.known ms).map Prod.fst).Nodup → ∀ e, ofJson (encode text) ≠ .ok e) ∧
    ((∃ m ∈ ms, m.name = none) → ∀ e, ofJson (encode text) ≠ .ok e) := by
  refine ⟨fun ms' text' h' hnames hnames' hp e => ?_, fun m ms' text' hm hnew hp h' e => ?_,
    fun hn e he => ?_, fun ⟨m, hm, hname⟩ e he => ?_⟩
  · rw [ofJson_eq_ok_iff h, ofJson_eq_ok_iff h',
      Record.Meaning.build?_perm meaning_commutes hp [] blank]
    exact and_congr_left fun _ => iff_of_true hnames hnames'
  · obtain ⟨name, -, hname, -⟩ := hm.set?_blank
    have hnames : (∀ k ∈ ms', k.name ≠ none) ↔ ∀ k ∈ ms, k.name ≠ none := by
      simp only [hp.mem_iff, List.forall_mem_cons, hname]
      simp
    have hknown : (record.known ms').Perm (record.known (m :: ms)) := hp.filterMap _
    rw [ofJson_eq_ok_iff h, ofJson_eq_ok_iff h', hnames, ← build?_default hm hnew,
      Record.Meaning.build?_perm meaning_commutes hknown [] blank]
  · exact hn (Record.Meaning.not_mem_of_build? ((ofJson_eq_ok_iff h).1 he).2).2
  · exact ((ofJson_eq_ok_iff h).1 he).1 m hm hname

/-- The member `"owner":"ada"`. -/
def ownerPair : Pair := .plain "owner".toList "ada".toList (by decide) (by decide)

/-- The same member with an escape in its name. -/
def escapedPair : Pair :=
  { ownerPair with key := .unit "006f".toList (by decide) :: plains "wner".toList (by decide) }

/-- The member `"x":[true]`, which is no field. -/
def otherPair : Pair :=
  .bare (plains "x".toList (by decide)) .list
    (brackets .empty [⟨.empty, .bool true, writeBool true, .empty⟩])

/-- The member `"isSend":false`, which is the default. -/
def pendingPair : Pair :=
  .bare (plains "isSend".toList (by decide)) (.bool false) (writeBool false)

example : braces .empty [otherPair, escapedPair] =
    "\x7b\"x\":[true],\"\\u006fwner\":\"ada\"\x7d".toList := by decide

theorem objectText_braces (pairs : List Pair)
    (h : ∀ p ∈ pairs, ValueText p.item.value p.item.text) :
    ObjectText (pairs.map Pair.entry) (braces .empty pairs) := by
  have h := ObjectText.intro .empty .empty pairs .empty h
  simpa [Space.empty] using h

theorem valueText_owner : ValueText ownerPair.item.value ownerPair.item.text :=
  valueText_plain _ _

theorem valueText_other : ValueText otherPair.item.value otherPair.item.text :=
  .list .empty _ fun i hi => by
    obtain rfl := List.mem_singleton.1 hi
    exact .bool true

theorem reads_by_members_owner :
    (∀ e, ofJson (encode (braces .empty [ownerPair])) = .ok e ↔
      ofJson (encode (braces .empty [otherPair, escapedPair])) = .ok e) ∧
    (∀ e, ofJson (encode (braces .empty [ownerPair])) = .ok e ↔
      ofJson (encode (braces .empty [pendingPair, ownerPair])) = .ok e) ∧
    ofJson (encode (braces .empty [ownerPair])) = .ok { blank with owner := "ada" } ∧
    ∀ e, ofJson (encode (braces .empty [ownerPair, escapedPair])) ≠ .ok e := by
  have h : ObjectText [ownerPair.entry] (braces .empty [ownerPair]) :=
    objectText_braces [ownerPair] (List.forall_mem_singleton.2 valueText_owner)
  have hother : ObjectText [otherPair.entry, escapedPair.entry]
      (braces .empty [otherPair, escapedPair]) :=
    objectText_braces [otherPair, escapedPair]
      (List.forall_mem_cons.2 ⟨valueText_other, List.forall_mem_singleton.2 valueText_owner⟩)
  have hpending : ObjectText [pendingPair.entry, ownerPair.entry]
      (braces .empty [pendingPair, ownerPair]) :=
    objectText_braces [pendingPair, ownerPair]
      (List.forall_mem_cons.2 ⟨.bool false, List.forall_mem_singleton.2 valueText_owner⟩)
  have htwice : ObjectText [ownerPair.entry, escapedPair.entry]
      (braces .empty [ownerPair, escapedPair]) :=
    objectText_braces [ownerPair, escapedPair]
      (List.forall_mem_cons.2 ⟨valueText_owner, List.forall_mem_singleton.2 valueText_owner⟩)
  refine ⟨?_, ?_, ?_, ?_⟩
  · exact (reads_by_members h).1 _ _ hother (by decide) (by decide) (.refl _)
  · exact (reads_by_members h).2.1 pendingPair.entry _ _ (.isSend rfl) (by decide) (.refl _) hpending
  · exact (ofJson_eq_ok_iff h).2 ⟨by decide, rfl⟩
  · exact (reads_by_members htwice).2.2.1 (by decide)

/-- The member `"\uDE00":0`, whose name is half a surrogate pair. -/
def namelessPair : Pair :=
  .bare [.unit "DE00".toList (by decide)] (.number (.ofNat 0)) ['0']

example : braces .empty [namelessPair] = "\x7b\"\\uDE00\":0\x7d".toList := by decide

/-- A member whose name is no text is no field, and yet the object is not read with it. -/
theorem nameless_fails :
    ObjectText [] (braces .empty []) ∧
    ObjectText [namelessPair.entry] (braces .empty [namelessPair]) ∧
    record.known [namelessPair.entry] = record.known [] ∧
    ofJson (encode (braces .empty [])) = .ok blank ∧
    ∀ e, ofJson (encode (braces .empty [namelessPair])) ≠ .ok e := by
  have hempty : ObjectText [] (braces .empty []) := objectText_braces [] (List.forall_mem_nil _)
  have h : ObjectText [namelessPair.entry] (braces .empty [namelessPair]) :=
    objectText_braces [namelessPair] (List.forall_mem_singleton.2 (.number (.ofNat 0)))
  refine ⟨hempty, h, rfl, ?_, fun e he => ?_⟩
  · exact (ofJson_eq_ok_iff hempty).2 ⟨List.forall_mem_nil _, rfl⟩
  · exact ((ofJson_eq_ok_iff h).1 he).1 _ List.mem_cons_self rfl

end Agenda.Event
