import Agenda.Json.Record
import Agenda.Proofs.Json.Reader

/-!
# Written records are read back

An object whose members are fields of a record, each at most once and each read back from its text, is
read as the record that these fields make of the blank one, in their order.

* `Member`: a field, the text of its value, and what is read from it.
* `Record.read_written`: an object of such members is read back.
* `Record.read_induction`: what the blank record has and every field keeps, every record has that is
  read, whatever the input.
-/
namespace Agenda.Json

open Text.Utf8

variable {α : Type}

/-! ## Members -/

/-- A member of an object: a field, the text of its value, and what is read from that text. -/
structure Member (α : Type) where
  field : Field α
  value : List Char
  set : α → α
  reads : field.set.Reads value set

/-- The member of a field that a value sets. -/
def Member.of {β : Type} {p : Reader β} {value : List Char} {b : β} (name : String)
    (set : β → α → α) (h : p.Reads value b) : Member α where
  field := ⟨name, p.map set⟩
  value := value
  set := set b
  reads := h.map set

/-- The member as text. -/
def Member.text (m : Member α) : List Char := writeMember m.field.name m.value

/-- Whatever is read into the field keeps the property. -/
def Field.Keeps (f : Field α) (P : α → Prop) : Prop :=
  ∀ s g r, f.set.run s = .ok (g, r) → ∀ x, P x → P (g x)

variable {r : List UInt8}

theorem encode_member (m : Member α) (r : List UInt8) :
    encode m.text ++ r = 0x22 :: (encode (m.field.name.toList.flatMap writeChar) ++
      0x22 :: 0x3A :: (encode m.value ++ r)) := by
  rw [Member.text, writeMember, encode_append, List.append_assoc, encode_writeString, encode_cons]
  rfl

theorem readKey_written (name : List Char) :
    readKey 0x22 (encode (name.flatMap writeChar) ++ 0x22 :: r) = .ok (some name, r) := by
  rw [readKey, if_pos rfl, readString_written]
  rfl

theorem readMember_written (m : Member α) (hr : ValueEnds r) :
    readMember m.field.set (0x3A :: (encode m.value ++ r)) = .ok (m.set, r) := by
  rw [readMember, readColon, skipBlanks_cons (b := 0x3A) rfl]
  exact m.reads r hr

theorem encode_writeObject (members : List (List Char)) (r : List UInt8) :
    encode (writeObject members) ++ r =
      0x7B :: (encode (List.intercalate [','] members) ++ 0x7D :: r) := by
  have hb : encode ['\x7d'] = [0x7D] := by decide
  rw [writeObject, encode_append, encode_cons, hb, List.append_assoc]
  rfl

namespace Record

variable {R : Record α} {seen : List String} {x : α} {s : List UInt8} {first : Bool}

theorem members_of_end (h : nextKey first s = .ok (none, r)) :
    R.members first seen x s = .ok (x, r) := by
  rw [members]
  split
  · simp_all
  · simp_all
  · simp_all

theorem members_of_member {key : List Char} {seen' : List String} {x' : α} {r' : List UInt8}
    (hk : nextKey first s = .ok (some key, r))
    (hm : R.member seen x key r = .ok ((seen', x'), r')) :
    R.members first seen x s = R.members false seen' x' r' := by
  rw [members]
  split
  · simp_all
  · simp_all
  · rename_i hk'
    rw [hk] at hk'
    cases hk'
    split
    · simp_all
    · rename_i hm'
      rw [hm] at hm'
      cases hm'
      rfl

/-- A field is found under its name if no other has that name. -/
theorem field?_of_mem {f : Field α} (hn : (R.fields.map Field.name).Nodup) (hf : f ∈ R.fields) :
    R.field? f.name.toList = some f := by
  rw [field?]
  generalize R.fields = fs at hn hf
  induction fs with
  | nil => cases hf
  | cons g fs ih =>
    obtain ⟨hg, hn⟩ := List.nodup_cons.1 hn
    rw [List.find?_cons]
    rcases List.mem_cons.1 hf with rfl | hf
    · simp
    · have hne : g.name ≠ f.name := fun he => hg (he ▸ List.mem_map_of_mem hf)
      have hne : g.name.toList ≠ f.name.toList := fun he => hne (String.toList_inj.1 he)
      rw [decide_eq_false hne]
      exact ih hn hf

theorem member_written {m : Member α} (hf : R.field? m.field.name.toList = some m.field)
    (hn : m.field.name ∉ seen) (hr : ValueEnds r) :
    R.member seen x m.field.name.toList (0x3A :: (encode m.value ++ r)) =
      .ok ((m.field.name :: seen, m.set x), r) := by
  simp only [member, hf, if_neg hn, readMember_written m hr]
  rfl

theorem nextKey_first (name : List Char) :
    nextKey true (0x22 :: (encode (name.flatMap writeChar) ++ 0x22 :: r)) = .ok (some name, r) := by
  rw [nextKey, skipBlanks_cons (b := 0x22) rfl]
  exact readKey_written name

theorem nextKey_comma (name : List Char) :
    nextKey false (0x2C :: 0x22 :: (encode (name.flatMap writeChar) ++ 0x22 :: r)) =
      .ok (some name, r) := by
  rw [nextKey, skipBlanks_cons (b := 0x2C) rfl]
  simp only [skipBlanks_cons (b := 0x22) rfl]
  exact readKey_written name

theorem nextKey_end (first : Bool) : nextKey first (0x7D :: r) = .ok (none, r) := by
  rw [nextKey, skipBlanks_cons (b := 0x7D) rfl]
  rfl

theorem members_written {ms : List (Member α)}
    (hfields : ∀ m ∈ ms, R.field? m.field.name.toList = some m.field)
    (hnodup : (ms.map fun m => m.field.name).Nodup) (hseen : ∀ m ∈ ms, m.field.name ∉ seen) :
    R.members false seen x (encode (more (ms.map Member.text)) ++ 0x7D :: r) =
      .ok (ms.foldl (fun x m => m.set x) x, r) := by
  induction ms generalizing seen x with
  | nil => exact members_of_end (nextKey_end false)
  | cons m ms ih =>
    obtain ⟨hm, hnodup⟩ := List.nodup_cons.1 hnodup
    have hfield := hfields m List.mem_cons_self
    have hnew := hseen m List.mem_cons_self
    rw [List.map_cons, encode_more, encode_member, members_of_member (nextKey_comma _)
      (member_written hfield hnew (valueEnds_more _ (valueEnds_brace r))), List.foldl_cons]
    apply ih
    · exact fun k hk => hfields k (List.mem_cons_of_mem m hk)
    · exact hnodup
    · intro k hk hks
      rcases List.mem_cons.1 hks with he | hks
      · exact hm (List.mem_map.2 ⟨k, hk, he⟩)
      · exact hseen k (List.mem_cons_of_mem m hk) hks

/-- **Objects.** An object of fields of the record, in its order, is read as what they make of the
blank record. -/
theorem read_written {ms : List (Member α)} (hms : (ms.map Member.field).Sublist R.fields)
    (hn : (R.fields.map Field.name).Nodup) :
    R.reader.Reads (writeObject (ms.map Member.text)) (ms.foldl (fun x m => m.set x) R.blank) := by
  have hfields (m) (hm : m ∈ ms) : R.field? m.field.name.toList = some m.field :=
    field?_of_mem hn (hms.subset (List.mem_map_of_mem hm))
  have hnodup : (ms.map fun m => m.field.name).Nodup := by
    have h := hn.sublist (hms.map Field.name)
    rwa [List.map_map] at h
  clear hms
  intro r _
  have hopen (s : List UInt8) : R.reader.run (0x7B :: s) = R.members true [] R.blank s := by
    show R.read (0x7B :: s) = _
    rw [read, skipBlanks_cons (b := 0x7B) rfl]
    rfl
  rw [encode_writeObject, hopen]
  cases ms with
  | nil => exact members_of_end (nextKey_end true)
  | cons m ms =>
    obtain ⟨hm, hnodup⟩ := List.nodup_cons.1 hnodup
    have hfield := hfields m List.mem_cons_self
    rw [List.map_cons, intercalate_comma, encode_append, List.append_assoc, encode_member,
      members_of_member (nextKey_first _) (member_written hfield List.not_mem_nil
        (valueEnds_more _ (valueEnds_brace r))), List.foldl_cons]
    apply members_written
    · exact fun k hk => hfields k (List.mem_cons_of_mem m hk)
    · exact hnodup
    · intro k hk hks
      exact hm (List.mem_map.2 ⟨k, hk, List.mem_singleton.1 hks⟩)

/-! ## What all records that are read have -/

variable {P : α → Prop} {y : α}

theorem member_keeps {key : List Char} {seen' : List String} (hset : ∀ f ∈ R.fields, f.Keeps P)
    (hx : P x) (h : R.member seen x key s = .ok ((seen', y), r)) : P y := by
  unfold member at h
  split at h
  · obtain ⟨_, _, he⟩ := map_eq_ok.1 h
    cases he
    exact hx
  · rename_i f hf
    split at h
    · cases h
    · obtain ⟨⟨g, r'⟩, hm, he⟩ := map_eq_ok.1 h
      cases he
      unfold readMember at hm
      split at hm
      · exact hset f (List.mem_of_find?_eq_some hf) _ _ _ hm x hx
      · cases hm

theorem members_keeps (hset : ∀ f ∈ R.fields, f.Keeps P) (hx : P x)
    (h : R.members first seen x s = .ok (y, r)) : P y := by
  fun_induction R.members first seen x s with
  | case1 => cases h
  | case2 => cases h; exact hx
  | case3 => cases h
  | case4 first seen x s key r' hk seen' x' r'' hm ih => exact ih (member_keeps hset hx hm) h

theorem items_keeps {fs : List (Field α)} (hset : ∀ f ∈ fs, f.Keeps P) (hx : P x)
    (h : items first x fs s = .ok (y, r)) : P y := by
  induction fs generalizing first x s with
  | nil => cases h; exact hx
  | cons f fs ih =>
    rw [items] at h
    split at h
    · cases h
    · cases h; exact hx
    · split at h
      · cases h
      · rename_i g r' hg
        have hkeep := hset f List.mem_cons_self _ _ _ hg x hx
        exact ih (fun k hk => hset k (List.mem_cons_of_mem f hk)) hkeep h

/-- **Records that are read.** They have what the blank record has and every field keeps. -/
theorem read_induction (hblank : P R.blank) (hset : ∀ f ∈ R.fields, f.Keeps P)
    (h : R.read s = .ok (y, r)) : P y := by
  unfold read at h
  split at h
  · cases h
  · split at h
    · unfold list at h
      split at h
      · cases h
      · rename_i hi
        obtain ⟨_, _, he⟩ := map_eq_ok.1 h
        cases he
        exact items_keeps hset hblank hi
    · split at h
      · exact members_keeps hset hblank h
      · cases h

/-- The same for records that are the whole input. -/
theorem decode_induction {input : List UInt8} (hblank : P R.blank)
    (hset : ∀ f ∈ R.fields, f.Keeps P) (h : R.reader.decode input = .ok y) : P y := by
  unfold Reader.decode at h
  split at h
  · cases h
  · rename_i hr
    split at h
    · cases h
      exact read_induction hblank hset hr
    · cases h

end Record

end Agenda.Json
