import Agenda.Json.Skip

/-!
# Reading records

A record is written as an object, its fields in any order, or as a list of the fields in their own
order. A field that is not there keeps its default value, and members of other names are skipped. No
field may occur twice in an object.

* `Record`: the fields of a type and their default values.
* `Record.reader`: reads either form.
-/
namespace Agenda.Json

/-- A field of a record: its name, and a reader of what it makes of a record. -/
structure Field (α : Type) where
  name : String
  set : Reader (α → α)

/-- The fields of a type, in order, and the record in which all have their default values. -/
structure Record (α : Type) where
  title : String
  blank : α
  fields : List (Field α)

/-! ## Keys -/

/-- Reads a key that begins with `b`. -/
def readKey (b : UInt8) (s : List UInt8) : Except Failure (Option (List Char) × List UInt8) :=
  if b = 0x22 then (readString s).map fun (key, r) => (some key, r)
  else .error ⟨.keyMustBeString, s⟩

/-- Goes to the next member of an object: its key, or nothing at the end of the object. -/
def nextKey (first : Bool) (s : List UInt8) :
    Except Failure (Option (List Char) × List UInt8) :=
  match skipBlanks s with
  | [] => .error ⟨.endOfObject, []⟩
  | b :: r =>
    if b = 0x7D then .ok (none, r)
    else if first then readKey b r
    else if b = 0x2C then
      match skipBlanks r with
      | [] => .error ⟨.endOfValue, []⟩
      | c :: r => if c = 0x7D then .error ⟨.trailingComma, r⟩ else readKey c r
    else .error ⟨.expectedObjectCommaOrEnd, r⟩

theorem readKey_length {b : UInt8} {s r : List UInt8} {key : Option (List Char)}
    (h : readKey b s = .ok (key, r)) : r.length ≤ s.length := by
  unfold readKey at h
  split at h
  · obtain ⟨_, hs, he⟩ := map_eq_ok.1 h
    simp only [Prod.mk.injEq] at he
    rw [← he.2]; exact Nat.le_of_lt (readString_length hs)
  · simp at h

theorem nextKey_length {first : Bool} {s r : List UInt8} {key : Option (List Char)}
    (h : nextKey first s = .ok (key, r)) : r.length < s.length := by
  have hs := skipBlanks_length s
  unfold nextKey at h
  split at h
  · simp at h
  · next b t heq =>
    rw [heq, List.length_cons] at hs
    split at h
    · simp only [Except.ok.injEq, Prod.mk.injEq] at h; rw [← h.2]; omega
    · split at h
      · have := readKey_length h; omega
      · split at h
        · have ht := skipBlanks_length t
          split at h
          · simp at h
          · next c u heq' =>
            rw [heq', List.length_cons] at ht
            split at h
            · simp at h
            · have := readKey_length h; omega
        · simp at h

/-- Reads the colon after a key. -/
def readColon (s : List UInt8) : Except Failure (List UInt8) :=
  match skipBlanks s with
  | [] => .error ⟨.endOfObject, []⟩
  | b :: r => if b = 0x3A then .ok r else .error ⟨.expectedColon, r⟩

theorem readColon_length {s r : List UInt8} (h : readColon s = .ok r) : r.length ≤ s.length := by
  have hs := skipBlanks_length s
  unfold readColon at h
  split at h
  · simp at h
  · next b t heq =>
    rw [heq, List.length_cons] at hs
    split at h
    · simp only [Except.ok.injEq] at h; rw [← h]; omega
    · simp at h

/-- Reads a colon and a value. -/
def readMember (p : Reader α) (s : List UInt8) : Except Failure (α × List UInt8) :=
  match readColon s with
  | .ok r => p.run r
  | .error e => .error e

theorem readMember_length {p : Reader α} {s r : List UInt8} {a : α}
    (h : readMember p s = .ok (a, r)) : r.length ≤ s.length := by
  unfold readMember at h
  split at h
  · next hc => exact Nat.le_trans (p.run_length h) (readColon_length hc)
  · simp at h

namespace Record

variable {α : Type}

/-! ## Objects -/

/-- Where a repeated key is reported: after the blanks that follow it and the end of the object, if
that comes next. -/
def afterRepeated (s : List UInt8) : List UInt8 :=
  match skipBlanks s with
  | b :: r => if b = 0x7D then r else b :: r
  | [] => []

/-- The field of a name. -/
def field? (R : Record α) (name : List Char) : Option (Field α) :=
  R.fields.find? fun f => f.name.toList = name

/-- Reads a member after its key into the record `x`; `seen` are the fields read before. -/
def member (R : Record α) (seen : List String) (x : α) (key : List Char) (s : List UInt8) :
    Except Failure ((List String × α) × List UInt8) :=
  match R.field? key with
  | none => (readMember Reader.skipped s).map fun (_, r) => ((seen, x), r)
  | some f =>
    if f.name ∈ seen then .error ⟨.duplicateField f.name, afterRepeated s⟩
    else (readMember f.set s).map fun (set, r) => ((f.name :: seen, set x), r)

theorem member_length {R : Record α} {seen : List String} {x : α} {key : List Char}
    {s r : List UInt8} {y : List String × α} (h : R.member seen x key s = .ok (y, r)) :
    r.length ≤ s.length := by
  unfold member at h
  split at h
  · obtain ⟨_, hm, he⟩ := map_eq_ok.1 h
    simp only [Prod.mk.injEq] at he
    rw [← he.2]; exact readMember_length hm
  · split at h
    · simp at h
    · obtain ⟨_, hm, he⟩ := map_eq_ok.1 h
      simp only [Prod.mk.injEq] at he
      rw [← he.2]; exact readMember_length hm

/-- Reads the members of an object up to its end. -/
def members (R : Record α) (first : Bool) (seen : List String) (x : α) (s : List UInt8) :
    Except Failure (α × List UInt8) :=
  match _hk : nextKey first s with
  | .error e => .error e
  | .ok (none, r) => .ok (x, r)
  | .ok (some key, r) =>
    match _hm : R.member seen x key r with
    | .error e => .error e
    | .ok ((seen, x), r) => R.members false seen x r
termination_by s.length
decreasing_by
  have := nextKey_length _hk
  have := member_length _hm
  omega

theorem members_length {R : Record α} {first : Bool} {seen : List String} {x y : α}
    {s r : List UInt8} (h : R.members first seen x s = .ok (y, r)) : r.length < s.length := by
  rw [members] at h
  split at h
  · simp at h
  · next hk =>
    simp only [Except.ok.injEq, Prod.mk.injEq] at h
    rw [← h.2]; exact nextKey_length hk
  · next hk =>
    split at h
    · simp at h
    · next hm =>
      have := nextKey_length hk
      have := member_length hm
      have := members_length h
      omega
termination_by s.length

/-! ## Lists -/

/-- Goes to the next item of a list: where it begins, or nothing at the end of the list. -/
def nextItem (first : Bool) (s : List UInt8) : Except Failure (Option (List UInt8)) :=
  match skipBlanks s with
  | [] => .error ⟨.endOfList, []⟩
  | b :: r =>
    if b = 0x5D then .ok none
    else if first then .ok (some (b :: r))
    else if b = 0x2C then
      match skipBlanks r with
      | [] => .error ⟨.endOfValue, []⟩
      | c :: r => if c = 0x5D then .error ⟨.trailingComma, r⟩ else .ok (some (c :: r))
    else .error ⟨.expectedListCommaOrEnd, r⟩

theorem nextItem_length {first : Bool} {s r : List UInt8} (h : nextItem first s = .ok (some r)) :
    r.length ≤ s.length := by
  have hs := skipBlanks_length s
  unfold nextItem at h
  split at h
  · simp at h
  · next b t heq =>
    rw [heq, List.length_cons] at hs
    split at h
    · simp at h
    · split at h
      · simp only [Except.ok.injEq, Option.some.injEq] at h; rw [← h, List.length_cons]; omega
      · split at h
        · have ht := skipBlanks_length t
          split at h
          · simp at h
          · next c u heq' =>
            rw [heq', List.length_cons] at ht
            split at h
            · simp at h
            · simp only [Except.ok.injEq, Option.some.injEq] at h
              rw [← h, List.length_cons]; omega
        · simp at h

/-- Reads the items of a list into the record `x`, one for each field, as long as there are items. -/
def items (first : Bool) (x : α) : List (Field α) → List UInt8 → Except Failure (α × List UInt8)
  | [], s => .ok (x, s)
  | f :: fs, s =>
    match nextItem first s with
    | .error e => .error e
    | .ok none => .ok (x, s)
    | .ok (some r) =>
      match f.set.run r with
      | .error e => .error e
      | .ok (set, r) => items false (set x) fs r

theorem items_length {first : Bool} {x y : α} {fs : List (Field α)} {s r : List UInt8}
    (h : items first x fs s = .ok (y, r)) : r.length ≤ s.length := by
  induction fs generalizing first x s with
  | nil => simp_all [items]
  | cons f fs ih =>
    rw [items] at h
    split at h
    · simp at h
    · simp_all
    · next hn =>
      split at h
      · simp at h
      · next hr =>
        have := nextItem_length hn
        have := f.set.run_length hr
        have := ih h
        omega

/-- Reads the end of a list. -/
def endList (s : List UInt8) : Except Failure (List UInt8) :=
  match skipBlanks s with
  | [] => .error ⟨.endOfList, []⟩
  | b :: r =>
    if b = 0x5D then .ok r
    else if b = 0x2C then
      match skipBlanks r with
      | c :: r => .error ⟨if c = 0x5D then .trailingComma else .trailingCharacters, r⟩
      | [] => .error ⟨.trailingCharacters, []⟩
    else .error ⟨.trailingCharacters, r⟩

theorem endList_length {s r : List UInt8} (h : endList s = .ok r) : r.length ≤ s.length := by
  have hs := skipBlanks_length s
  unfold endList at h
  split at h
  · simp at h
  · next b t heq =>
    rw [heq, List.length_cons] at hs
    split at h
    · simp only [Except.ok.injEq] at h; rw [← h]; omega
    · split at h
      · split at h <;> simp at h
      · simp at h

/-- Reads a list of fields after its opening bracket. -/
def list (R : Record α) (s : List UInt8) : Except Failure (α × List UInt8) :=
  match items true R.blank R.fields s with
  | .error e => .error e
  | .ok (x, r) => (endList r).map (x, ·)

theorem list_length {R : Record α} {x : α} {s r : List UInt8} (h : R.list s = .ok (x, r)) :
    r.length ≤ s.length := by
  unfold list at h
  split at h
  · simp at h
  · next hi =>
    obtain ⟨_, hl, he⟩ := map_eq_ok.1 h
    simp only [Prod.mk.injEq] at he
    rw [← he.2]; exact Nat.le_trans (endList_length hl) (items_length hi)

/-! ## Both forms -/

/-- Reads a record in either form. -/
def read (R : Record α) (s : List UInt8) : Except Failure (α × List UInt8) :=
  match skipBlanks s with
  | [] => .error ⟨.endOfValue, []⟩
  | b :: r =>
    if b = 0x5B then R.list r
    else if b = 0x7B then R.members true [] R.blank r
    else .error (unexpected R.title (b :: r))

theorem read_length {R : Record α} {x : α} {s r : List UInt8} (h : R.read s = .ok (x, r)) :
    r.length ≤ s.length := by
  have hs := skipBlanks_length s
  unfold read at h
  split at h
  · simp at h
  · next b t heq =>
    rw [heq, List.length_cons] at hs
    split at h
    · have := list_length h; omega
    · split at h
      · have := members_length h; omega
      · simp at h

/-- The reader of a record. -/
def reader (R : Record α) : Reader α := ⟨R.read, R.read_length⟩

end Record

end Agenda.Json
