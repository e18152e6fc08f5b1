import Agenda.Json.Error
import Agenda.Text.Utf8

/-!
# Reading JSON strings

The bytes between the quotes are UTF-8 without control characters. An escape is one letter, or four
hexadecimal digits of a UTF-16 code unit; two of these that form a surrogate pair make one character.

* `readString`: a string, from behind its opening quote.
-/
namespace Agenda.Json

/-- The value of a hexadecimal digit. -/
def hexValue (b : UInt8) : Option Nat :=
  if 0x30 ≤ b ∧ b ≤ 0x39 then some (b.toNat - 0x30)
  else if 0x41 ≤ b ∧ b ≤ 0x46 then some (b.toNat - 0x37)
  else if 0x61 ≤ b ∧ b ≤ 0x66 then some (b.toNat - 0x57)
  else none

/-- The character of a one-letter escape. -/
def escapedChar (b : UInt8) : Option Char :=
  if b = 0x22 ∨ b = 0x5C ∨ b = 0x2F then some (Char.ofNat b.toNat)
  else if b = 0x62 then some '\x08'
  else if b = 0x66 then some '\x0C'
  else if b = 0x6E then some '\n'
  else if b = 0x72 then some '\r'
  else if b = 0x74 then some '\t'
  else none

/-- Where a string reader stands. -/
inductive StringPhase where
  /-- Before a byte that stands for itself, an escape or the closing quote. -/
  | plain
  /-- After a backslash. -/
  | escape
  /-- Before the last `left` digits of a hexadecimal escape; `value` is absent after a byte that is no
  digit. `lead` is the first half of a surrogate pair. -/
  | hex (left : Nat) (value : Option Nat) (lead : Option Nat)
  /-- After the first half of a surrogate pair, before the backslash of the second. -/
  | pair (lead : Nat)
  /-- After the first half of a surrogate pair and a backslash. -/
  | pairEscape (lead : Nat)
  deriving DecidableEq, Repr

/-- One more digit of a hexadecimal escape. -/
def addHex (value : Option Nat) (b : UInt8) : Option Nat :=
  value.bind fun n => (hexValue b).map (16 * n + ·)

/-- Ends a hexadecimal escape: a character, or the first half of a pair, or an error. -/
def endHex (value lead : Option Nat) : Except Cause (Char ⊕ Nat) :=
  match value, lead with
  | none, _ => .error .invalidEscape
  | some n, none =>
    if 0xDC00 ≤ n ∧ n ≤ 0xDFFF then .error .loneSurrogate
    else if 0xD800 ≤ n ∧ n ≤ 0xDBFF then .ok (.inr n)
    else .ok (.inl (Char.ofNat n))
  | some n, some lead =>
    if 0xDC00 ≤ n ∧ n ≤ 0xDFFF then
      .ok (.inl (Char.ofNat (0x10000 + (lead - 0xD800) * 0x400 + (n - 0xDC00))))
    else .error .loneSurrogate

/-- The encoding of a character onto bytes whose last one comes first. -/
def pushChar (c : Char) (done : List UInt8) : List UInt8 := (Text.Utf8.encode [c]).reverse ++ done

/-- Reads the bytes of a string after its opening quote, escapes replaced by the encodings of their
characters; `done` is what has been read, last byte first. -/
def readBytes (done : List UInt8) (phase : StringPhase) :
    List UInt8 → Except Failure (List UInt8 × List UInt8)
  | [] => .error ⟨.endOfString, []⟩
  | b :: s =>
    match phase with
    | .plain =>
      if b = 0x22 then .ok (done.reverse, s)
      else if b = 0x5C then readBytes done .escape s
      else if b < 0x20 then .error ⟨.controlCharacter, s⟩
      else readBytes (b :: done) .plain s
    | .escape =>
      if b = 0x75 then readBytes done (.hex 3 (some 0) none) s
      else match escapedChar b with
        | some c => readBytes (pushChar c done) .plain s
        | none => .error ⟨.invalidEscape, s⟩
    | .hex (left + 1) value lead => readBytes done (.hex left (addHex value b) lead) s
    | .hex 0 value lead =>
      match endHex (addHex value b) lead with
      | .ok (.inl c) => readBytes (pushChar c done) .plain s
      | .ok (.inr n) => readBytes done (.pair n) s
      | .error cause => .error ⟨cause, s⟩
    | .pair lead =>
      if b = 0x5C then readBytes done (.pairEscape lead) s else .error ⟨.unfinishedHexEscape, s⟩
    | .pairEscape lead =>
      if b = 0x75 then readBytes done (.hex 3 (some 0) (some lead)) s
      else .error ⟨.unfinishedHexEscape, s⟩

theorem readBytes_length {done : List UInt8} {phase : StringPhase} {s bs r : List UInt8}
    (h : readBytes done phase s = .ok (bs, r)) : r.length < s.length := by
  induction s generalizing done phase with
  | nil => simp [readBytes] at h
  | cons b s ih =>
    unfold readBytes at h
    repeat' split at h
    all_goals first
      | (simp at h; done)
      | exact Nat.lt_succ_of_lt (ih h)
      | (simp only [Except.ok.injEq, Prod.mk.injEq] at h; simp [← h.2])

/-- Reads a string after its opening quote. Bytes that are no UTF-8 fail as far before the end of the
string as there are bytes from the first malformed one on, each escape counted by its encoding. -/
def readString (s : List UInt8) : Except Failure (List Char × List UInt8) :=
  match readBytes [] .plain s with
  | .error e => .error e
  | .ok (bs, r) =>
    match Text.Utf8.decode bs with
    | .ok cs => .ok (cs, r)
    | .error bad => .error ⟨.invalidCodePoint, s.drop (s.length - (r.length + bad.length))⟩

theorem readString_length {s : List UInt8} {cs : List Char} {r : List UInt8}
    (h : readString s = .ok (cs, r)) : r.length < s.length := by
  unfold readString at h
  repeat' split at h
  all_goals simp only [Except.ok.injEq, Prod.mk.injEq, reduceCtorEq] at h
  rename_i hs _ _ _
  exact h.2 ▸ readBytes_length hs

end Agenda.Json
