/-!
# UTF-8

A text as bytes and back. Decoding is strict: overlong forms, surrogates and numbers above U+10FFFF
are malformed. `next` reads one character or says how many bytes of a malformed one belong together;
`decode` stops at the first malformed byte, `decodeLossy` puts U+FFFD for each malformed piece.
-/
namespace Agenda.Text.Utf8

/-- A text as bytes. -/
def encode (cs : List Char) : List UInt8 := cs.flatMap String.utf8EncodeChar

/-! ## One character -/

/-- What the bytes begin with. -/
inductive Piece where
  /-- Nothing is left. -/
  | done
  /-- A character, and what follows it. -/
  | char (c : Char) (rest : List UInt8)
  /-- Bytes that begin no character, and what follows them. -/
  | malformed (rest : List UInt8)
  deriving DecidableEq, Repr

/-- The six bits that a following byte adds. -/
def addBits (n : Nat) (b : UInt8) : Nat := 64 * n + (b.toNat - 0x80)

def isFollowing (b : UInt8) : Bool := 0x80 ≤ b && b ≤ 0xBF

/-- The least and the greatest second byte that may follow a first byte of three or four. -/
def secondRange (a : UInt8) : UInt8 × UInt8 :=
  if a = 0xE0 then (0xA0, 0xBF)
  else if a = 0xED then (0x80, 0x9F)
  else if a = 0xF0 then (0x90, 0xBF)
  else if a = 0xF4 then (0x80, 0x8F)
  else (0x80, 0xBF)

def isSecond (a b : UInt8) : Bool := (secondRange a).1 ≤ b && b ≤ (secondRange a).2

/-- Reads one character. -/
def next : List UInt8 → Piece
  | [] => .done
  | a :: s =>
    if a < 0x80 then .char (Char.ofNat a.toNat) s
    else if 0xC2 ≤ a ∧ a ≤ 0xDF then
      match s with
      | b :: s =>
        if isFollowing b then .char (Char.ofNat (addBits (a.toNat - 0xC0) b)) s
        else .malformed (b :: s)
      | [] => .malformed []
    else if 0xE0 ≤ a ∧ a ≤ 0xEF then
      match s with
      | b :: s =>
        if isSecond a b then
          match s with
          | c :: s =>
            if isFollowing c then
              .char (Char.ofNat (addBits (addBits (a.toNat - 0xE0) b) c)) s
            else .malformed (c :: s)
          | [] => .malformed []
        else .malformed (b :: s)
      | [] => .malformed []
    else if 0xF0 ≤ a ∧ a ≤ 0xF4 then
      match s with
      | b :: s =>
        if isSecond a b then
          match s with
          | c :: s =>
            if isFollowing c then
              match s with
              | d :: s =>
                if isFollowing d then
                  .char (Char.ofNat (addBits (addBits (addBits (a.toNat - 0xF0) b) c) d)) s
                else .malformed (d :: s)
              | [] => .malformed []
            else .malformed (c :: s)
          | [] => .malformed []
        else .malformed (b :: s)
      | [] => .malformed []
    else .malformed s

theorem next_char_length {s r : List UInt8} {c : Char} (h : next s = .char c r) :
    r.length < s.length := by
  unfold next at h
  repeat' split at h
  all_goals simp_all <;> omega

theorem next_malformed_length {s r : List UInt8} (h : next s = .malformed r) :
    r.length < s.length := by
  unfold next at h
  repeat' split at h
  all_goals simp_all <;> omega

/-! ## Texts -/

/-- Decodes onto the characters read so far, last one first; fails with the bytes from the first
malformed one on. -/
def decodeOnto (read : List Char) (s : List UInt8) : Except (List UInt8) (List Char) :=
  match _h : next s with
  | .done => .ok read.reverse
  | .char c r => decodeOnto (c :: read) r
  | .malformed _ => .error s
termination_by s.length
decreasing_by exact next_char_length _h

/-- The text that the bytes encode, or the bytes from the first malformed one on. -/
def decode (s : List UInt8) : Except (List UInt8) (List Char) := decodeOnto [] s

/-- Decodes onto the characters read so far, last one first, with U+FFFD for malformed pieces. -/
def decodeLossyOnto (read : List Char) (s : List UInt8) : List Char :=
  match _h : next s with
  | .done => read.reverse
  | .char c r => decodeLossyOnto (c :: read) r
  | .malformed r => decodeLossyOnto ('\uFFFD' :: read) r
termination_by s.length
decreasing_by
  · exact next_char_length _h
  · exact next_malformed_length _h

/-- The text that the bytes encode, with U+FFFD for malformed pieces. -/
def decodeLossy (s : List UInt8) : List Char := decodeLossyOnto [] s

end Agenda.Text.Utf8
