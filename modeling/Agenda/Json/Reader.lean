import Agenda.Json.Number
import Agenda.Json.Quoted

/-!
# Readers of JSON values

Readers take bytes and give a value and what follows it. A `Reader` never gives more bytes than it
took, so loops over readers end.

* `skipBlanks`, `readWord`: what stands between values, and the words of JSON.
* `Reader.string`, `Reader.integer`, `Reader.bool`: values of one type. Whatever else stands there is
  described in the error.
* `Reader.map`, `Reader.andThen`, `Reader.mapCause`: readers made from others.
* `Reader.decode`: the value that a whole input is.
-/
namespace Agenda.Json

/-! ## Blanks and words -/

/-- The bytes that may stand between tokens. -/
def isBlank (b : UInt8) : Bool := b = 0x20 || b = 0x0A || b = 0x0D || b = 0x09

def skipBlanks (s : List UInt8) : List UInt8 := s.dropWhile isBlank

theorem skipBlanks_length (s : List UInt8) : (skipBlanks s).length ≤ s.length :=
  (List.dropWhile_suffix _).length_le

/-- Reads the given bytes. -/
def readWord : List UInt8 → List UInt8 → Except Failure (List UInt8)
  | [], s => .ok s
  | _ :: _, [] => .error ⟨.endOfValue, []⟩
  | c :: cs, b :: s => if b = c then readWord cs s else .error ⟨.expectedIdent, s⟩

theorem readWord_length {w s r : List UInt8} (h : readWord w s = .ok r) : r.length ≤ s.length := by
  induction w generalizing s with
  | nil => simp_all [readWord]
  | cons c cs ih =>
    cases s with
    | nil => simp [readWord] at h
    | cons b s =>
      rw [readWord] at h
      split at h
      · have := ih h; simp; omega
      · simp at h

/-! ## Other values than the expected one -/

/-- The error for a value of another type than the expected one. Words, numbers and strings are
read to their end, lists and objects are not entered. -/
def unexpected (expected : String) (s : List UInt8) : Failure :=
  let after (found : Found) (r : List UInt8) : Failure := ⟨.invalidType found expected, r⟩
  let word (w : List UInt8) (found : Found) (r : List UInt8) : Failure :=
    match readWord w r with
    | .ok r => after found r
    | .error f => f
  match s with
  | [] => .atNext .expectedValue []
  | b :: r =>
    if b = 0x6E then word [0x75, 0x6C, 0x6C] .null r
    else if b = 0x74 then word [0x72, 0x75, 0x65] (.bool true) r
    else if b = 0x66 then word [0x61, 0x6C, 0x73, 0x65] (.bool false) r
    else if b = 0x2D ∨ isDigit b then
      match readNumber s with
      | .ok (.integer n, r) => after (.integer n) r
      | .ok (.float x, r) => after (.float x) r
      | .error f => f
    else if b = 0x22 then
      match readString r with
      | .ok (cs, r) => after (.string cs) r
      | .error f => f
    else if b = 0x5B then after .sequence s
    else if b = 0x7B then after .map s
    else .atNext .expectedValue s

/-- A reader of values: it gives a value and what follows it, never more than it took. -/
structure Reader (α : Type) where
  run : List UInt8 → Except Failure (α × List UInt8)
  run_length : ∀ {s a r}, run s = .ok (a, r) → r.length ≤ s.length

namespace Reader

/-- The same reader with other values. -/
def map (f : α → β) (p : Reader α) : Reader β where
  run s := (p.run s).map fun (a, r) => (f a, r)
  run_length h := by
    obtain ⟨_, hp, he⟩ := map_eq_ok.1 h
    simp only [Prod.mk.injEq] at he
    rw [← he.2]; exact p.run_length hp

/-- A value made of one that is read; what cannot be made fails after the value. -/
def andThen (p : Reader α) (f : α → Except Cause β) : Reader β where
  run s := do
    let (a, r) ← p.run s
    match f a with
    | .ok b => .ok (b, r)
    | .error cause => .error ⟨cause, r⟩
  run_length {s b r} h := by
    cases hp : p.run s with
    | error e => simp [hp, bind, Except.bind] at h
    | ok x =>
      obtain ⟨a, r'⟩ := x
      have := p.run_length hp
      simp only [hp, bind, Except.bind] at h
      split at h <;> simp_all

/-- The same reader with other causes of its failures. -/
def mapCause (p : Reader α) (f : Cause → Cause) : Reader α where
  run s :=
    match p.run s with
    | .ok x => .ok x
    | .error e => .error ⟨f e.cause, e.rest⟩
  run_length {s a r} h := by
    cases hp : p.run s with
    | error e => simp [hp] at h
    | ok x =>
      simp only [hp, Except.ok.injEq] at h
      subst h
      exact p.run_length hp

/-- Reads a string. -/
def string (expected : String) : Reader (List Char) where
  run s :=
    match skipBlanks s with
    | [] => .error ⟨.endOfValue, []⟩
    | b :: r => if b = 0x22 then readString r else .error (unexpected expected (b :: r))
  run_length {s cs r} h := by
    have hs := skipBlanks_length s
    split at h
    · simp at h
    · next b t heq =>
      rw [heq] at hs
      split at h
      · have := readString_length h; simp at hs; omega
      · simp at h

/-- Reads a whole number of 64 bits with a sign. -/
def integer (expected : String) : Reader Int64 where
  run s :=
    match skipBlanks s with
    | [] => .error ⟨.endOfValue, []⟩
    | b :: r =>
      if b = 0x2D ∨ isDigit b then
        match readNumber (b :: r) with
        | .ok (.integer n, r) =>
          if Int64.minValue.toInt ≤ n ∧ n ≤ Int64.maxValue.toInt then .ok (Int64.ofInt n, r)
          else .error ⟨.invalidInteger n expected, r⟩
        | .ok (.float x, r) => .error ⟨.invalidType (.float x) expected, r⟩
        | .error e => .error e
      else .error (unexpected expected (b :: r))
  run_length {s n r} h := by
    have hs := skipBlanks_length s
    split at h
    · simp at h
    · next b t heq =>
      rw [heq] at hs
      split at h
      · split at h
        · next hn =>
          have := readNumber_length hn
          split at h
          · simp only [Except.ok.injEq, Prod.mk.injEq] at h; rw [← h.2]; omega
          · simp at h
        · simp at h
        · simp at h
      · simp at h

/-- Reads a truth value. -/
def bool (expected : String) : Reader Bool where
  run s :=
    match skipBlanks s with
    | [] => .error ⟨.endOfValue, []⟩
    | b :: r =>
      if b = 0x74 then (readWord [0x72, 0x75, 0x65] r).map (true, ·)
      else if b = 0x66 then (readWord [0x61, 0x6C, 0x73, 0x65] r).map (false, ·)
      else .error (unexpected expected (b :: r))
  run_length {s v r} h := by
    have word {w t : List UInt8} {v' : Bool} (h : (readWord w t).map (v', ·) = .ok (v, r)) :
        r.length ≤ t.length := by
      obtain ⟨_, hw, he⟩ := map_eq_ok.1 h
      simp only [Prod.mk.injEq] at he
      rw [← he.2]; exact readWord_length hw
    have hs := skipBlanks_length s
    split at h
    · simp at h
    · next b t heq =>
      rw [heq, List.length_cons] at hs
      split at h
      · have := word h; omega
      · split at h
        · have := word h; omega
        · simp at h

/-- The value that the whole input is. -/
def decode (p : Reader α) (input : List UInt8) : Except ReadError α :=
  match p.run input with
  | .error f => .error (f.locate input)
  | .ok (a, r) =>
    match skipBlanks r with
    | [] => .ok a
    | _ :: r => .error (Failure.locate input ⟨.trailingCharacters, r⟩)

end Reader

end Agenda.Json
