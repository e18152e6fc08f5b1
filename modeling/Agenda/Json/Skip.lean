import Agenda.Json.Reader

/-!
# Skipping values

A value that nobody asked for has to be JSON all the same. `Skip.run` goes over it byte by byte with
a stack of the lists and objects that are open, so depth is not limited. Strings are not decoded:
their bytes need not be UTF-8 and their escapes need not make characters.
-/
namespace Agenda.Json

namespace Skip

/-- A list or an object that is open. -/
inductive Frame where
  | list
  | object
  deriving DecidableEq, Repr

def Frame.close : Frame → UInt8
  | list => 0x5D
  | object => 0x7D

def Frame.endOfInput : Frame → Cause
  | list => .endOfList
  | object => .endOfObject

def Frame.commaOrEnd : Frame → Cause
  | list => .expectedListCommaOrEnd
  | object => .expectedObjectCommaOrEnd

/-- Where the run stands. A string is a key of the innermost object or a value. -/
inductive State where
  /-- Before a value. -/
  | value
  /-- After an opening bracket. -/
  | opened
  /-- After a value in a list or an object. -/
  | after
  /-- Before a key. -/
  | key
  /-- After a key. -/
  | colon
  /-- Before the last bytes of a word. -/
  | word (left : List UInt8)
  /-- In a string. -/
  | string (isKey : Bool)
  /-- After a backslash in a string. -/
  | escape (isKey : Bool)
  /-- Before the last `left + 1` digits of a hexadecimal escape; `valid` as long as all are digits. -/
  | hex (isKey : Bool) (left : Nat) (valid : Bool)
  /-- After the minus sign of a number. -/
  | minus
  /-- After a zero that begins a number. -/
  | zero
  /-- In the whole part of a number. -/
  | whole
  /-- After the point of a number. -/
  | point
  /-- In the fraction of a number. -/
  | fraction
  /-- After the `e` of a number. -/
  | exponent
  /-- After the sign of an exponent. -/
  | exponentSign
  /-- In the digits of an exponent. -/
  | power
  deriving DecidableEq, Repr

/-- What a byte does. -/
inductive Step where
  | go (frames : List Frame) (state : State)
  /-- The value ends with the byte. -/
  | last
  /-- The value has ended before the byte. -/
  | beyond
  /-- The byte is wrong. -/
  | fail (cause : Cause)
  /-- The byte is wrong and is not counted as consumed. -/
  | failBefore (cause : Cause)
  deriving DecidableEq, Repr

/-- After the last byte of a value. -/
def endValue : List Frame → Step
  | [] => .last
  | f :: fs => .go (f :: fs) .after

/-- A byte after a value. -/
def afterValue (fs : List Frame) (b : UInt8) : Step :=
  match fs with
  | [] => .beyond
  | f :: outer =>
    if isBlank b then .go fs .after
    else if b = 0x2C then .go fs (match f with | .list => .value | .object => .key)
    else if b = f.close then endValue outer
    else .fail f.commaOrEnd

/-- A byte where a value is to begin. -/
def beginValue (fs : List Frame) (b : UInt8) : Step :=
  if isBlank b then .go fs .value
  else if b = 0x6E then .go fs (.word [0x75, 0x6C, 0x6C])
  else if b = 0x74 then .go fs (.word [0x72, 0x75, 0x65])
  else if b = 0x66 then .go fs (.word [0x61, 0x6C, 0x73, 0x65])
  else if b = 0x2D then .go fs .minus
  else if b = 0x30 then .go fs .zero
  else if isDigit b then .go fs .whole
  else if b = 0x22 then .go fs (.string false)
  else if b = 0x5B then .go (.list :: fs) .opened
  else if b = 0x7B then .go (.object :: fs) .opened
  else .fail .expectedValue

/-- A byte where a key is to begin. -/
def beginKey (fs : List Frame) (b : UInt8) : Step :=
  if isBlank b then .go fs .key
  else if b = 0x22 then .go fs (.string true)
  else .fail .keyMustBeString

/-- A byte after an opening bracket. -/
def afterOpening (fs : List Frame) (b : UInt8) : Step :=
  match fs with
  | [] => beginValue fs b
  | f :: outer =>
    if isBlank b then .go fs .opened
    else if b = f.close then endValue outer
    else match f with
      | .list => beginValue fs b
      | .object => beginKey fs b

/-- A byte within a number whose whole part is complete. -/
def afterWhole (fs : List Frame) (b : UInt8) : Step :=
  if b = 0x2E then .go fs .point
  else if b = 0x65 ∨ b = 0x45 then .go fs .exponent
  else afterValue fs b

def step (fs : List Frame) (state : State) (b : UInt8) : Step :=
  match state with
  | .value => beginValue fs b
  | .opened => afterOpening fs b
  | .after => afterValue fs b
  | .key => beginKey fs b
  | .colon =>
    if isBlank b then .go fs .colon
    else if b = 0x3A then .go fs .value
    else .fail .expectedColon
  | .word [] => afterValue fs b
  | .word [c] => if b = c then endValue fs else .fail .expectedIdent
  | .word (c :: left) => if b = c then .go fs (.word left) else .fail .expectedIdent
  | .string isKey =>
    if b = 0x22 then if isKey then .go fs .colon else endValue fs
    else if b = 0x5C then .go fs (.escape isKey)
    else if b < 0x20 then .failBefore .controlCharacter
    else .go fs (.string isKey)
  | .escape isKey =>
    if b = 0x75 then .go fs (.hex isKey 3 true)
    else if (escapedChar b).isSome then .go fs (.string isKey)
    else .fail .invalidEscape
  | .hex isKey left valid =>
    let valid := valid && (hexValue b).isSome
    match left with
    | left + 1 => .go fs (.hex isKey left valid)
    | 0 => if valid then .go fs (.string isKey) else .fail .invalidEscape
  | .minus =>
    if b = 0x30 then .go fs .zero
    else if isDigit b then .go fs .whole
    else .fail .invalidNumber
  | .zero => if isDigit b then .fail .invalidNumber else afterWhole fs b
  | .whole => if isDigit b then .go fs .whole else afterWhole fs b
  | .point => if isDigit b then .go fs .fraction else .fail .invalidNumber
  | .fraction =>
    if isDigit b then .go fs .fraction
    else if b = 0x65 ∨ b = 0x45 then .go fs .exponent
    else afterValue fs b
  | .exponent =>
    if b = 0x2B ∨ b = 0x2D then .go fs .exponentSign
    else if isDigit b then .go fs .power
    else .fail .invalidNumber
  | .exponentSign => if isDigit b then .go fs .power else .fail .invalidNumber
  | .power => if isDigit b then .go fs .power else afterValue fs b

/-- Why the input may not end here, unless it may. -/
def endCause (fs : List Frame) (state : State) : Option Cause :=
  let inner := fs.head?.map Frame.endOfInput
  match state with
  | .value | .word (_ :: _) => some .endOfValue
  | .opened => some (inner.getD .endOfValue)
  | .key | .colon => some .endOfObject
  | .string _ | .escape _ | .hex _ _ _ => some .endOfString
  | .minus | .point | .exponent | .exponentSign => some .invalidNumber
  | .after | .word [] | .zero | .whole | .fraction | .power => inner

/-- Goes over the rest of a value: what follows it. -/
def run (fs : List Frame) (state : State) : List UInt8 → Except Failure (List UInt8)
  | [] =>
    match endCause fs state with
    | some cause => .error ⟨cause, []⟩
    | none => .ok []
  | b :: s =>
    match step fs state b with
    | .go fs state => run fs state s
    | .last => .ok s
    | .beyond => .ok (b :: s)
    | .fail cause => .error ⟨cause, s⟩
    | .failBefore cause => .error ⟨cause, b :: s⟩

theorem run_length {fs : List Frame} {state : State} {s r : List UInt8}
    (h : run fs state s = .ok r) : r.length ≤ s.length := by
  induction s generalizing fs state with
  | nil =>
    rw [run] at h
    split at h
    · simp at h
    · simp_all
  | cons b s ih =>
    rw [run] at h
    split at h
    · have := ih h; simp; omega
    · simp_all
    · simp_all
    · simp at h
    · simp at h

end Skip

/-- Reads any value and drops it. -/
def Reader.skipped : Reader Unit where
  run s := (Skip.run [] .value s).map ((), ·)
  run_length h := by
    obtain ⟨_, hs, he⟩ := map_eq_ok.1 h
    simp only [Prod.mk.injEq] at he
    rw [← he.2]; exact Skip.run_length hs

end Agenda.Json
