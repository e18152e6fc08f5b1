import Agenda.Decimal.Shortest
import Agenda.Except
import Agenda.Text.Quoted
import Agenda.Time.Text

/-!
# Errors of the JSON reader

A reader that fails keeps what it has not consumed (`Failure`). The place of the error, a line and a
column, follows from the whole input and that rest (`Failure.locate`), so readers carry no position.
-/
namespace Agenda.Json

/-- What a value is, where something else was expected. -/
inductive Found where
  | null
  | bool (b : Bool)
  | integer (n : Int)
  | float (x : Binary64)
  | string (cs : List Char)
  | sequence
  | map
  deriving DecidableEq, Repr

/-- Why an input is not the value that is read. -/
inductive Cause where
  | endOfValue
  | endOfList
  | endOfObject
  | endOfString
  | expectedColon
  | expectedListCommaOrEnd
  | expectedObjectCommaOrEnd
  | expectedIdent
  | expectedValue
  | invalidEscape
  | invalidNumber
  | numberOutOfRange
  | invalidCodePoint
  | controlCharacter
  | keyMustBeString
  | loneSurrogate
  | trailingComma
  | trailingCharacters
  | unfinishedHexEscape
  /-- A value of another type than the expected one. -/
  | invalidType (found : Found) (expected : String)
  /-- An integer that the expected type does not hold. -/
  | invalidInteger (n : Int) (expected : String)
  | duplicateField (name : String)
  /-- A text that is no instant. -/
  | invalidInstant (e : TextError)
  /-- A duration that is not written as a whole number of nanoseconds. -/
  | invalidNanoseconds (cause : Cause)
  deriving DecidableEq, Repr

/-- The three kinds of errors: the input is no JSON, it stops too early, or it is JSON of another
shape. -/
inductive Category where
  | syntaxError
  | endOfInput
  | data
  deriving DecidableEq, Repr

def Cause.category : Cause → Category
  | endOfValue | endOfList | endOfObject | endOfString => .endOfInput
  | invalidType .. | invalidInteger .. | duplicateField .. | invalidInstant .. |
    invalidNanoseconds .. => .data
  | _ => .syntaxError

def Found.describe : Found → String
  | null => "null"
  | bool b => s!"boolean `{b}`"
  | integer n => s!"integer `{n}`"
  | float x => s!"floating point `{String.ofList x.floatText}`"
  | string cs => s!"string {String.ofList (Text.Quoted.encode cs)}"
  | sequence => "sequence"
  | map => "map"

def Cause.message : Cause → String
  | endOfValue => "EOF while parsing a value"
  | endOfList => "EOF while parsing a list"
  | endOfObject => "EOF while parsing an object"
  | endOfString => "EOF while parsing a string"
  | expectedColon => "expected `:`"
  | expectedListCommaOrEnd => "expected `,` or `]`"
  | expectedObjectCommaOrEnd => "expected `,` or `\x7d`"
  | expectedIdent => "expected ident"
  | expectedValue => "expected value"
  | invalidEscape => "invalid escape"
  | invalidNumber => "invalid number"
  | numberOutOfRange => "number out of range"
  | invalidCodePoint => "invalid unicode code point"
  | controlCharacter => "control character (\\u0000-\\u001F) found while parsing a string"
  | keyMustBeString => "key must be a string"
  | loneSurrogate => "lone leading surrogate in hex escape"
  | trailingComma => "trailing comma"
  | trailingCharacters => "trailing characters"
  | unfinishedHexEscape => "unexpected end of hex escape"
  | invalidType found expected => s!"invalid type: {found.describe}, expected {expected}"
  | invalidInteger n expected => s!"invalid value: integer `{n}`, expected {expected}"
  | duplicateField name => s!"duplicate field `{name}`"
  | invalidInstant e => e.message
  | invalidNanoseconds cause => s!"duration must be integer nanoseconds: {cause.message}"

/-! ## Places -/

/-- A cause and what has not been consumed when it was found. -/
structure Failure where
  cause : Cause
  rest : List UInt8
  deriving DecidableEq, Repr

/-- A cause and its place: the line, from 1, and the bytes of it that were consumed. -/
structure ReadError where
  cause : Cause
  line : Nat
  column : Nat
  deriving DecidableEq, Repr

/-- The line and the column after some bytes. -/
def place (consumed : List UInt8) : Nat × Nat :=
  consumed.foldl (fun (p : Nat × Nat) (b : UInt8) =>
    if b = 10 then (p.1 + 1, 0) else (p.1, p.2 + 1)) (1, 0)

/-- The place of a failure in the input. -/
def Failure.locate (input : List UInt8) (f : Failure) : ReadError :=
  let (line, column) := place (input.take (input.length - f.rest.length))
  { cause := f.cause, line, column }

def ReadError.message (e : ReadError) : String :=
  s!"{e.cause.message} at line {e.line} column {e.column}"

/-- A failure at a byte that is looked at, not consumed: it counts as consumed, if there is one. -/
def Failure.atNext (cause : Cause) (s : List UInt8) : Failure := ⟨cause, s.tail⟩

end Agenda.Json
