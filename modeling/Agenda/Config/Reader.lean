import Agenda.Config.Value
import Agenda.Decimal.Shortest
import Agenda.Text.Quoted

/-!
# Typed settings

A setting is wanted as a truth value, a natural number or a text, and values of other types are
converted where that makes sense.

* `readBool`, `readNatural`, `readText`: one setting.
* `Section.field`: the fields of a section, a table or a list of them in order.
-/
namespace Agenda.Config

open Decimal
open Toml (Scalar)

/-- Why the settings cannot be loaded. -/
inductive LoadError where
  /-- The file cannot be read as TOML. -/
  | unreadable
  /-- A setting is of a wrong type. -/
  | mismatch (found expected key : String) (origin : Option String)
  /-- A section is not what it has to be. -/
  | malformed (message : String)
  /-- A key goes before the start of an array. -/
  | beforeStart
  deriving DecidableEq, Repr

def LoadError.message : LoadError → String
  | unreadable => "the file is not TOML"
  | mismatch found expected key origin =>
    s!"invalid type: {found}, expected {expected} for key `{key}`" ++
      (origin.map (" in " ++ ·)).getD ""
  | malformed message => message
  | beforeStart => "a key goes before the start of an array"

/-! ## Conversions -/

/-- What a value is that is not a single value, and where it comes from. -/
def Value.describe : Value → String × Option String
  | .table origin _ => ("map", origin)
  | .array origin _ => ("sequence", origin)
  | _ => ("unit value", none)

/-- A text that is no value of the expected type. -/
def wrongText (s : String) (expected key : String) (origin : Option String) : LoadError :=
  .mismatch ("string " ++ Text.Quoted.ofString s) expected key origin

/-- The truth value of a setting. -/
def readBool (key : String) : Value → Except LoadError Bool
  | .scalar _ (.bool b) => .ok b
  | .scalar _ (.integer n) => .ok (n ≠ 0)
  | .scalar _ (.float x) => .ok !x.isZero
  | .scalar origin (.text s) =>
    let s := Text.lowered s
    if s ∈ ["1", "true", "on", "yes"] then .ok true
    else if s ∈ ["0", "false", "off", "no"] then .ok false
    else .error (wrongText s "a boolean" key origin)
  | v => .error (.mismatch v.describe.1 "a boolean" key v.describe.2)

/-- The largest number of 64 bits. -/
def maxWord : Nat := 18446744073709551615

/-- The number that a text denotes, with an optional plus sign. -/
def natural? (cs : List Char) : Option Nat :=
  let ds := match cs with
    | '+' :: ds => ds
    | ds => ds
  if ds.isEmpty || !ds.all Char.isDigit || maxWord < ofDigits ds then none else some (ofDigits ds)

/-- The natural number of a setting, of at most 64 bits. -/
def readWord (key : String) : Value → Except LoadError Nat
  | .scalar _ (.bool b) => .ok b.toNat
  | .scalar origin (.integer n) =>
    if n < 0 then
      .error (.mismatch s!"64-bit integer `{n}`" "an unsigned 64 bit or less integer" key origin)
    else .ok n.toNat
  | .scalar _ (.float x) => .ok (x.roundToNat maxWord)
  | .scalar origin (.text s) =>
    if Text.lowered s ∈ ["true", "on", "yes"] then .ok 1
    else if Text.lowered s ∈ ["false", "off", "no"] then .ok 0
    else match natural? s.toList with
      | some n => .ok n
      | none => .error (wrongText s "an integer" key origin)
  | v => .error (.mismatch v.describe.1 "an integer" key v.describe.2)

/-- The natural number of a setting, of at most so many bits. -/
def readNatural (bits : Nat) (key : String) (v : Value) : Except LoadError Nat := do
  let n ← readWord key v
  if n < twoTo bits then pure n
  else throw (.mismatch s!"64-bit unsigned integer `{n}`" s!"an unsigned {bits} bit integer" key none)

/-- The text of a setting. -/
def readText (key : String) : Value → Except LoadError String
  | .scalar _ (.bool b) => .ok (toString b)
  | .scalar _ (.integer n) => .ok (String.ofList (signedDigits n))
  | .scalar _ (.float x) => .ok (String.ofList x.plainText)
  | .scalar _ (.text s) => .ok s
  | v => .error (.mismatch v.describe.1 "a string" key v.describe.2)

/-! ## Sections -/

/-- A group of settings: what it is called, and the names of its fields in order. -/
structure Section where
  key : String
  title : String
  fields : List String
  deriving DecidableEq, Repr

/-- A single value in the place of a section. -/
def describeScalar : Scalar → String
  | .bool b => s!"boolean `{b}`"
  | .integer n => s!"integer `{n}`"
  | .float x =>
    let cs := x.plainText
    let whole := cs.all fun c => c.isDigit || c = '-'
    let text := String.ofList (if whole then cs ++ ['.', '0'] else cs)
    s!"floating point `{text}`"
  | .text s => "string " ++ Text.Quoted.ofString s

namespace Section

/-- How many fields there have to be. -/
def size (s : Section) : String :=
  if s.fields.length = 1 then "1 element" else s!"{s.fields.length} elements"

/-- Something else in the place of the section. -/
def wrong (s : Section) (found : String) : LoadError :=
  .malformed s!"invalid type: {found}, expected struct {s.title}"

/-- The field at a position of the section, read with its full key. -/
def field (s : Section) (v : Value) (i : Nat) (read : String → Value → Except LoadError α) :
    Except LoadError α :=
  match v with
  | .nothing => .error (s.wrong "unit value")
  | .scalar _ x => .error (s.wrong (describeScalar x))
  | .table _ es =>
    let name := s.fields.getD i ""
    match es.lookup name with
    | some w => read (s.key ++ "." ++ name) w
    | none => .error (.malformed s!"missing field `{name}`")
  | .array _ vs =>
    match vs[i]? with
    | some w => read s!"{s.key}[{i}]" w
    | none =>
      .error (.malformed s!"invalid length {i}, expected struct {s.title} with {s.size}")

end Section

end Agenda.Config
