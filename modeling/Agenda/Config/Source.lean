import Agenda.Config.Value
import Agenda.Toml.Document

/-!
# Sources of settings

A source gives values under keys. A key in lower case is a path, such as `http.port` or `hosts[0]`; one
that cannot be read as a path is a name by itself.

* `Path.parse?`: the path that a key stands for.
* `environment`: the settings in variables such as `CALENDAR__HTTP__PORT`.
* `collect?`: sets the values of a source in a tree.
-/
namespace Agenda.Config

open Decimal
open Toml (Scalar)

/-! ## Paths -/

namespace Path

def isNameChar (c : Char) : Bool := c.isAlphanum || c = ' ' || c = '_' || c = '-'

/-- Reads a name. -/
def readName (cs : List Char) : Option (String × List Char) :=
  let (name, rest) := cs.span isNameChar
  if name.isEmpty then none else some (String.ofList name, rest)

def isPad (c : Char) : Bool := c = ' ' || c = '\t'

/-- A whole number of 64 bits with an optional sign. -/
def integer? (cs : List Char) : Option Int :=
  let (negative, ds) := match cs with
    | '-' :: ds => (true, ds)
    | '+' :: ds => (false, ds)
    | ds => (false, ds)
  if ds.isEmpty || !ds.all Char.isDigit then none
  else
    let n : Int := if negative then -(ofDigits ds : Int) else ofDigits ds
    if Int64.minValue.toInt ≤ n ∧ n ≤ Int64.maxValue.toInt then some n else none

/-- Reads a position after its opening bracket. -/
def readIndex (cs : List Char) : Option (Int × List Char) :=
  let (text, rest) := (cs.dropWhile isPad).span fun c => c.isDigit || c = '-'
  match rest.dropWhile isPad with
  | ']' :: rest => (integer? text).map (·, rest)
  | _ => none

/-- Reads the steps after the first, at most `limit` of them. -/
def readSteps : Nat → List Char → Option (List Value.Step)
  | _, [] => some []
  | 0, _ => none
  | limit + 1, c :: cs =>
    if c = '.' then do
      let (name, cs) ← readName cs
      pure (.key name :: (← readSteps limit cs))
    else if c = '[' then do
      let (i, cs) ← readIndex cs
      pure (.index i :: (← readSteps limit cs))
    else none

/-- The path that a key stands for. -/
def parse? (key : String) : Option (List Value.Step) := do
  let (name, cs) ← readName key.toList
  pure (.key name :: (← readSteps cs.length cs))

end Path

/-- Sets a value under a key. -/
def setUnder? (key : String) (v : Value) (tree : Value) : Option Value :=
  let key := Text.lowered key
  Value.setAt? v ((Path.parse? key).getD [.key key]) tree

/-- Sets the values of a source in a tree, one after the other. -/
def collect? : Entries → Value → Option Value
  | [], tree => some tree
  | (key, v) :: rest, tree => (setUnder? key v tree).bind (collect? rest)

/-! ## The environment -/

/-- What the names of variables begin with, in lower case. -/
def variableStart : List Char := "calendar__".toList

def environmentOrigin : String := "the environment"

/-- The text with points for double underscores. -/
def dotted : List Char → List Char
  | '_' :: '_' :: cs => '.' :: dotted cs
  | c :: cs => c :: dotted cs
  | [] => []

/-- The key that a variable stands for, if its name begins as it has to. -/
def variableKey? (name : String) : Option String :=
  let name := Text.lower name.toList
  if variableStart.isPrefixOf name then
    some (String.ofList (dotted (name.drop variableStart.length)))
  else none

/-- The value of a variable: a truth value, a whole number of 64 bits, another number, or a text. -/
def variableValue (text : String) : Scalar :=
  let cs := text.toList
  if Text.lowered text = "true" then .bool true
  else if Text.lowered text = "false" then .bool false
  else
    match Path.integer? cs with
    | some n => .integer n
    | none =>
      match Binary64.parse? cs with
      | some x => .float x
      | none => .text text

/-- The settings in variables. -/
def environment (vars : List (String × String)) : Entries :=
  vars.filterMap fun (name, text) =>
    (variableKey? name).map fun key => (key, .scalar (some environmentOrigin) (variableValue text))

end Agenda.Config
