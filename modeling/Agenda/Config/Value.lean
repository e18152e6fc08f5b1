import Agenda.Text.Lowercase
import Agenda.Toml.Item
import Agenda.Toml.Moment

/-!
# Layered settings

Settings come from several sources and form one tree of tables and arrays. A value remembers where it
was read, unless it was made while the sources were put together. The case of names does not matter:
they are kept in lower case.

* `Value.setKey`: sets an entry of a table; tables are merged, any other value replaces what was there.
* `Value.setAt?`: sets the value at the end of a path, and makes the tables and arrays on the way.
* `Value.ofItem?`: the value of an item of a document.
-/
namespace Agenda.Config

open Toml (Scalar)

inductive Value where
  | nothing
  | scalar (origin : Option String) (s : Scalar)
  | table (origin : Option String) (entries : List (String × Value))
  | array (origin : Option String) (items : List Value)
  deriving Repr, Inhabited

/-- The entries of a table, each under its own name. -/
abbrev Entries := List (String × Value)

/-- Sets the value of a name, in its place if there was one. -/
def put (name : String) (v : Value) : Entries → Entries
  | [] => [(name, v)]
  | e :: es => if e.1 = name then (name, v) :: es else e :: put name v es

namespace Value

/-- The table without entries. -/
def emptyTable : Value := table none []

/-- The origin and the entries of a table; any other value gives way to an empty table. -/
def asTable : Value → Option String × Entries
  | table origin es => (origin, es)
  | _ => (none, [])

/-- The origin and the items of an array; any other value gives way to an empty array. -/
def asArray : Value → Option String × List Value
  | array origin vs => (origin, vs)
  | _ => (none, [])

/-! ## Merging -/

mutual

/-- Sets an entry of a table. The entries of a table are set in the table that was there, under their
names in lower case. -/
def setKey (name : String) : Value → Value → Value
  | table _ incoming, target =>
    let (origin, es) := target.asTable
    table origin (put name (setEntries incoming ((es.lookup name).getD emptyTable)) es)
  | v, target =>
    let (origin, es) := target.asTable
    table origin (put name v es)

/-- Sets entries of a table, one after the other. -/
def setEntries : List (String × Value) → Value → Value
  | [], target => target
  | (name, v) :: rest, target => setEntries rest (setKey (Text.lowered name) v target)

end

/-! ## Paths -/

/-- A step of a path: an entry of a table, or an item of an array. A negative position counts from
the end. -/
inductive Step where
  | key (name : String)
  | index (i : Int)
  deriving DecidableEq, Repr

/-- The position of an item in an array of `n` items, unless it is before the first. -/
def position? (i : Int) (n : Nat) : Option Nat :=
  let p := if i < 0 then n + i else i
  if 0 ≤ p then some p.toNat else none

/-- The value with `v` at the end of a path; nothing if the path goes before the start of an array. -/
def setAt? (v : Value) : List Step → Value → Option Value
  | [], _ => some v
  | [.key name], target => some (setKey name v target)
  | .key name :: path, target => do
    let (origin, es) := target.asTable
    let inner ← setAt? v path ((es.lookup name).getD nothing)
    pure (table origin (put name inner es))
  | .index i :: path, target => do
    let (origin, vs) := target.asArray
    let n ← position? i vs.length
    let vs := vs ++ List.replicate (n + 1 - vs.length) nothing
    let inner ← setAt? v path (vs.getD n nothing)
    pure (array origin (vs.set n inner))

end Value

/-! ## Values of a document -/

/-- The text of the date or the time that an item under `Toml.Moment.mark` gives. -/
def momentText? : Toml.Item → Option String
  | .scalar (.text s) => (Toml.Moment.ofText? s.toList).map String.ofList
  | _ => none

mutual

/-- The value of an item, with its origin; none if a date or a time in it is malformed. -/
def Value.ofItem? (origin : String) : Toml.Item → Option Value
  | .scalar s => some (.scalar (some origin) s)
  | .moment s => some (.scalar (some origin) (.text s))
  | .array items => (ofItems? origin items).map (.array (some origin))
  | .table _ es => Value.ofTable? origin es
  | .elements ts => (ofTables? origin ts).map (.array (some origin))

/-- The value of a table, which is a text if the table stands for a date or a time. -/
def Value.ofTable? (origin : String) : List (String × Toml.Item) → Option Value
  | [] => some (.table (some origin) [])
  | (name, i) :: es =>
    if name = Toml.Moment.mark then
      (momentText? i).map fun s => .scalar (some origin) (.text s)
    else do
      let v ← Value.ofItem? origin i
      let es ← ofEntries? origin es
      pure (.table (some origin) ((name, v) :: es))

def ofItems? (origin : String) : List Toml.Item → Option (List Value)
  | [] => some []
  | i :: is => do
    let v ← Value.ofItem? origin i
    let vs ← ofItems? origin is
    pure (v :: vs)

def ofTables? (origin : String) : List (List (String × Toml.Item)) → Option (List Value)
  | [] => some []
  | es :: ts => do
    let v ← Value.ofTable? origin es
    let vs ← ofTables? origin ts
    pure (v :: vs)

/-- The values of entries, with their origin. -/
def ofEntries? (origin : String) : List (String × Toml.Item) → Option Entries
  | [] => some []
  | (name, i) :: es => do
    let v ← Value.ofItem? origin i
    let es ← ofEntries? origin es
    pure ((name, v) :: es)

end

end Agenda.Config
