import Agenda.Decimal.Binary64

/-!
# TOML documents

A document is a table of named items. Tables are written in several ways, and how a table was written
decides what may be added to it later (`Form`).

* `Entries.putAt?`: adds an item under a dotted key.
* `Entries.openTable?`, `Entries.openElement?`: make the table of a header ready.
-/
namespace Agenda.Toml

/-- A value without parts. -/
inductive Scalar where
  | bool (b : Bool)
  | integer (n : Int)
  | float (x : Binary64)
  | text (s : String)
  deriving DecidableEq, Repr

/-- How a table was written. -/
inductive Form where
  /-- Between braces: it is complete. -/
  | inline
  /-- Under a header of its own. -/
  | header
  /-- By the header of a table within it only. -/
  | implied
  /-- By a dotted key. -/
  | dotted
  deriving DecidableEq, Repr

inductive Item where
  | scalar (s : Scalar)
  /-- A date or a time. -/
  | moment (text : String)
  | array (items : List Item)
  | table (form : Form) (entries : List (String × Item))
  /-- Tables under headers between double brackets. -/
  | elements (tables : List (List (String × Item)))
  deriving Repr, Inhabited

/-- The entries of a table, each under its own name. -/
abbrev Entries := List (String × Item)

namespace Entries

def get? (es : Entries) (name : String) : Option Item := es.lookup name

/-- Sets the item of a name, in its place if there was one. -/
def put (name : String) (item : Item) : Entries → Entries
  | [] => [(name, item)]
  | e :: es => if e.1 = name then (name, item) :: es else e :: put name item es

/-- Changes the table at the end of a path. Tables that are not there are made; of elements the last
one is meant. A path within the lines of a table (`dotted`) may not enter tables that have headers of
their own, and no path enters what is complete. The change gets the form of the table. -/
def descend? (dotted : Bool) (change : Form → Entries → Option Entries) :
    List String → Form → Entries → Option Entries
  | [], form, es => change form es
  | name :: path, _, es =>
    match es.get? name with
    | none =>
      let form := if dotted then .dotted else .implied
      (descend? dotted change path form []).map fun inner => es.put name (.table form inner)
    | some (.table form inner) =>
      if form = .inline ∨ dotted ∧ form = .header then none
      else (descend? dotted change path form inner).map fun inner => es.put name (.table form inner)
    | some (.elements tables) =>
      match tables.getLast? with
      | none => none
      | some last =>
        (descend? dotted change path .header last).map fun last =>
          es.put name (.elements (tables.dropLast ++ [last]))
    | some _ => none

/-- Adds an item to a table that has no item of this name. A dotted key adds only to tables that
dotted keys have made. -/
def putAt? (path : List String) (name : String) (item : Item) (es : Entries) : Option Entries :=
  descend? true (fun form es =>
    if (form = .dotted ∨ path = []) ∧ (es.get? name).isNone then some (es.put name item)
    else none) path .header es

/-- Makes the table of a header ready: it is new, or the headers of tables within it have made it. In
either case it comes last. -/
def openTable? (path : List String) (name : String) (es : Entries) : Option Entries :=
  descend? false (fun _ es =>
    match es.get? name with
    | none => some (es ++ [(name, .table .header [])])
    | some (.table .implied inner) =>
      some (es.filter (·.1 ≠ name) ++ [(name, .table .header inner)])
    | some _ => none) path .header es

/-- Adds an element for a header between double brackets. -/
def openElement? (path : List String) (name : String) (es : Entries) : Option Entries :=
  descend? false (fun _ es =>
    match es.get? name with
    | none => some (es.put name (.elements [[]]))
    | some (.elements tables) => some (es.put name (.elements (tables ++ [[]])))
    | some _ => none) path .header es

end Entries

end Agenda.Toml
