import Agenda.Toml.Moment
import Agenda.Toml.Number

/-!
# Reading TOML

A document is read line by line: a line is blank, or a comment, or an item under a dotted key, or a
header that opens a table. Any mistake makes the whole document unreadable.

* `readValue`: a value.
* `parse?`: the entries of a document.
-/
namespace Agenda.Toml

/-! ## Keys -/

def isBareChar (c : Char) : Bool := c.isAlphanum || c = '-' || c = '_'

/-- Reads one part of a key. -/
def readPart (cs : List Char) : Option (String × List Char) :=
  match cs with
  | c :: _ =>
    if c = '"' ∨ c = '\x27' then (readLine cs).map fun (name, rest) => (String.ofList name, rest)
    else
      let (name, rest) := cs.span isBareChar
      if name.isEmpty then none else some (String.ofList name, rest)
  | [] => none

/-- The nesting that a document may not reach. -/
def depthLimit : Nat := 80

/-- A dotted key: the path to a table, and the name of an item in it. -/
structure Key where
  path : List String
  name : String
  deriving DecidableEq, Repr

/-- Reads the parts of a key after the first, at most `limit` of them. -/
def readParts : Nat → List String → List Char → Option (List String × List Char)
  | 0, _, _ => none
  | limit + 1, parts, cs =>
    match cs with
    | '.' :: cs => do
      let (part, cs) ← readPart (skipBlanks cs)
      readParts limit (parts ++ [part]) (skipBlanks cs)
    | cs => some (parts, cs)

/-- Reads a key, and the blanks around it. -/
def readKey (cs : List Char) : Option (Key × List Char) := do
  let (part, cs) ← readPart (skipBlanks cs)
  let (parts, cs) ← readParts (depthLimit - 1) [part] (skipBlanks cs)
  pure (⟨parts.dropLast, parts.getLastD part⟩, cs)

/-! ## Values -/

/-- Reads a key, an equals sign and a value. -/
def readPair (value : List Char → Option (Item × List Char)) (cs : List Char) :
    Option ((Key × Item) × List Char) := do
  let (key, cs) ← readKey cs
  let cs ← readMark '=' cs
  let (item, cs) ← value (skipBlanks cs)
  pure ((key, item), skipBlanks cs)

/-- What follows blanks, comments and ends of lines, in at most `limit` steps. -/
def skipLayout : Nat → List Char → List Char
  | 0, cs => cs
  | limit + 1, cs =>
    match skipLines cs with
    | '#' :: rest => skipLayout limit (skipComment ('#' :: rest))
    | rest => rest

def skipAll (cs : List Char) : List Char := skipLayout cs.length cs

/-- Reads the items of an array up to its end, in at most `limit` steps. -/
def readItems (value : List Char → Option (Item × List Char)) :
    Nat → List Char → Option (List Item × List Char)
  | 0, _ => none
  | limit + 1, cs =>
    match skipAll cs with
    | ']' :: rest => some ([], rest)
    | cs => do
      let (item, cs) ← value cs
      match skipAll cs with
      | ',' :: cs => do
        let (items, cs) ← readItems value limit cs
        pure (item :: items, cs)
      | ']' :: cs => pure ([item], cs)
      | _ => none

/-- Reads the pairs of an inline table after the first, in at most `limit` steps. -/
def readMorePairs (value : List Char → Option (Item × List Char)) :
    Nat → Entries → List Char → Option (Entries × List Char)
  | 0, _, _ => none
  | limit + 1, es, cs =>
    match cs with
    | '\x7d' :: cs => some (es, cs)
    | ',' :: cs => do
      let ((key, item), cs) ← readPair value cs
      readMorePairs value limit (← es.putAt? key.path key.name item) cs
    | _ => none

/-- Reads an inline table after its opening brace. -/
def readInline (value : List Char → Option (Item × List Char)) (cs : List Char) :
    Option (Entries × List Char) :=
  match skipBlanks cs with
  | '\x7d' :: cs => some ([], cs)
  | cs => do
    let ((key, item), cs) ← readPair value cs
    readMorePairs value (cs.length + 1) (← Entries.putAt? key.path key.name item []) cs

/-- Reads a value; arrays and inline tables may nest `depth` deep. -/
def readValue (depth : Nat) (cs : List Char) : Option (Item × List Char) :=
  match cs with
  | 't' :: 'r' :: 'u' :: 'e' :: cs => some (.scalar (.bool true), cs)
  | 'f' :: 'a' :: 'l' :: 's' :: 'e' :: cs => some (.scalar (.bool false), cs)
  | c :: rest =>
    if c = '"' ∨ c = '\x27' then
      (readString cs).map fun (text, rest) => (.scalar (.text (String.ofList text)), rest)
    else if c = '[' then
      match depth with
      | 0 => none
      | depth + 1 =>
        (readItems (readValue depth) (rest.length + 1) rest).map fun (items, rest) =>
          (.array items, rest)
    else if c = '\x7b' then
      match depth with
      | 0 => none
      | depth + 1 =>
        (readInline (readValue depth) rest).map fun (es, rest) => (.table .inline es, rest)
    else
      ((readMoment cs).map fun (text, rest) => (.moment (String.ofList text), rest))
        |>.or ((readNumber cs).map fun (s, rest) => (.scalar s, rest))
  | [] => none

/-! ## Documents -/

/-- What has been read of a document, and the path of the table that is open. -/
structure Document where
  entries : Entries
  openPath : List String

namespace Document

/-- Adds an item to the open table. -/
def put? (d : Document) (key : Key) (item : Item) : Option Document :=
  (Entries.descend? false (fun _ es => es.putAt? key.path key.name item) d.openPath .header
    d.entries).map fun entries => { d with entries }

/-- Opens the table of a header. -/
def openTable? (d : Document) (key : Key) : Option Document :=
  (d.entries.openTable? key.path key.name).map fun entries =>
    { entries, openPath := key.path ++ [key.name] }

/-- Opens a new element for a header between double brackets. -/
def openElement? (d : Document) (key : Key) : Option Document :=
  (d.entries.openElement? key.path key.name).map fun entries =>
    { entries, openPath := key.path ++ [key.name] }

end Document

/-- Reads the rest of a line, on which only blanks and a comment may stand. -/
def readLineEnd (cs : List Char) : Option (List Char) :=
  match skipComment (skipBlanks cs) with
  | [] => some []
  | cs => readNewline cs

/-- Reads a line that is not blank into a document. -/
def readStatement (d : Document) (cs : List Char) : Option (Document × List Char) :=
  match cs with
  | '[' :: '[' :: cs => do
    let (key, cs) ← readKey cs
    let cs ← readMark ']' (← readMark ']' cs)
    pure (← d.openElement? key, ← readLineEnd cs)
  | '[' :: cs => do
    let (key, cs) ← readKey cs
    let cs ← readMark ']' cs
    pure (← d.openTable? key, ← readLineEnd cs)
  | cs => do
    let ((key, item), cs) ← readPair (readValue (depthLimit - 1)) cs
    pure (← d.put? key item, ← readLineEnd cs)

/-- Reads lines into a document, at most `limit` of them. -/
def readDocument : Nat → Document → List Char → Option Document
  | 0, _, _ => none
  | limit + 1, d, cs =>
    match skipBlanks cs with
    | [] => some d
    | c :: cs =>
      if c = '#' ∨ c = '\n' ∨ c = '\r' then do readDocument limit d (← readLineEnd (c :: cs))
      else do
        let (d, cs) ← readStatement d (c :: cs)
        readDocument limit d cs

/-- The entries of a document; a mark of the byte order may stand before it. -/
def parse? (cs : List Char) : Option Entries :=
  let cs := match cs with
    | '\uFEFF' :: cs => cs
    | cs => cs
  (readDocument (cs.length + 1) ⟨[], []⟩ cs).map Document.entries

end Agenda.Toml
