import Agenda.Decimal.Digits

/-!
# Texts in TOML

Strings between double quotes have escapes, those between single quotes have none; between tripled
quotes a string may have several lines. Readers give what they have read and what follows it.

* `readString`: a string of any kind.
-/
namespace Agenda.Toml

/-! ## Characters -/

def isBlank (c : Char) : Bool := c = ' ' || c = '\t'

/-- A character that may stand in a comment or a string, apart from marks. -/
def isShown (c : Char) : Bool :=
  c = '\t' || (0x20 ≤ c.toNat && c.toNat ≤ 0x7E) || 0x80 ≤ c.toNat

def isHexDigit (c : Char) : Bool :=
  c.isDigit || ('a' ≤ c && c ≤ 'f') || ('A' ≤ c && c ≤ 'F')

def hexDigitValue (c : Char) : Nat :=
  if c.isDigit then c.toNat - '0'.toNat
  else if 'a' ≤ c then c.toNat - 'a'.toNat + 10
  else c.toNat - 'A'.toNat + 10

def skipBlanks (cs : List Char) : List Char := cs.dropWhile isBlank

/-- Reads the end of a line. -/
def readNewline : List Char → Option (List Char)
  | '\n' :: cs => some cs
  | '\r' :: '\n' :: cs => some cs
  | _ => none

/-- What follows blanks and ends of lines. -/
def skipLines : List Char → List Char
  | '\r' :: '\n' :: cs => skipLines cs
  | c :: cs => if c = '\n' || isBlank c then skipLines cs else c :: cs
  | [] => []

/-- What follows a comment, if there is one. -/
def skipComment : List Char → List Char
  | '#' :: cs => cs.dropWhile isShown
  | cs => cs

/-! ## Escapes -/

/-- The character with a hexadecimal number of `n` digits. -/
def readCodePoint (n : Nat) (cs : List Char) : Option (Char × List Char) :=
  let ds := cs.take n
  let value := ds.foldl (fun v d => 16 * v + hexDigitValue d) 0
  if ds.length = n ∧ ds.all isHexDigit ∧ value.isValidChar then some (Char.ofNat value, cs.drop n)
  else none

/-- Reads an escape after its backslash. -/
def readEscape : List Char → Option (Char × List Char)
  | 'b' :: cs => some ('\x08', cs)
  | 'f' :: cs => some ('\x0C', cs)
  | 'n' :: cs => some ('\n', cs)
  | 'r' :: cs => some ('\r', cs)
  | 't' :: cs => some ('\t', cs)
  | '\\' :: cs => some ('\\', cs)
  | '"' :: cs => some ('"', cs)
  | 'u' :: cs => readCodePoint 4 cs
  | 'U' :: cs => readCodePoint 8 cs
  | _ => none

/-! ## Strings -/

/-- Reads the rest of a string with escapes, in at most `limit` steps. -/
def readBasic : Nat → List Char → Option (List Char × List Char)
  | 0, _ => none
  | _, [] => none
  | limit + 1, c :: cs =>
    if c = '"' then some ([], cs)
    else if c = '\\' then do
      let (e, cs) ← readEscape cs
      let (rest, cs) ← readBasic limit cs
      pure (e :: rest, cs)
    else if isShown c then do
      let (rest, cs) ← readBasic limit cs
      pure (c :: rest, cs)
    else none

/-- Reads the rest of a string without escapes. -/
def readLiteral (cs : List Char) : Option (List Char × List Char) :=
  let (text, rest) := cs.span fun c => isShown c && c != '\x27'
  match rest with
  | '\x27' :: rest => some (text, rest)
  | _ => none

/-- Reads three quotes that end a string; up to two more belong to the string. -/
def readTripled (quote : Char) (cs : List Char) : Option (List Char × List Char) :=
  if cs.take 3 = [quote, quote, quote] then
    let more := ((cs.drop 3).take 2).takeWhile (· = quote)
    some (more, cs.drop (3 + more.length))
  else none

/-- What follows an end of line after a backslash: the next line that is not blank. -/
def readContinuation (cs : List Char) : Option (List Char) :=
  (readNewline (skipBlanks cs)).map skipLines

/-- Reads the rest of a string of several lines, in at most `limit` steps. -/
def readLines (quote : Char) (escapes : Bool) : Nat → List Char → Option (List Char × List Char)
  | 0, _ => none
  | limit + 1, cs =>
    match readTripled quote cs, readNewline cs, cs with
    | some last, _, _ => some last
    | none, some cs, _ => do
      let (rest, cs) ← readLines quote escapes limit cs
      pure ('\n' :: rest, cs)
    | none, none, [] => none
    | none, none, c :: cs =>
      if c = '\\' && escapes then
        match readContinuation cs with
        | some cs => readLines quote escapes limit cs
        | none => do
          let (e, cs) ← readEscape cs
          let (rest, cs) ← readLines quote escapes limit cs
          pure (e :: rest, cs)
      else if isShown c then do
        let (rest, cs) ← readLines quote escapes limit cs
        pure (c :: rest, cs)
      else none

/-- Reads a string of one line. -/
def readLine : List Char → Option (List Char × List Char)
  | '"' :: cs => readBasic (cs.length + 1) cs
  | '\x27' :: cs => readLiteral cs
  | _ => none

/-- Reads a string. -/
def readString (cs : List Char) : Option (List Char × List Char) :=
  let lines (quote : Char) (escapes : Bool) (cs : List Char) : Option (List Char × List Char) :=
    let cs := (readNewline cs).getD cs
    readLines quote escapes (cs.length + 1) cs
  match cs with
  | '"' :: '"' :: '"' :: cs => lines '"' true cs
  | '\x27' :: '\x27' :: '\x27' :: cs => lines '\x27' false cs
  | cs => readLine cs

end Agenda.Toml
