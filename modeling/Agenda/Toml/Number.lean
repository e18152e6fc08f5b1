import Agenda.Toml.Item
import Agenda.Toml.Text

/-!
# Numbers in TOML

Underscores may stand between digits. Whole numbers fit 64 bits with a sign, and may be hexadecimal,
octal or binary; other numbers are floating-point numbers, of which positive infinity has to be
written as a word.

* `readNumber`: a number.
-/
namespace Agenda.Toml

open Decimal

/-- Reads digits that go on, with underscores between them; these are dropped. -/
def readMoreDigits (isDigit : Char → Bool) : List Char → List Char × List Char
  | '_' :: c :: cs =>
    if isDigit c then
      let (ds, rest) := readMoreDigits isDigit cs
      (c :: ds, rest)
    else ([], '_' :: c :: cs)
  | c :: cs =>
    if isDigit c then
      let (ds, rest) := readMoreDigits isDigit cs
      (c :: ds, rest)
    else ([], c :: cs)
  | [] => ([], [])

/-- Reads digits, at least one, with underscores between them. -/
def readSomeDigits (isDigit : Char → Bool) : List Char → Option (List Char × List Char)
  | c :: cs =>
    if isDigit c then
      let (ds, rest) := readMoreDigits isDigit cs
      some (c :: ds, rest)
    else none
  | [] => none

/-- Reads a sign, if there is one. -/
def readSign : List Char → List Char × List Char
  | c :: cs => if c = '+' ∨ c = '-' then ([c], cs) else ([], c :: cs)
  | [] => ([], [])

/-- Reads a decimal whole number, a zero not followed by digits: its sign and digits. -/
def readWhole (cs : List Char) : Option (List Char × List Char) :=
  let (sign, cs) := readSign cs
  match cs with
  | '0' :: rest => some (sign ++ ['0'], rest)
  | cs => (readSomeDigits Char.isDigit cs).map fun (ds, rest) => (sign ++ ds, rest)

/-- Reads an exponent: its text. -/
def readExponent : List Char → Option (List Char × List Char)
  | c :: cs =>
    if c = 'e' ∨ c = 'E' then
      let (sign, cs) := readSign cs
      (readSomeDigits Char.isDigit cs).map fun (ds, rest) => ('e' :: sign ++ ds, rest)
    else none
  | [] => none

/-- Reads a point and digits: their text. -/
def readDecimals : List Char → Option (List Char × List Char)
  | '.' :: cs => (readSomeDigits Char.isDigit cs).map fun (ds, rest) => ('.' :: ds, rest)
  | _ => none

/-- Reads a number with a fraction or an exponent; one that is too large is refused. -/
def readFloat (cs : List Char) : Option (Binary64 × List Char) := do
  let (whole, cs) ← readWhole cs
  let (tail, cs) ← match readDecimals cs with
    | none => readExponent cs
    | some (decimals, cs) =>
      match readExponent cs with
      | none => some (decimals, cs)
      | some (exponent, cs) => some (decimals ++ exponent, cs)
  let x ← Binary64.parse? (whole ++ tail)
  if x = .infinite false then none else pure (x, cs)

/-- Reads the word for infinity or for no number, with or without a sign. -/
def readSpecial (cs : List Char) : Option (Binary64 × List Char) :=
  match readSign cs with
  | (sign, 'i' :: 'n' :: 'f' :: cs) => some (.infinite (sign = ['-']), cs)
  | (_, 'n' :: 'a' :: 'n' :: cs) => some (.nan, cs)
  | _ => none

/-- A whole number, if it fits 64 bits with a sign. -/
def fitted? (n : Int) : Option Int :=
  if Int64.minValue.toInt ≤ n ∧ n ≤ Int64.maxValue.toInt then some n else none

/-- Reads a number of another base, after its mark. -/
def readBase (base : Nat) (isDigit : Char → Bool) (cs : List Char) :
    Option (Int × List Char) := do
  let (ds, cs) ← readSomeDigits isDigit cs
  let n ← fitted? (ds.foldl (fun (v : Nat) d => base * v + hexDigitValue d) 0 : Nat)
  pure (n, cs)

/-- Reads a whole number. -/
def readInteger (cs : List Char) : Option (Int × List Char) :=
  match cs with
  | '0' :: 'x' :: cs => readBase 16 isHexDigit cs
  | '0' :: 'o' :: cs => readBase 8 (fun c => '0' ≤ c && c ≤ '7') cs
  | '0' :: 'b' :: cs => readBase 2 (fun c => c = '0' || c = '1') cs
  | cs => do
    let (text, cs) ← readWhole cs
    let n ← match text with
      | '-' :: ds => fitted? (-(ofDigits ds : Int))
      | '+' :: ds => fitted? (ofDigits ds)
      | ds => fitted? (ofDigits ds)
    pure (n, cs)

/-- Reads a number. -/
def readNumber (cs : List Char) : Option (Scalar × List Char) :=
  ((readFloat cs).map fun (x, rest) => (.float x, rest))
    |>.or ((readSpecial cs).map fun (x, rest) => (.float x, rest))
    |>.or ((readInteger cs).map fun (n, rest) => (.integer n, rest))

end Agenda.Toml
