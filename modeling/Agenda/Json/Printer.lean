import Agenda.Decimal.Digits

/-!
# Writing JSON

Texts without blanks between tokens. In strings only quotes, backslashes and control characters are
escaped; every other character stands for itself.
-/
namespace Agenda.Json

/-- A control character as four hexadecimal digits. -/
def controlEscape (c : Char) : List Char :=
  let ds := Nat.toDigits 16 c.toNat
  ['\\', 'u'] ++ List.replicate (4 - ds.length) '0' ++ ds

/-- A character between the quotes of a string. -/
def writeChar (c : Char) : List Char :=
  if c = '"' ∨ c = '\\' then ['\\', c]
  else if c = '\x08' then ['\\', 'b']
  else if c = '\x0C' then ['\\', 'f']
  else if c = '\n' then ['\\', 'n']
  else if c = '\r' then ['\\', 'r']
  else if c = '\t' then ['\\', 't']
  else if c.toNat < 0x20 then controlEscape c
  else [c]

def writeString (s : String) : List Char := '"' :: s.toList.flatMap writeChar ++ ['"']

def writeBool (b : Bool) : List Char := (if b then "true" else "false").toList

def writeInteger (n : Int) : List Char := Decimal.signedDigits n

/-- A list of values that are written already. -/
def writeList (values : List (List Char)) : List Char :=
  '[' :: List.intercalate [','] values ++ [']']

/-- A member of an object; its value is written already. -/
def writeMember (name : String) (value : List Char) : List Char :=
  writeString name ++ ':' :: value

/-- An object of members that are written already. -/
def writeObject (members : List (List Char)) : List Char :=
  '\x7b' :: List.intercalate [','] members ++ ['\x7d']

end Agenda.Json
