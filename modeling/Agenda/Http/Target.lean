import Agenda.Json.Quoted

/-!
# Request targets

A target is a path with an optional query, as in `/getDay?owner=alice`; or an absolute address with a
scheme and an authority; or an authority alone; or a star. What stands behind a `#` is dropped.

A query is a list of names and values, as forms are encoded: `&` between pairs, `=` after a name, `+`
for a blank, and any byte as a percent sign and two hexadecimal digits. A percent sign that is not
followed by two digits stands for itself. Bytes that are not UTF-8 are replaced.

* `Target.ofBytes?`: the path and the query of a target, unless it is malformed.
* `Query.pairs`: the names and values of a query.
-/
namespace Agenda.Http

/-- The parts of a target that matter here; the path of an authority alone is empty. -/
structure Target where
  path : List UInt8
  query : Option (List UInt8)
  deriving DecidableEq, Repr

namespace Target

/-- The byte lies between two characters, these included. -/
def within (low high : Char) (b : UInt8) : Bool := low.toNat ≤ b.toNat && b.toNat ≤ high.toNat

def isOneOf (marks : String) (b : UInt8) : Bool := marks.toList.any fun c => c.toNat == b.toNat

def isAlphanumeric (b : UInt8) : Bool := within '0' '9' b || within 'A' 'Z' b || within 'a' 'z' b

/-! ## Path and query -/

/-- The bytes that may stand in a path. -/
def isPathByte (b : UInt8) : Bool :=
  isOneOf "!=|~\"\x7b\x7d" b || within '$' ';' b || within '@' '_' b || within 'a' 'z' b || 0x7F ≤ b

/-- The bytes that may stand in a query. -/
def isQueryByte (b : UInt8) : Bool :=
  isOneOf "!=" b || within '$' ';' b || within '?' '~' b || 0x7F ≤ b

/-- Reads a query, after its question mark. -/
def readQuery (path s : List UInt8) : Option Target :=
  let (query, rest) := s.span isQueryByte
  match rest with
  | [] => some ⟨path, some query⟩
  | b :: _ => if b = 0x23 then some ⟨path, some query⟩ else none

/-- Reads a path and its query. -/
def readPath (s : List UInt8) : Option Target :=
  let (path, rest) := s.span isPathByte
  match rest with
  | [] => some ⟨path, none⟩
  | b :: rest =>
    if b = 0x3F then readQuery path rest
    else if b = 0x23 then some ⟨path, none⟩
    else none

/-! ## Scheme and authority -/

def isSchemeByte (b : UInt8) : Bool := isAlphanumeric b || isOneOf "+-.~" b

/-- The longest scheme. -/
def maxSchemeLength : Nat := 64

/-- What follows a scheme and its `://`; nothing of it if there is none, an error if it is too
long. -/
def afterScheme (s : List UInt8) : Option (Option (List UInt8)) :=
  let (scheme, rest) := s.span isSchemeByte
  match rest with
  | 0x3A :: 0x2F :: 0x2F :: rest =>
    if maxSchemeLength < scheme.length then none else some (some rest)
  | _ => some none

/-- Where the reading of an authority stands. -/
structure Progress where
  /-- How many colons there are since the last `@` or `]`. -/
  colons : Nat
  opened : Bool
  closed : Bool
  /-- There is a percent sign since the last `@` or `]`. -/
  percent : Bool
  /-- The last byte is an `@`. -/
  atSign : Bool
  deriving DecidableEq, Repr

/-- The most colons that may follow each other, in an address of version 6. -/
def maxColons : Nat := 8

/-- The other bytes that may stand in an authority. -/
def isAuthorityByte (b : UInt8) : Bool := isAlphanumeric b || isOneOf "!$&'()*+,-.;=_~" b

/-- The authority may end here. -/
def Progress.complete (p : Progress) : Bool :=
  p.opened == p.closed && p.colons ≤ 1 && !p.atSign && !p.percent

/-- Reads one byte of an authority. -/
def Progress.step (p : Progress) (b : UInt8) : Option Progress :=
  let p := { p with atSign := false }
  if b = 0x3A then if maxColons ≤ p.colons then none else some { p with colons := p.colons + 1 }
  else if b = 0x5B then if p.percent || p.opened then none else some { p with opened := true }
  else if b = 0x5D then
    if !p.opened || p.closed then none
    else some { p with closed := true, colons := 0, percent := false }
  else if b = 0x40 then some { p with colons := 0, percent := false, atSign := true }
  else if b = 0x25 then some { p with percent := true }
  else if isAuthorityByte b then some p
  else none

/-- The bytes that end an authority. -/
def endsAuthority (b : UInt8) : Bool := b = 0x2F || b = 0x3F || b = 0x23

/-- Reads the rest of an authority: what follows it. -/
def readAuthority (p : Progress) : List UInt8 → Option (List UInt8)
  | [] => if p.complete then some [] else none
  | b :: s =>
    if endsAuthority b then if p.complete then some (b :: s) else none
    else (p.step b).bind fun p => readAuthority p s

/-- What follows an authority. -/
def afterAuthority (s : List UInt8) : Option (List UInt8) :=
  readAuthority ⟨0, false, false, false, false⟩ s

/-! ## Targets -/

/-- The longest target. -/
def maxLength : Nat := 65534

/-- The path of a target that has none of its own. -/
def rooted (t : Target) : Target := if t.path.isEmpty then { t with path := [0x2F] } else t

/-- Reads an address with a scheme, or an authority alone. -/
def readAddress (s : List UInt8) : Option Target :=
  match afterScheme s with
  | none => none
  | some none =>
    (afterAuthority s).bind fun rest => if rest.isEmpty then some ⟨[], none⟩ else none
  | some (some s) =>
    if s.head?.all endsAuthority then none
    else ((afterAuthority s).bind readPath).map rooted

/-- The target that the bytes denote. -/
def ofBytes? (s : List UInt8) : Option Target :=
  if s.isEmpty || maxLength < s.length then none
  else if s = [0x2A] then some ⟨s, none⟩
  else if s.head? = some 0x2F then readPath s
  else readAddress s

end Target

/-! ## Queries -/

namespace Query

/-- The bytes with percent signs decoded. -/
def percentDecode : List UInt8 → List UInt8
  | 0x25 :: a :: b :: s =>
    match Json.hexValue a, Json.hexValue b with
    | some x, some y => UInt8.ofNat (16 * x + y) :: percentDecode s
    | _, _ => 0x25 :: percentDecode (a :: b :: s)
  | b :: s => b :: percentDecode s
  | [] => []

/-- A name or a value as text. -/
def decode (s : List UInt8) : List Char :=
  Text.Utf8.decodeLossy (percentDecode (s.map fun b => if b = 0x2B then 0x20 else b))

/-- The bytes before and after the first `=`. -/
def splitPair (s : List UInt8) : List UInt8 × List UInt8 :=
  let (name, rest) := s.span (· ≠ 0x3D)
  (name, rest.drop 1)

/-- The names and values of a query string, in order. -/
def pairs (s : List UInt8) : List (List Char × List Char) :=
  ((s.splitOn 0x26).filter fun pair => !pair.isEmpty).map fun pair =>
    let (name, value) := splitPair pair
    (decode name, decode value)

/-- The values of a name, in order. -/
def values (name : String) (s : List UInt8) : List (List Char) :=
  (pairs s).filterMap fun (n, value) => if n = name.toList then some value else none

end Query

end Agenda.Http
