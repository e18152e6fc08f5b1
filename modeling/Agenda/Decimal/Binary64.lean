import Agenda.Decimal.Digits

/-!
# Binary floating point with 64 bits

Finite numbers are `± m · 2 ^ e` with `m` below `2 ^ 53`; every operation gives the number nearest to
the exact result, of two equally near ones the one with even `m`, or infinity when that is out of
range.

* `Binary64.ofRatio`: the number nearest to a quotient.
* `Binary64.mul`, `Binary64.div`: from the exact product and quotient.
* `Binary64.ofDecimal`: from a decimal, `Binary64.parse?` from its text.
* `Binary64.roundToNat`: the nearest natural number, a half away from zero, cut to a limit.
-/
namespace Agenda

/-- A 64-bit floating-point number. -/
inductive Binary64 where
  | finite (negative : Bool) (mantissa : Nat) (exponent : Int)
  | infinite (negative : Bool)
  | nan
  deriving DecidableEq, Repr

namespace Binary64

open Decimal

/-! ## Rounding -/

/-- The exponent of the smallest numbers. -/
def minExponent : Int := -1074

/-- The least mantissa of a number that is not among the smallest, 2 ^ 52. -/
def leastNormal : Nat := 4503599627370496

/-- The exponent of the largest numbers. -/
def maxExponent : Int := 971

/-- The whole number nearest to a quotient, of two equally near ones the even one. -/
def roundHalfEven (num den : Nat) : Nat :=
  let q := num / den
  let r := num % den
  if 2 * r < den then q
  else if den < 2 * r then q + 1
  else if q % 2 = 0 then q else q + 1

/-- The whole number nearest to a quotient, of two equally near ones the greater. -/
def roundHalfUp (num den : Nat) : Nat := (2 * num + den) / (2 * den)

/-- A quotient scaled by a power of two, as numerator and denominator. -/
def scaled (num den : Nat) (e : Int) : Nat × Nat :=
  if 0 ≤ e then (num * twoTo e.toNat, den) else (num, den * twoTo (-e).toNat)

/-- The exponent at which a quotient is rounded: its first 53 binary digits are whole, as far as the
exponents go down. -/
def roundingExponent (num den : Nat) : Int :=
  let guess : Int := (num.log2 : Int) - den.log2 - 52
  let (n, d) := scaled num den (-guess)
  max minExponent (if n < d * leastNormal then guess - 1 else guess)

/-- The number `± m · 2 ^ e` with `m` below `2 ^ 53`, infinite if it is out of range. -/
def bounded (negative : Bool) (m : Nat) (e : Int) : Binary64 :=
  if maxExponent < e then .infinite negative else .finite negative m e

/-- The number with `m` units of `2 ^ e`, where `m` may have become `2 ^ 53`. -/
def ofUnits (negative : Bool) (m : Nat) (e : Int) : Binary64 :=
  if m = 2 * leastNormal then bounded negative leastNormal (e + 1) else bounded negative m e

/-- The number nearest to the quotient `num / den`. -/
def ofRatio (negative : Bool) (num den : Nat) : Binary64 :=
  if num = 0 ∨ den = 0 then .finite negative 0 minExponent
  else
    let e := roundingExponent num den
    let q := scaled num den (-e)
    ofUnits negative (roundHalfEven q.1 q.2) e

def ofNat (n : Nat) : Binary64 := ofRatio false n 1

def neg : Binary64 → Binary64
  | finite s m e => finite (!s) m e
  | infinite s => infinite (!s)
  | nan => nan

def isInfinite : Binary64 → Bool
  | infinite _ => true
  | _ => false

def isZero : Binary64 → Bool
  | finite _ m _ => m == 0
  | _ => false

/-- The quotient that `± m · 2 ^ e` stands for, without its sign. -/
def ratio (m : Nat) (e : Int) : Nat × Nat := scaled m 1 e

/-! ## Arithmetic on finite numbers -/

/-- The product of two finite numbers; anything else gives no number. -/
def mul : Binary64 → Binary64 → Binary64
  | finite s m e, finite t n f =>
    let (a, b) := ratio (m * n) (e + f)
    ofRatio (s != t) a b
  | _, _ => nan

/-- The quotient of two finite numbers, the second not zero; anything else gives no number. -/
def div : Binary64 → Binary64 → Binary64
  | finite s m e, finite t n f =>
    if n = 0 then nan
    else
      let (a, b) := ratio m (e - f)
      ofRatio (s != t) a (b * n)
  | _, _ => nan

/-! ## Decimals -/

/-- The number nearest to `± m · 10 ^ e`. -/
def ofDecimal (negative : Bool) (m : Nat) (e : Int) : Binary64 :=
  -- Beyond these exponents the result is settled, and the powers need not be computed.
  let size : Int := (digits m).length + e
  if m = 0 ∨ size < -330 then .finite negative 0 minExponent
  else if 320 < size then .infinite negative
  else if 0 ≤ e then ofRatio negative (m * tenTo e.toNat) 1
  else ofRatio negative m (tenTo (-e).toNat)

/-- The exponent after an `e`: an optional sign and digits. -/
def exponent? (cs : List Char) : Option Int :=
  let (negative, ds) := match cs with
    | '-' :: ds => (true, ds)
    | '+' :: ds => (false, ds)
    | ds => (false, ds)
  if ds.isEmpty || !ds.all Char.isDigit then none
  else some (if negative then -(ofDigits ds : Int) else ofDigits ds)

/-- The number that an unsigned decimal text denotes: digits with an optional point, at least one
digit, and an optional exponent. -/
def unsigned? (negative : Bool) (cs : List Char) : Option Binary64 := do
  let (whole, rest) := cs.span Char.isDigit
  let (fraction, rest) := match rest with
    | '.' :: rest => rest.span Char.isDigit
    | rest => ([], rest)
  if whole.isEmpty && fraction.isEmpty then none
  else
    let e ← match rest with
      | [] => some 0
      | c :: ds => if c = 'e' ∨ c = 'E' then exponent? ds else none
    some (ofDecimal negative (ofDigits (whole ++ fraction)) (e - fraction.length))

/-- The number that a text denotes: a decimal with an optional sign, or the name of an infinity or
of no number, in any case. -/
def parse? (cs : List Char) : Option Binary64 :=
  let (negative, cs) := match cs with
    | '-' :: cs => (true, cs)
    | '+' :: cs => (false, cs)
    | cs => (false, cs)
  let name := String.ofList (cs.map Char.toLower)
  if name = "inf" ∨ name = "infinity" then some (.infinite negative)
  else if name = "nan" then some .nan
  else unsigned? negative cs

/-! ## Rounding to whole numbers -/

/-- The natural number nearest to the number, a half rounded away from zero; what lies outside 0 to
`limit` gives the nearer end, and no number gives 0. -/
def roundToNat (limit : Nat) : Binary64 → Nat
  | finite negative m e =>
    if negative then 0
    else
      let (n, d) := ratio m e
      min limit (roundHalfUp n d)
  | infinite negative => if negative then 0 else limit
  | nan => 0

end Binary64

end Agenda
