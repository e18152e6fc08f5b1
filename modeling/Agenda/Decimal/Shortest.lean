import Agenda.Decimal.Binary64

/-!
# Shortest decimals

The decimal with the fewest digits that reads back as a given floating-point number; of several the
one nearest to it, and of two equally near ones the one that a `Tie` names.

The numbers that read back as `m · 2 ^ e` form an interval, its ends included if `m` is even. On the
grid of multiples of a power of ten only the two neighbours of the number have to be tried: if the
interval holds a point of the grid, it holds one of them.

* `Shortest.of`: the digits and the power of ten.
* `Binary64.plainText`: without an exponent.
* `Binary64.floatText`: always with a point, and with an exponent for large and small numbers.
-/
namespace Agenda

/-- Which of two equally near decimals is taken: the one with an even last digit, or the greater. -/
inductive Tie where
  | even
  | up
  deriving DecidableEq, Repr

/-- The whole number nearest to a quotient. -/
def Tie.round : Tie → Nat → Nat → Nat
  | even => Binary64.roundHalfEven
  | up => Binary64.roundHalfUp

namespace Shortest

open Binary64 Decimal

/-- A quotient lies in the interval of numbers that read back as `m · 2 ^ e`. The gap below a power
of two is half the gap above it. -/
def readsBack (m : Nat) (e : Int) (num den : Nat) : Bool :=
  let down := if m = leastNormal ∧ minExponent < e then 1 else 2
  let (low, unit) := ratio (4 * m - down) (e - 2)
  let (high, unit') := ratio (4 * m + 2) (e - 2)
  if m % 2 = 0 then low * den ≤ num * unit && num * unit' ≤ high * den
  else low * den < num * unit && num * unit' < high * den

/-- The least `k` with `num / den < 10 ^ k`, found from a guess that is not too large. -/
def magnitudeFrom (num den : Nat) : Nat → Int → Int
  | 0, k => k
  | fuel + 1, k =>
    let below := if 0 ≤ k then num < den * tenTo k.toNat else num * tenTo (-k).toNat < den
    if below then k else magnitudeFrom num den fuel (k + 1)

/-- The least `k` with `num / den < 10 ^ k`. -/
def magnitude (num den : Nat) : Int :=
  let guess : Int := ((num.log2 : Int) - den.log2 - 1) * 1233 / 4096 - 1
  magnitudeFrom num den 5 guess

/-- The neighbour of `m · 2 ^ e` among the multiples of `10 ^ k` that reads back, the nearer one if
both do. -/
def candidate? (tie : Tie) (m : Nat) (e k : Int) : Option Nat :=
  let (num, den) := ratio m e
  let (num, den) := if 0 ≤ k then (num, den * tenTo k.toNat) else (num * tenTo (-k).toNat, den)
  let q := num / den
  let reads (d : Nat) : Bool :=
    if 0 ≤ k then readsBack m e (d * tenTo k.toNat) 1 else readsBack m e d (tenTo (-k).toNat)
  let near := tie.round num den
  let far := if near = q then q + 1 else q
  if reads near then some near else if reads far then some far else none

/-- The decimal that equals `m · 2 ^ e`. -/
def exact (m : Nat) (e : Int) : Nat × Int :=
  if 0 ≤ e then (m * twoTo e.toNat, 0) else (m * Nat.pow 5 (-e).toNat, e)

/-- The first grid with a point that reads back, from `k` on with finer and finer grids. -/
def search (tie : Tie) (m : Nat) (e : Int) : Nat → Int → Nat × Int
  | 0, _ => exact m e
  | fuel + 1, k =>
    match candidate? tie m e k with
    | some d => (d, k)
    | none => search tie m e fuel (k - 1)

/-- A decimal without the zeros at its end. -/
def trimZeros : Nat → Nat × Int → Nat × Int
  | 0, r => r
  | fuel + 1, (d, k) => if d ≠ 0 ∧ d % 10 = 0 then trimZeros fuel (d / 10, k + 1) else (d, k)

/-- The shortest decimal `d · 10 ^ k` that reads back as the positive number `m · 2 ^ e`. -/
def of (tie : Tie) (m : Nat) (e : Int) : Nat × Int :=
  let (num, den) := ratio m e
  trimZeros 20 (search tie m e 18 (magnitude num den - 1))

end Shortest

namespace Binary64

open Decimal

/-- Digits with `point` of them before the decimal point; `none` after it gives `.0` or nothing. -/
def placed (ds : List Char) (point : Int) (keepPoint : Bool) : List Char :=
  let n : Int := ds.length
  if n ≤ point then
    ds ++ List.replicate (point - n).toNat '0' ++ (if keepPoint then ['.', '0'] else [])
  else if 0 < point then ds.take point.toNat ++ '.' :: ds.drop point.toNat
  else '0' :: '.' :: (List.replicate (-point).toNat '0' ++ ds)

def signText (negative : Bool) (cs : List Char) : List Char :=
  if negative then '-' :: cs else cs

/-- The shortest decimal without an exponent, however long; a whole number has no point. A tie goes
up. -/
def plainText : Binary64 → List Char
  | finite negative 0 _ => signText negative ['0']
  | finite negative m e =>
    let (d, k) := Shortest.of .up m e
    let ds := digits d
    signText negative (placed ds (ds.length + k) false)
  | infinite negative => signText negative ['i', 'n', 'f']
  | nan => ['N', 'a', 'N']

/-- The shortest decimal with at least one digit after the point; from 1e16 on and below 1e-5 with
an exponent. A tie goes to the even digit. -/
def floatText : Binary64 → List Char
  | finite negative 0 _ => signText negative ['0', '.', '0']
  | finite negative m e =>
    let (d, k) := Shortest.of .even m e
    let ds := digits d
    let leading : Int := ds.length + k - 1
    signText negative <|
      if -5 ≤ leading ∧ leading ≤ 15 then placed ds (leading + 1) true
      else
        placed ds 1 false ++ 'e' :: (if leading < 0 then '-' else '+') :: digits leading.natAbs
  | infinite negative => signText negative ['i', 'n', 'f']
  | nan => ['N', 'a', 'N']

end Binary64

end Agenda
