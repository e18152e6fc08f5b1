import Agenda.Decimal.Digits

/-!
# Fields of a schedule

A field is a list of terms: all values, one value, a range of values, or every so many of these.
Months and weekdays have names as well as numbers. A field denotes a set of values, listed in
ascending order.

* `Field.set?`: the set that terms denote, if all their values are of the field and ascend.
-/
namespace Agenda.Cron

/-- Values in a row. -/
inductive Span where
  | all
  | point (n : Nat)
  | range (first last : Nat)
  | names (first last : List Char)
  deriving DecidableEq, Repr

/-- A term of a field. -/
inductive Term where
  | span (s : Span)
  /-- Every `step`-th value; a single value stands for all from there on. -/
  | every (s : Span) (step : Nat)
  | name (cs : List Char)
  deriving DecidableEq, Repr

/-- The values `first`, `first + step` and so on up to `last`. -/
structure Progression where
  first : Nat
  last : Nat
  step : Nat
  deriving DecidableEq, Repr

/-- The value belongs to the progression. -/
def Progression.has (p : Progression) (v : Nat) : Bool :=
  p.first ≤ v && v ≤ p.last && (v - p.first) % p.step == 0

/-- What a field may hold. -/
structure Field where
  least : Nat
  greatest : Nat
  /-- The names of values, in lower case. -/
  names : List (String × Nat)
  /-- A question mark stands for all values. -/
  mayBeOpen : Bool
  deriving DecidableEq, Repr

namespace Field

/-- The values of the field, in ascending order. -/
def values (f : Field) : List Nat := List.range' f.least (f.greatest + 1 - f.least)

/-- The number, if it is a value of the field. -/
def value? (f : Field) (n : Nat) : Option Nat :=
  if f.least ≤ n ∧ n ≤ f.greatest then some n else none

/-- The value of a name, written in any case. -/
def named? (f : Field) (cs : List Char) : Option Nat :=
  f.names.lookup (String.ofList (cs.map Char.toLower))

/-- The values between two, if they ascend. -/
def between? (f : Field) (first last : Nat) : Option Progression := do
  let first ← f.value? first
  let last ← f.value? last
  if first ≤ last then pure ⟨first, last, 1⟩ else none

def spanned? (f : Field) : Span → Option Progression
  | .all => some ⟨f.least, f.greatest, 1⟩
  | .point n => f.between? n n
  | .range first last => f.between? first last
  | .names first last => do f.between? (← f.named? first) (← f.named? last)

def progression? (f : Field) : Term → Option Progression
  | .span s => f.spanned? s
  | .name cs => do
    let n ← f.named? cs
    f.between? n n
  | .every s step =>
    if step = 0 then none
    else do
      let p ← f.spanned? s
      match s with
      | .point _ => pure ⟨p.first, f.greatest, step⟩
      | _ => pure { p with step }

/-- The values that the terms denote, in ascending order. -/
def set? (f : Field) (ts : List Term) : Option (List Nat) := do
  let ps ← ts.mapM f.progression?
  pure (f.values.filter fun v => ps.any (·.has v))

/-! ## The fields of a schedule -/

def second : Field := ⟨0, 59, [], false⟩

def minute : Field := ⟨0, 59, [], false⟩

def hour : Field := ⟨0, 23, [], false⟩

def dayOfMonth : Field := ⟨1, 31, [], true⟩

def month : Field :=
  ⟨1, 12,
    [("jan", 1), ("january", 1), ("feb", 2), ("february", 2), ("mar", 3), ("march", 3),
      ("apr", 4), ("april", 4), ("may", 5), ("jun", 6), ("june", 6), ("jul", 7), ("july", 7),
      ("aug", 8), ("august", 8), ("sep", 9), ("september", 9), ("oct", 10), ("october", 10),
      ("nov", 11), ("november", 11), ("dec", 12), ("december", 12)], false⟩

/-- Weekdays are counted from 1, Sunday. -/
def weekday : Field :=
  ⟨1, 7,
    [("sun", 1), ("sunday", 1), ("mon", 2), ("monday", 2), ("tue", 3), ("tues", 3),
      ("tuesday", 3), ("wed", 4), ("wednesday", 4), ("thu", 5), ("thurs", 5), ("thursday", 5),
      ("fri", 6), ("friday", 6), ("sat", 7), ("saturday", 7)], true⟩

def year : Field := ⟨1970, 2100, [], false⟩

end Field

end Agenda.Cron
