import Agenda.Json.Error

/-!
# Reading JSON numbers

A whole number that fits 64 bits, signed or not, is read exactly; any other number is a
floating-point number. `-0` is one of these too, so that its sign is kept.

* `readNumber`: the number that the input begins with.
-/
namespace Agenda.Json

/-- A number as written: whole numbers of 64 bits, signed or not, are exact. -/
inductive Number where
  | integer (n : Int)
  | float (x : Binary64)
  deriving DecidableEq, Repr

def isDigit (b : UInt8) : Bool := 0x30 ≤ b && b ≤ 0x39

def digitOf (b : UInt8) : Nat := b.toNat - 0x30

/-- The input goes on with a digit. -/
def digitFollows : List UInt8 → Bool
  | b :: _ => isDigit b
  | [] => false

/-- The largest unsigned number of 64 bits. -/
def maxWord : Nat := 18446744073709551615

/-- The largest exponent. -/
def maxPower : Nat := 2147483647

/-- Reads digits onto a number while it stays within a limit: the number, how many digits were read,
and what follows them. -/
def digitsWithin (limit n used : Nat) : List UInt8 → Nat × Nat × List UInt8
  | [] => (n, used, [])
  | b :: s =>
    if isDigit b ∧ 10 * n + digitOf b ≤ limit then
      digitsWithin limit (10 * n + digitOf b) (used + 1) s
    else (n, used, b :: s)

theorem digitsWithin_length (limit n used : Nat) (s : List UInt8) :
    (digitsWithin limit n used s).2.2.length ≤ s.length := by
  induction s generalizing n used with
  | nil => simp [digitsWithin]
  | cons b s ih =>
    rw [digitsWithin]
    split
    · have := ih (10 * n + digitOf b) (used + 1); simp; omega
    · simp

/-- A power of ten as a floating-point number. -/
def powerOfTen (e : Nat) : Binary64 := .ofRatio false (Decimal.tenTo e) 1

/-- The number `± m · 10 ^ e`, rounded first as `m`, then at each multiplication or division. -/
def makeFloat (negative : Bool) (m : Nat) (e : Int) (s : List UInt8) : Except Failure Number :=
  let x := Binary64.ofNat m
  let signed (x : Binary64) : Number := .float (if negative then x.neg else x)
  if m = 0 then .ok (signed x)
  else if 0 ≤ e then
    if e ≤ 308 then
      let y := x.mul (powerOfTen e.toNat)
      if y.isInfinite then .error ⟨.numberOutOfRange, s⟩ else .ok (signed y)
    else .error ⟨.numberOutOfRange, s⟩
  else if -308 ≤ e then .ok (signed (x.div (powerOfTen (-e).toNat)))
  else if -616 ≤ e then
    .ok (signed ((x.div (powerOfTen 308)).div (powerOfTen (-(e + 308)).toNat)))
  else .ok (signed (.ofNat 0))

/-- Reads the sign of an exponent: whether it is a minus sign. -/
def readDown : List UInt8 → Bool × List UInt8
  | b :: s => if b = 0x2B then (false, s) else if b = 0x2D then (true, s) else (false, b :: s)
  | [] => (false, [])

/-- Reads an exponent after its `e`; the number so far is `± m · 10 ^ e`. -/
def readExponent (negative : Bool) (m : Nat) (e : Int) (s : List UInt8) :
    Except Failure (Number × List UInt8) :=
  match readDown s with
  | (_, []) => .error ⟨.endOfValue, []⟩
  | (down, b :: r) =>
    if isDigit b then
      match digitsWithin maxPower (digitOf b) 1 r with
      | (power, _, r) =>
        if digitFollows r then
          if m ≠ 0 ∧ ¬ down then .error ⟨.numberOutOfRange, r.tail⟩
          else .ok (.float (if negative then (Binary64.ofNat 0).neg else .ofNat 0), r.dropWhile isDigit)
        else (makeFloat negative m (if down then e - power else e + power) r).map (·, r)
    else .error ⟨.invalidNumber, r⟩

/-- Ends a number that is not whole: an exponent may follow. -/
def readPower (negative : Bool) (m : Nat) (e : Int) (s : List UInt8) :
    Except Failure (Number × List UInt8) :=
  match s with
  | b :: r =>
    if b = 0x65 ∨ b = 0x45 then readExponent negative m e r
    else (makeFloat negative m e s).map (·, s)
  | [] => (makeFloat negative m e s).map (·, s)

/-- Reads a fraction after its point; digits that do not fit 64 bits are dropped. -/
def readFraction (negative : Bool) (m : Nat) (e : Int) (s : List UInt8) :
    Except Failure (Number × List UInt8) :=
  match digitsWithin maxWord m 0 s with
  | (m, used, r) =>
    if digitFollows r then readPower negative m (e - used) (r.dropWhile isDigit)
    else if used = 0 then
      .error (.atNext (if r.isEmpty then .endOfValue else .invalidNumber) r)
    else readPower negative m (e - used) r

/-- Ends a number after its whole part `m · 10 ^ e`. -/
def readRest (negative : Bool) (m : Nat) (e : Int) (s : List UInt8) :
    Except Failure (Number × List UInt8) :=
  match s with
  | b :: r => if b = 0x2E then readFraction negative m e r else readPower negative m e s
  | [] => readPower negative m e s

/-- A whole number: exact if it fits 64 bits, otherwise, and for `-0`, a floating-point number. -/
def wholeNumber (negative : Bool) (m : Nat) : Number :=
  if ¬ negative then .integer m
  else if m = 0 ∨ 9223372036854775808 < m then .float (Binary64.ofNat m).neg
  else .integer (-m)

/-- The input goes on with a fraction or an exponent. -/
def goesOn : List UInt8 → Bool
  | b :: _ => b = 0x2E || b = 0x65 || b = 0x45
  | [] => false

/-- Reads a number after its sign. -/
def readUnsigned (negative : Bool) : List UInt8 → Except Failure (Number × List UInt8)
  | [] => .error ⟨.endOfValue, []⟩
  | b :: s =>
    if b = 0x30 then
      if digitFollows s then .error (.atNext .invalidNumber s)
      else if goesOn s then readRest negative 0 0 s
      else .ok (wholeNumber negative 0, s)
    else if isDigit b then
      match digitsWithin maxWord (digitOf b) 1 s with
      | (m, _, r) =>
        if digitFollows r then
          let r' := r.dropWhile isDigit
          readRest negative m (r.length - r'.length : Nat) r'
        else if goesOn r then readRest negative m 0 r
        else .ok (wholeNumber negative m, r)
    else .error ⟨.invalidNumber, s⟩

/-- Reads a number; the input begins with a minus sign or a digit. -/
def readNumber (s : List UInt8) : Except Failure (Number × List UInt8) :=
  match s with
  | b :: r => if b = 0x2D then readUnsigned true r else readUnsigned false s
  | [] => readUnsigned false s

/-! ## Numbers do not grow the input -/

theorem map_pair_rest {x : Except Failure Number} {s r : List UInt8} {n : Number}
    (h : x.map (·, s) = .ok (n, r)) : r = s := by
  obtain ⟨_, _, he⟩ := map_eq_ok.1 h
  simp_all

theorem dropDigits_length (s : List UInt8) : (s.dropWhile isDigit).length ≤ s.length :=
  (List.dropWhile_suffix _).length_le

theorem readDown_length (s : List UInt8) : (readDown s).2.length ≤ s.length := by
  unfold readDown
  repeat' split
  all_goals simp

theorem readExponent_length {negative : Bool} {m : Nat} {e : Int} {s r : List UInt8} {n : Number}
    (h : readExponent negative m e s = .ok (n, r)) : r.length ≤ s.length := by
  have hs := readDown_length s
  unfold readExponent at h
  split at h
  · simp at h
  · next b t heq =>
    rw [heq] at hs
    split at h
    · have hw := digitsWithin_length maxPower (digitOf b) 1 t
      rcases hq : digitsWithin maxPower (digitOf b) 1 t with ⟨power, used, q⟩
      have hd := dropDigits_length q
      simp only [hq] at h hw
      split at h
      · split at h
        · simp at h
        · simp only [Except.ok.injEq, Prod.mk.injEq] at h
          simp only [List.length_cons] at hs
          rw [← h.2]; omega
      · have := map_pair_rest h
        simp only [List.length_cons] at hs
        rw [this]; omega
    · simp at h

theorem readPower_length {negative : Bool} {m : Nat} {e : Int} {s r : List UInt8} {n : Number}
    (h : readPower negative m e s = .ok (n, r)) : r.length ≤ s.length := by
  unfold readPower at h
  split at h
  · split at h
    · have := readExponent_length h; simp; omega
    · simp [map_pair_rest h]
  · simp [map_pair_rest h]

theorem readFraction_length {negative : Bool} {m : Nat} {e : Int} {s r : List UInt8} {n : Number}
    (h : readFraction negative m e s = .ok (n, r)) : r.length ≤ s.length := by
  have hw := digitsWithin_length maxWord m 0 s
  unfold readFraction at h
  rcases hq : digitsWithin maxWord m 0 s with ⟨m, used, q⟩
  have hd := dropDigits_length q
  simp only [hq] at h hw
  split at h
  · have := readPower_length h; omega
  · split at h
    · simp at h
    · have := readPower_length h; omega

theorem readRest_length {negative : Bool} {m : Nat} {e : Int} {s r : List UInt8} {n : Number}
    (h : readRest negative m e s = .ok (n, r)) : r.length ≤ s.length := by
  unfold readRest at h
  split at h
  · split at h
    · have := readFraction_length h; simp; omega
    · exact readPower_length h
  · exact readPower_length h

theorem readUnsigned_length {negative : Bool} {s r : List UInt8} {n : Number}
    (h : readUnsigned negative s = .ok (n, r)) : r.length < s.length := by
  unfold readUnsigned at h
  split at h
  · simp at h
  · next b t =>
    have hw := digitsWithin_length maxWord (digitOf b) 1 t
    rcases hq : digitsWithin maxWord (digitOf b) 1 t with ⟨m, used, q⟩
    have hd := dropDigits_length q
    simp only [hq] at h hw
    simp only [List.length_cons]
    repeat' split at h
    all_goals first
      | (simp at h; done)
      | exact Nat.lt_of_le_of_lt (readRest_length h) (by omega)
      | (simp only [Except.ok.injEq, Prod.mk.injEq] at h; rw [← h.2]; omega)

/-- A number takes at least one byte. -/
theorem readNumber_length {s r : List UInt8} {n : Number} (h : readNumber s = .ok (n, r)) :
    r.length < s.length := by
  unfold readNumber at h
  split at h
  · split at h
    · have := readUnsigned_length h; simp; omega
    · have := readUnsigned_length h; exact this
  · exact readUnsigned_length h

end Agenda.Json
