import Agenda.Text.Blank

/-!
# Decimal digits

Natural numbers as digits and back. `digits` writes no leading zero; `padded` fills up to a width;
`ofDigits` reads any digits. Readers take digits one by one onto a number, which never decreases on the
way: a reader that checks a limit at every digit checks no more than the last number.

* `ofDigits_digits`, `ofDigits_padded`: the number is read back.
* `length_padded`: numbers that fit the width fill it.
* `le_ofDigitChars`: reading digits onto a number does not decrease it.
* `DigitsEnd`: what may follow digits that are read to their end.
-/
namespace Agenda.Decimal

/-- A power of ten. -/
def tenTo (k : Nat) : Nat := Nat.pow 10 k

/-- A power of two. -/
def twoTo (k : Nat) : Nat := Nat.pow 2 k

/-- The decimal digits of a number, most significant first; zero is one digit. -/
def digits (n : Nat) : List Char := Nat.toDigits 10 n

/-- The digits of a number, filled with zeros in front to at least `width`. -/
def padded (width n : Nat) : List Char :=
  let ds := digits n
  List.replicate (width - ds.length) '0' ++ ds

/-- The value of a digit. -/
def digitValue (c : Char) : Nat := c.toNat - '0'.toNat

/-- The number that the digits denote. -/
def ofDigits (ds : List Char) : Nat :=
  ds.foldl (fun n c => 10 * n + digitValue c) 0

/-- The digits of a whole number, a minus sign before those of a negative one. -/
def signedDigits (n : Int) : List Char :=
  if n < 0 then '-' :: digits n.natAbs else digits n.natAbs

/-! ## Values -/

theorem ofDigitChars_cons (n : Nat) (c : Char) (ds : List Char) :
    Nat.ofDigitChars 10 (c :: ds) n = Nat.ofDigitChars 10 ds (10 * n + digitValue c) :=
  Nat.ofDigitChars_cons

theorem ofDigits_eq (ds : List Char) : ofDigits ds = Nat.ofDigitChars 10 ds 0 :=
  Nat.ofDigitChars_eq_foldl.symm

theorem le_ofDigitChars (n : Nat) (ds : List Char) : n ≤ Nat.ofDigitChars 10 ds n := by
  induction ds generalizing n with
  | nil => exact Nat.le_refl n
  | cons c ds ih =>
    have h := ih (10 * n + digitValue c)
    rw [ofDigitChars_cons]
    omega

theorem ofDigitChars_zeros (k : Nat) (ds : List Char) :
    Nat.ofDigitChars 10 (List.replicate k '0' ++ ds) 0 = Nat.ofDigitChars 10 ds 0 := by
  induction k with
  | zero => rfl
  | succ k ih =>
    rw [List.replicate_succ, List.cons_append, ofDigitChars_cons]
    exact ih

/-! ## What is written -/

theorem isDigit_of_mem_digits {n : Nat} {c : Char} (h : c ∈ digits n) : c.isDigit :=
  Nat.isDigit_of_mem_toDigits (by decide) (by decide) h

theorem digits_ne_nil (n : Nat) : digits n ≠ [] := Nat.toDigits_ne_nil

theorem ofDigits_digits (n : Nat) : ofDigits (digits n) = n := by
  rw [ofDigits_eq]
  exact Nat.ofDigitChars_ten_toDigits

example : ofDigits (digits 907) = 907 := by decide

theorem isDigit_of_mem_padded {width n : Nat} {c : Char} (h : c ∈ padded width n) : c.isDigit := by
  rcases List.mem_append.1 h with h | h
  · rw [List.eq_of_mem_replicate h]
    decide
  · exact isDigit_of_mem_digits h

theorem padded_ne_nil (width n : Nat) : padded width n ≠ [] := by
  simp [padded, digits_ne_nil]

theorem ofDigits_padded (width n : Nat) : ofDigits (padded width n) = n := by
  rw [ofDigits_eq, padded, ofDigitChars_zeros, ← ofDigits_eq, ofDigits_digits]

theorem length_padded {width n : Nat} (hw : 0 < width) (h : n < tenTo width) :
    (padded width n).length = width := by
  have hl : (digits n).length ≤ width := (Nat.length_toDigits_le_iff (by decide) hw).2 h
  simp only [padded, List.length_append, List.length_replicate]
  omega

example : padded 4 26 = ['0', '0', '2', '6'] := by decide

/-! ## Where digits end -/

/-- The text does not go on with a digit. -/
def DigitsEnd (cs : List Char) : Prop := ∀ c ∈ cs.head?, c.isDigit = false

theorem digitsEnd_nil : DigitsEnd [] := by
  intro c hc
  cases hc

theorem digitsEnd_cons {c : Char} {cs : List Char} (h : c.isDigit = false) :
    DigitsEnd (c :: cs) := by
  intro d hd
  cases hd
  exact h

/-! ## Digits are no blanks -/

theorem not_blank_of_isDigit {c : Char} (h : c.isDigit) : Text.isBlank c = false := by
  have hc : 48 ≤ c.toNat ∧ c.toNat ≤ 57 := Char.isDigit_iff_toNat.1 h
  simp only [Text.isBlank, Bool.or_eq_false_iff, Bool.and_eq_false_iff, decide_eq_false_iff_not,
    beq_eq_false_iff_ne]
  omega

end Agenda.Decimal
