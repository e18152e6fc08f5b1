import Agenda.Json.Number
import Agenda.Json.Printer
import Agenda.Proofs.Text.Utf8

/-!
# Written integers are read back

The digits of a whole number of 64 bits are read as that number, if neither a digit nor a fraction nor
an exponent follows. No digits are written in front that JSON forbids: only zero begins with a zero.

* `readNumber_written`: an integer is read back.
-/
namespace Agenda.Json

open Decimal Text.Utf8

/-! ## Digits as bytes -/

variable {c : Char}

theorem encode_digit (h : c.isDigit) (cs : List Char) :
    encode (c :: cs) = UInt8.ofNat c.toNat :: encode cs := by
  have hc : 48 ≤ c.toNat ∧ c.toNat ≤ 57 := Char.isDigit_iff_toNat.1 h
  exact encode_ascii (by omega) cs

theorem isDigit_byte (h : c.isDigit) : isDigit (UInt8.ofNat c.toNat) = true := by
  have hc : 48 ≤ c.toNat ∧ c.toNat ≤ 57 := Char.isDigit_iff_toNat.1 h
  rw [isDigit, Bool.and_eq_true, decide_eq_true_eq, decide_eq_true_eq,
    between_iff (by omega : c.toNat < 256)]
  exact hc

theorem digitOf_byte (h : c.isDigit) : digitOf (UInt8.ofNat c.toNat) = digitValue c := by
  have hc : 48 ≤ c.toNat ∧ c.toNat ≤ 57 := Char.isDigit_iff_toNat.1 h
  rw [digitOf, UInt8.toNat_ofNat_of_lt' (by omega : c.toNat < 256)]
  rfl

/-! ## Digits are read back -/

variable {r : List UInt8}

theorem digitsWithin_of_end (limit n used : Nat) (he : digitFollows r = false) :
    digitsWithin limit n used r = (n, used, r) := by
  cases r with
  | nil => rfl
  | cons b r =>
    have hb : isDigit b = false := he
    rw [digitsWithin, hb]
    rfl

theorem digitsWithin_written {ds : List Char} {limit n : Nat} (used : Nat)
    (hd : ∀ c ∈ ds, c.isDigit) (he : digitFollows r = false)
    (hv : Nat.ofDigitChars 10 ds n ≤ limit) :
    digitsWithin limit n used (encode ds ++ r) =
      (Nat.ofDigitChars 10 ds n, used + ds.length, r) := by
  induction ds generalizing n used with
  | nil => exact digitsWithin_of_end limit n used he
  | cons c ds ih =>
    have hc : c.isDigit := hd c List.mem_cons_self
    rw [ofDigitChars_cons] at hv ⊢
    have hle : 10 * n + digitValue c ≤ limit := Nat.le_trans (le_ofDigitChars _ ds) hv
    rw [encode_digit hc, List.cons_append, digitsWithin, digitOf_byte hc,
      if_pos ⟨isDigit_byte hc, hle⟩, ih _ (fun x hx => hd x (List.mem_cons_of_mem c hx)) hv,
      List.length_cons, Nat.add_assoc, Nat.add_comm 1]

/-- Only zero is written with a zero in front. -/
theorem head_digits {n : Nat} (h : n ≠ 0) : ∃ c ds, digits n = c :: ds ∧ c ≠ '0' := by
  induction n using Nat.strongRecOn with
  | ind n ih =>
    by_cases hn : n < 10
    · refine ⟨n.digitChar, [], Nat.toDigits_of_lt_base hn, fun h0 => h ?_⟩
      have ht := Nat.toNat_digitChar_of_lt_ten hn
      rw [h0] at ht
      have : '0'.toNat = 48 := rfl
      omega
    · obtain ⟨c, ds, hd, hc⟩ := ih (n / 10) (by omega) (by omega)
      refine ⟨c, ds ++ [(n % 10).digitChar], ?_, hc⟩
      rw [digits, Nat.toDigits_of_base_le (by decide) (by omega), ← digits, hd]
      rfl

/-! ## Numbers -/

theorem readUnsigned_written (negative : Bool) {n : Nat} (hn : n ≤ maxWord)
    (he : digitFollows r = false) (hg : goesOn r = false) :
    readUnsigned negative (encode (digits n) ++ r) = .ok (wholeNumber negative n, r) := by
  by_cases h0 : n = 0
  · subst h0
    have hz : encode (digits 0) = [0x30] := by decide
    rw [hz, List.singleton_append, readUnsigned, if_pos rfl, he, hg]
    rfl
  · obtain ⟨c, ds, hds, hc⟩ := head_digits h0
    have hd : ∀ x ∈ c :: ds, x.isDigit := fun x hx => isDigit_of_mem_digits (hds ▸ hx)
    have hcd : c.isDigit := hd c List.mem_cons_self
    have hv : Nat.ofDigitChars 10 ds (digitValue c) = n := by
      have h := ofDigits_digits n
      rw [hds, ofDigits_eq, ofDigitChars_cons, Nat.mul_zero, Nat.zero_add] at h
      exact h
    have hb : UInt8.ofNat c.toNat ≠ 0x30 := by
      have h48 : 48 ≤ c.toNat ∧ c.toNat ≤ 57 := Char.isDigit_iff_toNat.1 hcd
      rw [Ne, eq_iff (by omega : c.toNat < 256)]
      exact fun h => hc (Char.toNat_inj.1 h)
    have hle : Nat.ofDigitChars 10 ds (digitValue c) ≤ maxWord := hv ▸ hn
    have hw := digitsWithin_written 1 (fun x hx => hd x (List.mem_cons_of_mem c hx)) he hle
    rw [hds, encode_digit hcd, List.cons_append, readUnsigned, if_neg hb, if_pos (isDigit_byte hcd),
      digitOf_byte hcd, hw]
    simp only [he, hg, hv]
    rfl

theorem exists_first_digit (n : Nat) : ∃ b s, encode (digits n) = b :: s ∧ isDigit b := by
  cases hd : digits n with
  | nil => exact absurd hd (digits_ne_nil n)
  | cons c ds =>
    have hc : c.isDigit := isDigit_of_mem_digits (hd ▸ List.mem_cons_self)
    exact ⟨_, _, encode_digit hc ds, isDigit_byte hc⟩

theorem ne_minus_of_isDigit {b : UInt8} (h : isDigit b) : b ≠ 0x2D := by
  rintro rfl
  cases h

/-- What is written of an integer begins with a minus sign or a digit. -/
theorem exists_first_byte (n : Int) :
    ∃ b s, encode (writeInteger n) = b :: s ∧ (b = 0x2D ∨ isDigit b) := by
  unfold writeInteger signedDigits
  split
  · exact ⟨0x2D, encode (digits n.natAbs), rfl, .inl rfl⟩
  · obtain ⟨b, s, hs, hb⟩ := exists_first_digit n.natAbs
    exact ⟨b, s, hs, .inr hb⟩

/-- **Integers.** A whole number of 64 bits, signed or not, is read back. -/
theorem readNumber_written {n : Int} (h₁ : -9223372036854775808 ≤ n) (h₂ : n ≤ maxWord)
    (he : digitFollows r = false) (hg : goesOn r = false) :
    readNumber (encode (writeInteger n) ++ r) = .ok (.integer n, r) := by
  have habs : n.natAbs ≤ maxWord := by
    simp only [maxWord] at *
    omega
  unfold writeInteger signedDigits
  split
  · have hw : wholeNumber true n.natAbs = .integer n := by
      simp only [wholeNumber, not_true, if_false]
      rw [if_neg (by omega)]
      congr
      omega
    have hm : encode ('-' :: digits n.natAbs) = 0x2D :: encode (digits n.natAbs) := rfl
    rw [hm, List.cons_append, readNumber, if_pos rfl, readUnsigned_written true habs he hg, hw]
  · have hw : wholeNumber false n.natAbs = .integer n := by
      simp only [wholeNumber, Bool.false_eq_true, not_false_eq_true, if_true]
      congr
      omega
    have hu := readUnsigned_written false habs he hg
    obtain ⟨b, s, hs, hb⟩ := exists_first_digit n.natAbs
    rw [hs, List.cons_append] at hu ⊢
    rw [readNumber, if_neg (ne_minus_of_isDigit hb), hu, hw]

end Agenda.Json
