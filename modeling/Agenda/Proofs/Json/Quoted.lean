import Agenda.Json.Printer
import Agenda.Json.Quoted
import Agenda.Proofs.Text.Utf8

/-!
# Written strings are read back

Every character is read back from what stands for it between the quotes: an escape of one letter, an
escape of four hexadecimal digits, or the character's own encoding, none of whose bytes is a quote, a
backslash or a control character.

* `readBytes_writeChar`: one character.
* `readString_written`: a string, whatever follows its closing quote.
-/
namespace Agenda.Json

open Text.Utf8

/-! ## Steps of the reader -/

variable {done s : List UInt8}

/-- A byte that stands for itself. -/
theorem readBytes_plain {b : UInt8} (h₁ : b ≠ 0x22) (h₂ : b ≠ 0x5C) (h₃ : ¬ b < 0x20) :
    readBytes done .plain (b :: s) = readBytes (b :: done) .plain s := by
  rw [readBytes]
  simp only [if_neg h₁, if_neg h₂, if_neg h₃]

theorem readBytes_plains {bs : List UInt8} (h : ∀ b ∈ bs, b ≠ 0x22 ∧ b ≠ 0x5C ∧ ¬ b < 0x20) :
    readBytes done .plain (bs ++ s) = readBytes (bs.reverse ++ done) .plain s := by
  induction bs generalizing done with
  | nil => rfl
  | cons b bs ih =>
    obtain ⟨h₁, h₂, h₃⟩ := h b List.mem_cons_self
    rw [List.cons_append, readBytes_plain h₁ h₂ h₃, ih fun x hx => h x (List.mem_cons_of_mem b hx),
      List.reverse_cons, List.append_assoc, List.singleton_append]

/-- An escape of one letter. -/
theorem readBytes_escape {b : UInt8} {c : Char} (h : b ≠ 0x75) (hc : escapedChar b = some c) :
    readBytes done .plain (0x5C :: b :: s) = readBytes (pushChar c done) .plain s := by
  rw [readBytes]
  simp only [show ¬ (0x5C : UInt8) = 0x22 by decide, if_false, if_true]
  rw [readBytes]
  simp only [if_neg h, hc]

/-- The byte of a hexadecimal digit in lower case. -/
def hexByte (d : Nat) : UInt8 := UInt8.ofNat (if d < 10 then 0x30 + d else 0x57 + d)

theorem hexValue_hexByte : ∀ d < 16, hexValue (hexByte d) = some d := by decide

/-- An escape of four digits that is no half of a surrogate pair. -/
theorem readBytes_hex {n : Nat} (h : n < 0x100) :
    readBytes done .plain
        (0x5C :: 0x75 :: 0x30 :: 0x30 :: hexByte (n / 16) :: hexByte (n % 16) :: s) =
      readBytes (pushChar (Char.ofNat n) done) .plain s := by
  have h₁ := hexValue_hexByte (n / 16) (by omega)
  have h₂ := hexValue_hexByte (n % 16) (by omega)
  have h0 : addHex (addHex (some 0) 0x30) 0x30 = some 0 := by decide
  have hn : addHex (addHex (some 0) (hexByte (n / 16))) (hexByte (n % 16)) = some n := by
    simp only [addHex, h₁, h₂, Option.bind_some, Option.map_some]
    congr 1
    omega
  have he : endHex (some n) none = .ok (.inl (Char.ofNat n)) := by
    simp only [endHex]
    rw [if_neg (by omega), if_neg (by omega)]
  rw [readBytes]
  simp only [show ¬ (0x5C : UInt8) = 0x22 by decide, if_false, if_true]
  rw [readBytes]
  simp only [if_true]
  rw [readBytes, readBytes, readBytes, readBytes]
  simp only [h0, hn, he]

/-! ## Characters -/

theorem encode_controlEscape : ∀ n < 0x20, encode (controlEscape (Char.ofNat n)) =
    [0x5C, 0x75, 0x30, 0x30, hexByte (n / 16), hexByte (n % 16)] := by decide

/-- The bytes of a character that stands for itself. -/
theorem plain_of_mem {c : Char} (h₁ : c ≠ '"') (h₂ : c ≠ '\\') (h₃ : ¬ c.toNat < 0x20) {b : UInt8}
    (hb : b ∈ String.utf8EncodeChar c) : b ≠ 0x22 ∧ b ≠ 0x5C ∧ ¬ b < 0x20 := by
  simp only [ne_eq, ← UInt8.toNat_inj, UInt8.lt_iff_toNat_lt, UInt8.reduceToNat]
  by_cases hc : c.toNat < 128
  · rw [utf8EncodeChar_of_lt hc, List.mem_singleton] at hb
    rw [hb, UInt8.toNat_ofNat_of_lt' (by omega : c.toNat < 256)]
    have hq : c.toNat ≠ 34 := fun h => h₁ (Char.toNat_inj.1 h)
    have hs : c.toNat ≠ 92 := fun h => h₂ (Char.toNat_inj.1 h)
    exact ⟨hq, hs, h₃⟩
  · have hge := le_of_mem_utf8EncodeChar (by omega) hb
    omega

/-- **One character.** It is read back from what stands for it in a string. -/
theorem readBytes_writeChar (c : Char) :
    readBytes done .plain (encode (writeChar c) ++ s) = readBytes (pushChar c done) .plain s := by
  unfold writeChar
  split
  · rename_i h
    rcases h with rfl | rfl
    all_goals exact readBytes_escape (by decide) rfl
  · rename_i hq
    split
    · rename_i h; subst h
      exact readBytes_escape (by decide) rfl
    split
    · rename_i h; subst h
      exact readBytes_escape (by decide) rfl
    split
    · rename_i h; subst h
      exact readBytes_escape (by decide) rfl
    split
    · rename_i h; subst h
      exact readBytes_escape (by decide) rfl
    split
    · rename_i h; subst h
      exact readBytes_escape (by decide) rfl
    split
    · rename_i h
      have he := encode_controlEscape c.toNat h
      rw [Char.ofNat_toNat] at he
      rw [he]
      simp only [List.cons_append, List.nil_append]
      rw [readBytes_hex (by omega), Char.ofNat_toNat]
    · rename_i h
      rw [not_or] at hq
      have he : encode [c] = String.utf8EncodeChar c := List.append_nil _
      rw [pushChar, he]
      exact readBytes_plains fun b hb => plain_of_mem hq.1 hq.2 h hb

/-! ## Strings -/

theorem readBytes_written (cs : List Char) (r : List UInt8) :
    readBytes done .plain (encode (cs.flatMap writeChar) ++ 0x22 :: r) =
      .ok (done.reverse ++ encode cs, r) := by
  induction cs generalizing done with
  | nil =>
    rw [List.flatMap_nil, encode, List.flatMap_nil, List.nil_append, List.append_nil, readBytes]
    rfl
  | cons c cs ih =>
    rw [List.flatMap_cons, encode_append, List.append_assoc, readBytes_writeChar, ih, pushChar,
      List.reverse_append, List.reverse_reverse, List.append_assoc, ← encode_append]
    rfl

/-- **Strings.** A string is read back from what is written between its quotes. -/
theorem readString_written (cs : List Char) (r : List UInt8) :
    readString (encode (cs.flatMap writeChar) ++ 0x22 :: r) = .ok (cs, r) := by
  rw [readString, readBytes_written]
  simp only [List.reverse_nil, List.nil_append, decode_encode]

end Agenda.Json
