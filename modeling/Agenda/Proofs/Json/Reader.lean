import Agenda.Json.Reader
import Agenda.Proofs.Json.Number
import Agenda.Proofs.Json.Quoted

/-!
# Written values are read back

A reader reads a value back from a text if it gives the value and whatever follows, as long as that
does not go on with the number that the text may end with.

* `Reader.Reads`: the reader reads a value back from a text; kept by `map`, `andThen`, `mapCause`.
* `Reader.string_reads`, `Reader.integer_reads`, `Reader.bool_reads`: values of one type.
* `Reader.decode_of_reads`: the value of a whole input.
-/
namespace Agenda.Json

open Text.Utf8

/-- The input does not go on with the number before it. -/
structure ValueEnds (r : List UInt8) : Prop where
  digits : digitFollows r = false
  rest : goesOn r = false

theorem valueEnds_nil : ValueEnds [] := ⟨rfl, rfl⟩

theorem valueEnds_comma (r : List UInt8) : ValueEnds (0x2C :: r) := ⟨rfl, rfl⟩

theorem valueEnds_brace (r : List UInt8) : ValueEnds (0x7D :: r) := ⟨rfl, rfl⟩

theorem valueEnds_bracket (r : List UInt8) : ValueEnds (0x5D :: r) := ⟨rfl, rfl⟩

theorem skipBlanks_cons {b : UInt8} (h : isBlank b = false) (r : List UInt8) :
    skipBlanks (b :: r) = b :: r := by
  rw [skipBlanks, List.dropWhile_cons, h]
  rfl

theorem not_blank_of_isDigit {b : UInt8} (h : isDigit b) : isBlank b = false := by
  simp only [isDigit, Bool.and_eq_true, decide_eq_true_eq, UInt8.le_iff_toNat_le,
    UInt8.reduceToNat] at h
  simp only [isBlank, Bool.or_eq_false_iff, decide_eq_false_iff_not, ← UInt8.toNat_inj,
    UInt8.reduceToNat]
  omega

theorem readWord_append (w s : List UInt8) : readWord w (w ++ s) = .ok s := by
  induction w with
  | nil => rw [List.nil_append, readWord]
  | cons b w ih => rw [List.cons_append, readWord, if_pos rfl, ih]

theorem encode_writeString (s : String) (r : List UInt8) :
    encode (writeString s) ++ r = 0x22 :: (encode (s.toList.flatMap writeChar) ++ 0x22 :: r) := by
  have hq : encode ['"'] = [0x22] := by decide
  rw [writeString, encode_append, encode_cons, hq, List.append_assoc]
  rfl

/-! ## Texts between commas -/

/-- Texts after the first one, a comma before each. -/
def more (texts : List (List Char)) : List Char := texts.flatMap (',' :: ·)

theorem encode_more (t : List Char) (ts : List (List Char)) (r : List UInt8) :
    encode (more (t :: ts)) ++ r = 0x2C :: (encode t ++ (encode (more ts) ++ r)) := by
  rw [more, List.flatMap_cons, encode_append, encode_cons, List.append_assoc]
  rfl

/-- A comma stands before each text but the first. -/
theorem intercalate_comma (t : List Char) (ts : List (List Char)) :
    List.intercalate [','] (t :: ts) = t ++ more ts := by
  induction ts generalizing t with
  | nil => simp [more]
  | cons u ts ih =>
    rw [List.intercalate_cons_cons, ih, List.append_assoc]
    rfl

/-- What follows a text is a comma or what follows them all. -/
theorem valueEnds_more {r : List UInt8} (ts : List (List Char)) (hr : ValueEnds r) :
    ValueEnds (encode (more ts) ++ r) := by
  cases ts with
  | nil => exact hr
  | cons t ts =>
    rw [encode_more]
    exact valueEnds_comma _

namespace Reader

variable {α β : Type}

/-- The reader reads the value back from the text, whatever follows. -/
def Reads (p : Reader α) (text : List Char) (a : α) : Prop :=
  ∀ r, ValueEnds r → p.run (encode text ++ r) = .ok (a, r)

/-! ## Readers made from others -/

variable {p : Reader α} {text : List Char} {a : α}

theorem Reads.map (h : p.Reads text a) (f : α → β) : (p.map f).Reads text (f a) := by
  intro r hr
  simp only [Reader.map, h r hr]
  rfl

theorem Reads.andThen (h : p.Reads text a) {f : α → Except Cause β} {b : β} (hf : f a = .ok b) :
    (p.andThen f).Reads text b := by
  intro r hr
  simp only [Reader.andThen, h r hr, bind, Except.bind, hf]

theorem Reads.mapCause (h : p.Reads text a) (f : Cause → Cause) : (p.mapCause f).Reads text a := by
  intro r hr
  simp only [Reader.mapCause, h r hr]

/-- A value that is the whole input is decoded. -/
theorem decode_of_reads (h : p.Reads text a) : p.decode (encode text) = .ok a := by
  have hr := h [] valueEnds_nil
  rw [List.append_nil] at hr
  simp only [decode, hr]
  rfl

/-! ## Values of one type -/

variable (expected : String)

theorem string_reads (s : String) : (string expected).Reads (writeString s) s.toList := by
  intro r _
  rw [encode_writeString]
  simp only [string, skipBlanks_cons (b := 0x22) rfl, if_true, readString_written]

theorem integer_reads (n : Int64) : (integer expected).Reads (writeInteger n.toInt) n := by
  intro r hr
  have h₁ := n.le_toInt
  have h₂ := n.toInt_lt
  have hn := readNumber_written (n := n.toInt) (by omega)
    (by simp only [maxWord]; omega) hr.digits hr.rest
  obtain ⟨b, s, hs, hb⟩ := exists_first_byte n.toInt
  have hblank : isBlank b = false := by
    rcases hb with rfl | hb
    · rfl
    · exact not_blank_of_isDigit hb
  rw [hs, List.cons_append] at hn ⊢
  have hmin : Int64.minValue.toInt = -9223372036854775808 := by decide
  have hmax : Int64.maxValue.toInt = 9223372036854775807 := by decide
  have hrange : Int64.minValue.toInt ≤ n.toInt ∧ n.toInt ≤ Int64.maxValue.toInt := by omega
  simp only [integer, skipBlanks_cons hblank, if_pos hb, hn, if_pos hrange, Int64.ofInt_toInt]

theorem bool_reads (b : Bool) : (bool expected).Reads (writeBool b) b := by
  intro r _
  cases b with
  | false =>
    have he : encode (writeBool false) = 0x66 :: [0x61, 0x6C, 0x73, 0x65] := by decide
    rw [he, List.cons_append]
    simp only [bool, skipBlanks_cons (b := 0x66) rfl, show ¬ (0x66 : UInt8) = 0x74 by decide,
      if_false, if_true, readWord_append]
    rfl
  | true =>
    have he : encode (writeBool true) = 0x74 :: [0x72, 0x75, 0x65] := by decide
    rw [he, List.cons_append]
    simp only [bool, skipBlanks_cons (b := 0x74) rfl, if_true, readWord_append]
    rfl

end Reader

end Agenda.Json
