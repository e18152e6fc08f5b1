import Agenda.Proofs.Json.Skip

/-!
# Readers of any value

A reader takes values as a function says if it reads each value as what the function makes of it, in
whatever text and after whatever blanks, and fails where the function makes nothing of the value.

* `readBytes_pieces`: strings of any pieces.
* `readNumber_numeral`: which numerals are whole numbers of 64 bits.
* `Reader.Takes`: the reader takes values as a function says; kept by `map`, `andThen`, `mapCause`.
* `Reader.string_takes`, `Reader.integer_takes`, `Reader.bool_takes`, `Reader.skipped_takes`: the
  readers of one type, and the one of all.
-/
namespace Agenda.Json

open Text.Utf8

variable {done r s : List UInt8}

/-! ## Strings -/

theorem reverse_pushChar (c : Char) (done : List UInt8) (cs : List Char) :
    (pushChar c done).reverse ++ encode cs = done.reverse ++ encode (c :: cs) := by
  have hcons : encode (c :: cs) = encode [c] ++ encode cs := encode_append [c] cs
  rw [pushChar, List.reverse_append, List.reverse_reverse, List.append_assoc, hcons]

/-- What four hexadecimal digits do. -/
theorem readBytes_digits {ds : List Char} (lead : Option Nat)
    (h : ds.length = 4 ∧ ∀ c ∈ ds, c ∈ hexDigits) :
    readBytes done (.hex 3 (some 0) lead) (encode ds ++ s) =
      match endHex (some (unitValue ds)) lead with
      | .ok (.inl c) => readBytes (pushChar c done) .plain s
      | .ok (.inr n) => readBytes done (.pair n) s
      | .error cause => .error ⟨cause, s⟩ := by
  obtain ⟨hlen, hds⟩ := h
  match ds, hlen with
  | [a, b, c, d], _ =>
    simp only [List.forall_mem_cons] at hds
    obtain ⟨ha, hb, hc, hd, -⟩ := hds
    have hunit : addHex (addHex (addHex (addHex (some 0) (UInt8.ofNat a.toNat))
        (UInt8.ofNat b.toNat)) (UInt8.ofNat c.toNat)) (UInt8.ofNat d.toNat) =
        some (unitValue [a, b, c, d]) := by
      simp only [addHex, hexValue_hexDigit ha, hexValue_hexDigit hb, hexValue_hexDigit hc,
        hexValue_hexDigit hd, Option.bind_some, Option.map_some]
      rfl
    rw [encode_ascii (hexDigit_lt ha), encode_ascii (hexDigit_lt hb),
      encode_ascii (hexDigit_lt hc), encode_ascii (hexDigit_lt hd), ← hunit]
    rfl

/-- Where a string reader stands between two pieces. -/
def betweenPieces : Option Nat → StringPhase
  | none => .plain
  | some lead => .pair lead

/-- A code unit alone is a character, or the first half of a surrogate pair. -/
theorem readBytes_unit_alone {ds : List Char} (h : ds.length = 4 ∧ ∀ c ∈ ds, c ∈ hexDigits) :
    (readBytes done .plain (encode ('\\' :: 'u' :: ds) ++ s)).toOption =
      if IsTrail (unitValue ds) then none
      else if IsLead (unitValue ds) then (readBytes done (.pair (unitValue ds)) s).toOption
      else (readBytes (pushChar (Char.ofNat (unitValue ds)) done) .plain s).toOption := by
  have hend : endHex (some (unitValue ds)) none =
      if IsTrail (unitValue ds) then .error .loneSurrogate
      else if IsLead (unitValue ds) then .ok (.inr (unitValue ds))
      else .ok (.inl (Char.ofNat (unitValue ds))) := rfl
  show (readBytes done (.hex 3 (some 0) none) (encode ds ++ s)).toOption = _
  rw [readBytes_digits none h, hend]
  split_ifs <;> rfl

/-- A code unit after the first half of a surrogate pair is the second half. -/
theorem readBytes_unit_paired {ds : List Char} (lead : Nat)
    (h : ds.length = 4 ∧ ∀ c ∈ ds, c ∈ hexDigits) :
    (readBytes done (.pair lead) (encode ('\\' :: 'u' :: ds) ++ s)).toOption =
      if IsTrail (unitValue ds) then
        (readBytes (pushChar (pairChar lead (unitValue ds)) done) .plain s).toOption
      else none := by
  have hend : endHex (some (unitValue ds)) (some lead) =
      if IsTrail (unitValue ds) then .ok (.inl (pairChar lead (unitValue ds)))
      else .error .loneSurrogate := rfl
  show (readBytes done (.hex 3 (some 0) (some lead)) (encode ds ++ s)).toOption = _
  rw [readBytes_digits (some lead) h, hend]
  split_ifs <;> rfl

theorem readBytes_plain_piece {c : Char} (h : IsPlain c) :
    readBytes done .plain (encode [c] ++ s) = readBytes (pushChar c done) .plain s := by
  have hone : encode [c] = String.utf8EncodeChar c := List.append_nil _
  rw [pushChar, hone]
  exact readBytes_plains fun b hb => plain_of_mem h.1 h.2.1 (Nat.not_lt.2 h.2.2) hb

theorem readBytes_letter_piece {e : Char × Char} (h : e ∈ letterEscapes) :
    readBytes done .plain (encode ['\\', e.1] ++ s) = readBytes (pushChar e.2 done) .plain s := by
  have hletters : ∀ e ∈ letterEscapes, e.1.toNat < 128 ∧ UInt8.ofNat e.1.toNat ≠ 0x75 ∧
      escapedChar (UInt8.ofNat e.1.toNat) = some e.2 := by decide
  obtain ⟨hascii, hu, hsome⟩ := hletters e h
  rw [encode_ascii (by decide), encode_ascii hascii]
  exact readBytes_escape hu hsome

/-- After the first half of a surrogate pair only another code unit may come. -/
theorem readBytes_unpaired {lead : Nat} {p : Piece} (hp : ∀ ds h, p ≠ .unit ds h) :
    (readBytes done (.pair lead) (encode p.text ++ s)).toOption = none := by
  cases p with
  | plain c h =>
    cases hs : encode (Piece.plain c h).text with
    | nil => exact absurd hs (by simp [Piece.text, encode, String.utf8EncodeChar_ne_nil])
    | cons b t =>
      have hone : encode [c] = String.utf8EncodeChar c := List.append_nil _
      have hb : b ∈ String.utf8EncodeChar c := by
        rw [← hone]
        exact hs ▸ List.mem_cons_self
      obtain ⟨-, hb, -⟩ := plain_of_mem h.1 h.2.1 (Nat.not_lt.2 h.2.2) hb
      rw [List.cons_append, readBytes]
      simp only [if_neg hb]
      rfl
  | letter e h =>
    have hletters : ∀ e ∈ letterEscapes, e.1.toNat < 128 ∧ UInt8.ofNat e.1.toNat ≠ 0x75 := by decide
    obtain ⟨hascii, hu⟩ := hletters e h
    rw [Piece.text, encode_ascii (by decide), encode_ascii hascii]
    show (readBytes done (.pairEscape lead) (UInt8.ofNat e.1.toNat :: _)).toOption = none
    rw [readBytes]
    simp only [if_neg hu]
    rfl
  | unit ds h => exact absurd rfl (hp ds h)

/-- **Pieces.** They are read as the text that they stand for, if they stand for one. -/
theorem readBytes_pieces (lead : Option Nat) (ps : List Piece) :
    (readBytes done (betweenPieces lead)
        (encode (ps.flatMap Piece.text) ++ 0x22 :: r)).toOption =
      (unescapeAfter lead ps).map fun cs => (done.reverse ++ encode cs, r) := by
  induction ps generalizing done lead with
  | nil =>
    cases lead with
    | none =>
      show some (done.reverse, r) = some (done.reverse ++ [], r)
      rw [List.append_nil]
    | some lead => rfl
  | cons p ps ih =>
    -- After a character the rest is read onto it.
    have hchar (c : Char) : (readBytes (pushChar c done) .plain
        (encode (ps.flatMap Piece.text) ++ 0x22 :: r)).toOption =
        ((unescapeAfter none ps).map (c :: ·)).map fun cs => (done.reverse ++ encode cs, r) := by
      rw [Option.map_map, show StringPhase.plain = betweenPieces none from rfl, ih none]
      simp only [reverse_pushChar]
      rfl
    rw [List.flatMap_cons, encode_append, List.append_assoc]
    cases lead with
    | none =>
      cases p with
      | plain c h =>
        rw [betweenPieces, Piece.text, readBytes_plain_piece h, hchar, unescapeAfter]
      | letter e h =>
        rw [betweenPieces, Piece.text, readBytes_letter_piece h, hchar, unescapeAfter]
      | unit ds h =>
        rw [betweenPieces, Piece.text, readBytes_unit_alone h, hchar, unescapeAfter]
        split_ifs
        · rfl
        · exact ih (some _)
        · rfl
    | some lead =>
      cases p with
      | plain c h => exact readBytes_unpaired fun ds h => Piece.noConfusion
      | letter e h => exact readBytes_unpaired fun ds h => Piece.noConfusion
      | unit ds h =>
        rw [betweenPieces, Piece.text, readBytes_unit_paired lead h, hchar, unescapeAfter]
        split_ifs <;> rfl

/-- A string is read as the text that it stands for, if it stands for one. -/
theorem readString_pieces (ps : List Piece) (r : List UInt8) :
    (readString (encode (ps.flatMap Piece.text) ++ 0x22 :: r)).toOption =
      (unescape ps).map fun cs => (cs, r) := by
  have hbytes : (readBytes [] .plain (encode (ps.flatMap Piece.text) ++ 0x22 :: r)).toOption =
      (unescape ps).map fun cs => ([].reverse ++ encode cs, r) := readBytes_pieces none ps
  rw [readString]
  cases hu : unescape ps with
  | none =>
    rw [hu] at hbytes
    split
    · rfl
    · rename_i hb
      rw [hb] at hbytes
      cases hbytes
  | some cs =>
    rw [hu] at hbytes
    split
    · rename_i hb
      rw [hb] at hbytes
      cases hbytes
    · rename_i hb
      rw [hb] at hbytes
      obtain ⟨rfl, rfl⟩ := Prod.mk.inj (Option.some.inj hbytes)
      simp only [List.reverse_nil, List.nil_append, decode_encode]
      rfl

/-! ## Numbers -/

/-- Nothing is read, or a floating-point number. -/
def NotInteger (x : Except Failure (Number × List UInt8)) : Prop := ∀ n r, x ≠ .ok (.integer n, r)

theorem notInteger_makeFloat (negative : Bool) (m : Nat) (e : Int) (s t : List UInt8) :
    NotInteger ((makeFloat negative m e s).map (·, t)) := by
  intro n r h
  obtain ⟨x, hx, he⟩ := map_eq_ok.1 h
  obtain ⟨rfl, -⟩ := Prod.mk.inj he
  simp only [makeFloat] at hx
  repeat' split at hx
  all_goals cases hx

theorem notInteger_readExponent (negative : Bool) (m : Nat) (e : Int) (s : List UInt8) :
    NotInteger (readExponent negative m e s) := by
  intro n r h
  unfold readExponent at h
  split at h
  · cases h
  · split at h
    · split at h
      split at h
      · split at h <;> cases h
      · exact notInteger_makeFloat _ _ _ _ _ n r h
    · cases h

theorem notInteger_readPower (negative : Bool) (m : Nat) (e : Int) (s : List UInt8) :
    NotInteger (readPower negative m e s) := by
  intro n r h
  unfold readPower at h
  split at h
  · split at h
    · exact notInteger_readExponent _ _ _ _ n r h
    · exact notInteger_makeFloat _ _ _ _ _ n r h
  · exact notInteger_makeFloat _ _ _ _ _ n r h

theorem notInteger_readFraction (negative : Bool) (m : Nat) (e : Int) (s : List UInt8) :
    NotInteger (readFraction negative m e s) := by
  intro n r h
  unfold readFraction at h
  split at h
  split at h
  · exact notInteger_readPower _ _ _ _ n r h
  · split at h
    · cases h
    · exact notInteger_readPower _ _ _ _ n r h

theorem notInteger_readRest (negative : Bool) (m : Nat) (e : Int) (s : List UInt8) :
    NotInteger (readRest negative m e s) := by
  intro n r h
  unfold readRest at h
  split at h
  · split at h
    · exact notInteger_readFraction _ _ _ _ n r h
    · exact notInteger_readPower _ _ _ _ n r h
  · exact notInteger_readPower _ _ _ _ n r h

/-- Digits of a number beyond the limit are not all read. -/
theorem digitFollows_digitsWithin {ds : List Char} {limit n : Nat} (used : Nat)
    (hd : ∀ c ∈ ds, c.isDigit) (hn : n ≤ limit) (hv : limit < Nat.ofDigitChars 10 ds n) :
    digitFollows (digitsWithin limit n used (encode ds ++ r)).2.2 = true := by
  induction ds generalizing n used with
  | nil =>
    rw [Nat.ofDigitChars_nil] at hv
    omega
  | cons c ds ih =>
    obtain ⟨hc, hds⟩ := List.forall_mem_cons.1 hd
    rw [Decimal.ofDigitChars_cons] at hv
    rw [encode_digit hc, List.cons_append, digitsWithin, digitOf_byte hc]
    split
    · rename_i hle
      exact ih _ hds hle.2 hv
    · exact isDigit_byte hc

/-- A whole part is no whole number if it exceeds 64 bits or something follows it. -/
theorem notInteger_readUnsigned (negative : Bool) {n : Nat} (he : digitFollows r = false)
    (h : maxWord < n ∨ goesOn r = true) :
    NotInteger (readUnsigned negative (encode (Decimal.digits n) ++ r)) := by
  intro k t hk
  by_cases h0 : n = 0
  · subst h0
    have hgo : goesOn r = true := h.resolve_left (Nat.not_lt_zero _)
    have hz : encode (Decimal.digits 0) = [0x30] := by decide
    rw [hz, List.singleton_append, readUnsigned, if_pos rfl, he, hgo] at hk
    exact notInteger_readRest _ _ _ _ k t hk
  · obtain ⟨c, ds, hds, hc⟩ := head_digits h0
    have hd : ∀ x ∈ c :: ds, x.isDigit := fun x hx => Decimal.isDigit_of_mem_digits (hds ▸ hx)
    obtain ⟨hcd, hrest⟩ := List.forall_mem_cons.1 hd
    have hv : Nat.ofDigitChars 10 ds (Decimal.digitValue c) = n := by
      have h := Decimal.ofDigits_digits n
      rw [hds, Decimal.ofDigits_eq, Decimal.ofDigitChars_cons, Nat.mul_zero, Nat.zero_add] at h
      exact h
    have h48 : 48 ≤ c.toNat ∧ c.toNat ≤ 57 := Char.isDigit_iff_toNat.1 hcd
    have hb : UInt8.ofNat c.toNat ≠ 0x30 := by
      rw [Ne, eq_iff (by omega : c.toNat < 256)]
      exact fun h => hc (Char.toNat_inj.1 h)
    rw [hds, encode_digit hcd, List.cons_append, readUnsigned, if_neg hb,
      if_pos (isDigit_byte hcd), digitOf_byte hcd] at hk
    by_cases hle : n ≤ maxWord
    · have hgo : goesOn r = true := h.resolve_left (Nat.not_lt.2 hle)
      rw [digitsWithin_written 1 hrest he (hv ▸ hle)] at hk
      simp only [he, hgo, if_true, Bool.false_eq_true, if_false] at hk
      exact notInteger_readRest _ _ _ _ k t hk
    · have hfirst : Decimal.digitValue c ≤ maxWord := by
        have hzero : '0'.toNat = 48 := rfl
        simp only [Decimal.digitValue, maxWord]
        omega
      have hfollows := digitFollows_digitsWithin (r := r) 1 hrest hfirst (hv ▸ Nat.not_le.1 hle)
      generalize digitsWithin maxWord (Decimal.digitValue c) 1 (encode ds ++ r) = q at hk hfollows
      simp only [hfollows, if_true] at hk
      exact notInteger_readRest _ _ _ _ k t hk

/-- What follows the whole part of a numeral is a point or an exponent, if there is any of it. -/
theorem Numeral.rest_spec (n : Numeral) (hr : ValueEnds r) :
    digitFollows (encode n.rest ++ r) = false ∧
      (goesOn (encode n.rest ++ r) = true ↔ n.rest ≠ []) := by
  rw [Numeral.rest]
  split
  · cases he : n.exponent with
    | none => simp [encode, hr.digits, hr.rest]
    | some e =>
      rw [Option.elim_some, Exponent.text]
      rcases e.mark_eq with h | h <;> rw [h, List.nil_append, encode_ascii (by decide)] <;>
        exact ⟨rfl, iff_of_true rfl (List.cons_ne_nil _ _)⟩
  · rw [List.cons_append, encode_ascii (by decide)]
    exact ⟨rfl, iff_of_true rfl (List.cons_ne_nil _ _)⟩

/-- **Numerals.** Which of them are read as a whole number of 64 bits with a sign. -/
theorem readNumber_numeral (n : Numeral) (hr : ValueEnds r) :
    (n.rest = [] ∧ n.whole ≤ maxWord →
      readNumber (encode n.text ++ r) = .ok (wholeNumber n.negative n.whole, r)) ∧
    (¬ (n.rest = [] ∧ n.whole ≤ maxWord) → NotInteger (readNumber (encode n.text ++ r))) := by
  obtain ⟨hdigits, hgo⟩ := n.rest_spec hr
  have hsign : readNumber (encode n.text ++ r) =
      readUnsigned n.negative (encode (Decimal.digits n.whole) ++ (encode n.rest ++ r)) := by
    rw [Numeral.text]
    cases n.negative with
    | true =>
      rw [if_pos rfl, List.singleton_append, encode_ascii (by decide), encode_append,
        List.cons_append, List.append_assoc]
      rfl
    | false =>
      obtain ⟨b, s, hs, hb⟩ := exists_first_digit n.whole
      rw [if_neg Bool.false_ne_true, List.nil_append, encode_append, List.append_assoc, hs,
        List.cons_append, readNumber, if_neg (ne_minus_of_isDigit hb)]
  rw [hsign]
  constructor
  · rintro ⟨hrest, hle⟩
    rw [hrest]
    exact readUnsigned_written n.negative hle hr.digits hr.rest
  · intro hn
    refine notInteger_readUnsigned n.negative hdigits ?_
    rw [hgo]
    by_contra h
    rw [not_or, Nat.not_lt, not_not] at h
    exact hn h.symm

/-- The number as a 64-bit number with a sign. -/
def Number.int64? : Number → Option Int64
  | integer n =>
    if Int64.minValue.toInt ≤ n ∧ n ≤ Int64.maxValue.toInt then some (Int64.ofInt n) else none
  | float _ => none

theorem int64?_wholeNumber {n : Numeral} (h : n.rest = []) :
    (wholeNumber n.negative n.whole).int64? = n.int64? := by
  have hmin : Int64.minValue.toInt = -9223372036854775808 := by decide
  have hmax : Int64.maxValue.toInt = 9223372036854775807 := by decide
  simp only [Numeral.int64?, Numeral.signed, h, wholeNumber, hmin, hmax, true_and]
  cases n.negative with
  | false => simp [Number.int64?, hmin, hmax]
  | true =>
    simp only [not_true, if_false, if_true, true_and]
    split
    · rw [if_neg (by omega), Number.int64?]
    · simp only [Number.int64?, hmin, hmax]
      split
      · rw [if_pos (by omega)]
      · rw [if_neg (by omega)]

theorem int64?_eq_none {n : Numeral} (h : ¬ (n.rest = [] ∧ n.whole ≤ maxWord)) :
    n.int64? = none := by
  have hmin : Int64.minValue.toInt = -9223372036854775808 := by decide
  have hmax : Int64.maxValue.toInt = 9223372036854775807 := by decide
  rw [Numeral.int64?, if_neg]
  rintro ⟨hrest, -, h₁, h₂⟩
  refine h ⟨hrest, ?_⟩
  rw [Numeral.signed, hmin] at h₁
  rw [Numeral.signed, hmax] at h₂
  rw [maxWord]
  cases hsign : n.negative with
  | false =>
    rw [hsign, if_neg Bool.false_ne_true] at h₂
    omega
  | true =>
    rw [hsign, if_pos rfl] at h₁
    omega

/-! ## Readers -/

namespace Reader

variable {α β : Type}

/-- The reader reads every value as what the function makes of it. -/
def Takes (p : Reader α) (f : Value → Option α) : Prop :=
  ∀ v text, ValueText v text → ∀ (w : Space) (r : List UInt8), ValueEnds r →
    (p.run (encode w.chars ++ (encode text ++ r))).toOption = (f v).map (·, r)

variable {p : Reader α} {f : Value → Option α}

/-- A text is read as a value if blanks follow the value. -/
theorem decode_toOption {input : List UInt8} {a? : Option α} (w : Space)
    (h : (p.run input).toOption = a?.map (·, encode w.chars)) :
    (p.decode input).toOption = a? := by
  rw [decode]
  cases hrun : p.run input with
  | error e =>
    rw [hrun] at h
    exact (Option.map_eq_none_iff.1 h.symm).symm
  | ok y =>
    rw [hrun] at h
    obtain ⟨a, rfl, rfl⟩ := Option.map_eq_some_iff.1 h.symm
    simp only [skipBlanks_chars]
    rfl

theorem Takes.map (h : p.Takes f) (g : α → β) : (p.map g).Takes fun v => (f v).map g := by
  intro v text hv w r hr
  simp only [Reader.map, toOption_map, h v text hv w r hr, Option.map_map]
  rfl

theorem Takes.andThen (h : p.Takes f) (g : α → Except Cause β) :
    (p.andThen g).Takes fun v => (f v).bind fun a => (g a).toOption := by
  intro v text hv w r hr
  simp only [Reader.andThen, bind, toOption_bind, h v text hv w r hr]
  cases f v with
  | none => rfl
  | some a =>
    simp only [Option.map_some, Option.bind_some]
    cases g a <;> rfl

theorem Takes.mapCause (h : p.Takes f) (g : Cause → Cause) : (p.mapCause g).Takes f := by
  intro v text hv w r hr
  rw [← h v text hv w r hr]
  simp only [Reader.mapCause]
  cases p.run (encode w.chars ++ (encode text ++ r)) <;> rfl

variable (expected : String)

theorem string_takes : (string expected).Takes Value.text? := by
  intro v text hv w r hr
  obtain ⟨b, s, hs, hb⟩ := hv.begins
  have hskip : skipBlanks (encode w.chars ++ (encode text ++ r)) = b :: (s ++ r) := by
    rw [skipBlanks_space, hs, List.cons_append, skipBlanks_cons hb.not_blank]
  simp only [string, hskip]
  cases hv with
  | string ps =>
    obtain rfl := hb
    have hclose : encode ['"'] ++ r = 0x22 :: r := rfl
    have hrest : s ++ r = encode (ps.flatMap Piece.text) ++ 0x22 :: r := by
      rw [literal, encode_ascii (by decide)] at hs
      rw [← (List.cons.inj hs).2, encode_append, List.append_assoc, hclose]
    rw [if_pos rfl, hrest, readString_pieces]
    rfl
  | bool t => cases t <;> (obtain rfl := hb; rfl)
  | number n =>
    have hne : b ≠ 0x22 := by
      rintro rfl
      rcases hb with h | h <;> cases h
    rw [if_neg hne]
    rfl
  | _ => obtain rfl := hb; rfl

theorem integer_takes : (integer expected).Takes Value.int64? := by
  intro v text hv w r hr
  obtain ⟨b, s, hs, hb⟩ := hv.begins
  have hskip : skipBlanks (encode w.chars ++ (encode text ++ r)) = b :: (s ++ r) := by
    rw [skipBlanks_space, hs, List.cons_append, skipBlanks_cons hb.not_blank]
  simp only [integer, hskip]
  cases hv with
  | number n =>
    obtain ⟨hwhole, hother⟩ := readNumber_numeral n hr
    rw [hs, List.cons_append] at hwhole hother
    rw [if_pos (show b = 0x2D ∨ isDigit b from hb)]
    show _ = n.int64?.map (·, r)
    by_cases hn : n.rest = [] ∧ n.whole ≤ maxWord
    · rw [hwhole hn, ← int64?_wholeNumber hn.1]
      cases wholeNumber n.negative n.whole with
      | integer k =>
        simp only [Number.int64?]
        split <;> rfl
      | float x => rfl
    · rw [int64?_eq_none hn]
      have hne := hother hn
      generalize readNumber (b :: (s ++ r)) = x at hne
      rcases x with e | ⟨k | y, t⟩
      · rfl
      · exact absurd rfl (hne k t)
      · rfl
  | bool t => cases t <;> (obtain rfl := hb; rfl)
  | _ => obtain rfl := hb; rfl

theorem bool_takes : (bool expected).Takes Value.bool? := by
  intro v text hv w r hr
  obtain ⟨b, s, hs, hb⟩ := hv.begins
  have hskip : skipBlanks (encode w.chars ++ (encode text ++ r)) = b :: (s ++ r) := by
    rw [skipBlanks_space, hs, List.cons_append, skipBlanks_cons hb.not_blank]
  simp only [bool, hskip]
  cases hv with
  | bool t =>
    cases t with
    | false =>
      obtain rfl := hb
      obtain rfl : [0x61, 0x6C, 0x73, 0x65] = s := (List.cons.inj hs).2
      simp only [show ¬ (0x66 : UInt8) = 0x74 by decide, if_false, if_true, readWord_append]
      rfl
    | true =>
      obtain rfl := hb
      obtain rfl : [0x72, 0x75, 0x65] = s := (List.cons.inj hs).2
      simp only [if_true, readWord_append]
      rfl
  | number n =>
    have hne : b ≠ 0x74 ∧ b ≠ 0x66 := by
      constructor <;>
      · rintro rfl
        rcases hb with h | h <;> cases h
    rw [if_neg hne.1, if_neg hne.2]
    rfl
  | _ => obtain rfl := hb; rfl

theorem skipped_takes : skipped.Takes fun _ => some () := by
  intro v text hv w r hr
  simp only [skipped]
  rw [Skip.run_space _ Skip.step_value_blank, Skip.run_value hv [] r hr]
  rfl

end Reader

end Agenda.Json
