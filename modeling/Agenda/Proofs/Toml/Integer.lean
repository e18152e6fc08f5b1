import Agenda.Toml.Document
import Mathlib.Tactic.FinCases

/-!
# Whole numbers in a document

Whole numbers are decimal with an optional sign, or hexadecimal, octal or binary, and single
underscores may stand between their digits (`IntegerText`). Where a value ends, such a text has been
read as the number that it denotes, or was refused because the number does not fit 64 bits.

* `readMoreDigits_grouped`, `readWhole_decimal`: digits are read to their end.
* `readMoment_eq_none`: a whole number is not taken for a date or a time.
* `readValue_integer`: it is read exactly or refused.
* `readPair_integer`: so is an assignment of a whole number to a key.
-/
namespace Agenda.Toml

open Decimal

/-! ## Texts -/

/-- The digits in a text, with single underscores between them. -/
inductive Grouped (isDigit : Char → Bool) : List Char → List Char → Prop where
  | last {c : Char} (hc : isDigit c) : Grouped isDigit [c] [c]
  | digit {c : Char} {ds cs : List Char} (hc : isDigit c) (h : Grouped isDigit ds cs) :
    Grouped isDigit (c :: ds) (c :: cs)
  | underscore {c : Char} {ds cs : List Char} (hc : isDigit c) (h : Grouped isDigit ds cs) :
    Grouped isDigit (c :: ds) (c :: '_' :: cs)

/-- The bases other than ten. -/
inductive Base where
  | hexadecimal
  | octal
  | binary

namespace Base

/-- The letter after a zero that announces the base. -/
def mark : Base → Char
  | hexadecimal => 'x'
  | octal => 'o'
  | binary => 'b'

def radix : Base → Nat
  | hexadecimal => 16
  | octal => 8
  | binary => 2

def isDigit : Base → Char → Bool
  | hexadecimal => isHexDigit
  | octal => fun c => '0' ≤ c && c ≤ '7'
  | binary => fun c => c = '0' || c = '1'

/-- The number with these digits. -/
def ofDigits (b : Base) (ds : List Char) : Nat :=
  ds.foldl (fun v d => b.radix * v + hexDigitValue d) 0

end Base

/-- A decimal number and its digits: a zero stands alone. -/
def DecimalText (ds cs : List Char) : Prop :=
  cs = ['0'] ∧ ds = ['0'] ∨ Grouped Char.isDigit ds cs ∧ cs.head? ≠ some '0'

/-- The texts of whole numbers. -/
inductive IntegerText : List Char → Int → Prop where
  | plain {ds cs : List Char} (h : DecimalText ds cs) : IntegerText cs (ofDigits ds)
  | plus {ds cs : List Char} (h : DecimalText ds cs) : IntegerText ('+' :: cs) (ofDigits ds)
  | minus {ds cs : List Char} (h : DecimalText ds cs) :
    IntegerText ('-' :: cs) (-(ofDigits ds : Int))
  | based (b : Base) {ds cs : List Char} (h : Grouped b.isDigit ds cs) :
    IntegerText ('0' :: b.mark :: cs) (b.ofDigits ds)

/-- What may follow a value: nothing, a blank, the end of the line, a comment, or the mark after an
item of an array or an inline table. -/
def ValueEnds (rest : List Char) : Prop :=
  ∀ c ∈ rest.head?, c ∈ [' ', '\t', '\n', '\r', '#', ',', ']', '\x7d']

/-! ## Digits -/

section Digits

variable {isDigit : Char → Bool} {ds cs rest : List Char}

/-- The text does not go on with a digit or an underscore. -/
def DigitsOver (isDigit : Char → Bool) (rest : List Char) : Prop :=
  ∀ c ∈ rest.head?, isDigit c = false ∧ c ≠ '_'

theorem readMoreDigits_over (h : DigitsOver isDigit rest) :
    readMoreDigits isDigit rest = ([], rest) := by
  cases rest with
  | nil => rfl
  | cons c rest =>
    obtain ⟨hc, hmark⟩ := h c rfl
    rw [readMoreDigits]
    · simp [hc]
    · rintro _ _ rfl
      exact absurd rfl hmark

theorem readMoreDigits_cons {c : Char} (hc : isDigit c) (hmark : isDigit '_' = false) :
    readMoreDigits isDigit (c :: cs) =
      (c :: (readMoreDigits isDigit cs).1, (readMoreDigits isDigit cs).2) := by
  rw [readMoreDigits]
  · simp [hc]
  · rintro d ds rfl
    simp [hmark] at hc

theorem readMoreDigits_underscore {c : Char} (hc : isDigit c) (hmark : isDigit '_' = false) :
    readMoreDigits isDigit ('_' :: c :: cs) = readMoreDigits isDigit (c :: cs) := by
  rw [readMoreDigits_cons hc hmark, readMoreDigits, if_pos hc]

theorem Grouped.head (h : Grouped isDigit ds cs) : ∃ c t, cs = c :: t ∧ isDigit c := by
  cases h with
  | last hc => exact ⟨_, _, rfl, hc⟩
  | digit hc => exact ⟨_, _, rfl, hc⟩
  | underscore hc => exact ⟨_, _, rfl, hc⟩

theorem readMoreDigits_grouped (h : Grouped isDigit ds cs) (hmark : isDigit '_' = false)
    (hrest : DigitsOver isDigit rest) : readMoreDigits isDigit (cs ++ rest) = (ds, rest) := by
  induction h with
  | last hc => rw [List.singleton_append, readMoreDigits_cons hc hmark, readMoreDigits_over hrest]
  | digit hc h ih => rw [List.cons_append, readMoreDigits_cons hc hmark, ih]
  | underscore hc h ih =>
    obtain ⟨d, t, rfl, hd⟩ := h.head
    rw [List.cons_append, readMoreDigits_cons hc hmark, List.cons_append, List.cons_append,
      readMoreDigits_underscore hd hmark, ← List.cons_append, ih]

theorem readSomeDigits_grouped (h : Grouped isDigit ds cs) (hmark : isDigit '_' = false)
    (hrest : DigitsOver isDigit rest) : readSomeDigits isDigit (cs ++ rest) = some (ds, rest) := by
  have hmore := readMoreDigits_grouped h hmark hrest
  obtain ⟨c, t, rfl, hc⟩ := h.head
  rw [List.cons_append, readMoreDigits_cons hc hmark] at hmore
  rw [List.cons_append, readSomeDigits, if_pos hc, hmore.symm]

end Digits

/-! ## Decimal numbers -/

section Decimals

variable {ds cs rest : List Char}

theorem DecimalText.head (h : DecimalText ds cs) : ∃ c t, cs = c :: t ∧ c.isDigit := by
  rcases h with ⟨rfl, -⟩ | ⟨h, -⟩
  · exact ⟨'0', [], rfl, rfl⟩
  · exact h.head

theorem readSign_of_isDigit {c : Char} (hc : c.isDigit) : readSign (c :: cs) = ([], c :: cs) := by
  rw [readSign, if_neg]
  rintro (rfl | rfl) <;> cases hc

/-- The digits of a decimal number are read, after a sign or without one. -/
theorem readWhole_decimal {sign text : List Char} (hsign : readSign text = (sign, cs ++ rest))
    (h : DecimalText ds cs) (hrest : DigitsOver Char.isDigit rest) :
    readWhole text = some (sign ++ ds, rest) := by
  rw [readWhole, hsign]
  rcases h with ⟨rfl, rfl⟩ | ⟨h, hzero⟩
  · rfl
  · have hread := readSomeDigits_grouped h rfl hrest
    obtain ⟨c, t, rfl, -⟩ := h.head
    simp only [List.cons_append] at hread ⊢
    split
    · next heq =>
      cases heq
      exact absurd rfl hzero
    · rw [hread]
      rfl

theorem readFloat_eq_none {text whole : List Char} (h : readWhole text = some (whole, rest))
    (hdecimals : readDecimals rest = none) (hexponent : readExponent rest = none) :
    readFloat text = none := by
  simp [readFloat, h, hdecimals, hexponent]

/-- The number that a sign and digits denote. -/
def signedValue : List Char → Int
  | '-' :: ds => -(ofDigits ds : Int)
  | '+' :: ds => ofDigits ds
  | ds => ofDigits ds

theorem signedValue_of_isDigit {c : Char} (hc : c.isDigit) (ds : List Char) :
    signedValue (c :: ds) = ofDigits (c :: ds) := by
  rw [signedValue]
  · rintro _ heq
    cases heq
    cases hc
  · rintro _ heq
    cases heq
    cases hc

theorem readInteger_of_readWhole {text : List Char}
    (hbase : ∀ c t, text = '0' :: c :: t → c ≠ 'x' ∧ c ≠ 'o' ∧ c ≠ 'b')
    (h : readWhole text = some (cs, rest)) :
    readInteger text = (fitted? (signedValue cs)).map fun n => (n, rest) := by
  unfold readInteger
  split
  · exact absurd rfl (hbase _ _ rfl).1
  · exact absurd rfl (hbase _ _ rfl).2.1
  · exact absurd rfl (hbase _ _ rfl).2.2
  · rw [h]
    simp only [Option.bind_eq_bind, Option.bind_some]
    split
    · rw [signedValue]
      cases fitted? _ <;> rfl
    · rw [signedValue]
      cases fitted? _ <;> rfl
    · next hminus hplus =>
      have hvalue : signedValue cs = ofDigits cs := by
        rw [signedValue]
        · exact hminus
        · exact hplus
      rw [hvalue]
      cases fitted? _ <;> rfl

end Decimals

/-! ## No dates or times -/

section Moments

variable {cs rest : List Char} {mark : Char}

/-- Digits are not followed by a mark that neither occurs in the text nor begins what follows. -/
theorem getElem?_ne_mark (hcs : mark ∉ cs) (hrest : ∀ c ∈ rest.head?, c.isDigit = false ∧ c ≠ mark)
    (k : Nat) (hk : ((cs ++ rest).take k).length = k)
    (hdigits : ((cs ++ rest).take k).all Char.isDigit) :
    (cs ++ rest)[k]? ≠ some mark := by
  induction cs generalizing k with
  | nil =>
    cases rest with
    | nil => simp
    | cons c rest =>
      obtain ⟨hc, hmark⟩ := hrest c rfl
      cases k with
      | zero => simpa using hmark
      | succ k => simp [hc] at hdigits
  | cons c cs ih =>
    have hne : mark ≠ c := List.ne_of_not_mem_cons hcs
    have hcs : mark ∉ cs := List.not_mem_of_not_mem_cons hcs
    cases k with
    | zero => simpa using Ne.symm hne
    | succ k =>
      simp only [List.cons_append, List.take_succ_cons, List.length_cons, List.all_cons,
        Bool.and_eq_true, Nat.add_right_cancel_iff] at hk hdigits
      simpa using ih hcs k hk hdigits.2

theorem readExactly_eq_some {n : Nat} {ds : List Char} (h : readExactly n cs = some (ds, rest)) :
    (cs.take n).length = n ∧ (cs.take n).all Char.isDigit ∧ rest = cs.drop n := by
  simp only [readExactly] at h
  split at h
  · next hds =>
    cases h
    exact ⟨hds.1, hds.2, rfl⟩
  · cases h

theorem readMark_eq_some (h : readMark mark cs = some rest) : cs[0]? = some mark := by
  cases cs with
  | nil => cases h
  | cons c cs =>
    rw [readMark] at h
    split at h
    · next hc =>
      rw [hc]
      rfl
    · cases h

theorem readDate_eq_none (h : (cs.take 4).length = 4 → (cs.take 4).all Char.isDigit →
    cs[4]? ≠ some '-') : readDate cs = none := by
  cases hexact : readExactly 4 cs with
  | none => simp [readDate, hexact]
  | some p =>
    obtain ⟨year, rest⟩ := p
    obtain ⟨hlength, hdigits, rfl⟩ := readExactly_eq_some hexact
    cases hmark : readMark '-' (cs.drop 4) with
    | none => simp [readDate, hexact, hmark]
    | some t =>
      refine absurd ?_ (h hlength hdigits)
      simpa using readMark_eq_some hmark

theorem readExactly_of_readTwo {low high n : Nat} (h : readTwo low high cs = some (n, rest)) :
    ∃ ds, readExactly 2 cs = some (ds, rest) := by
  simp only [readTwo, Option.bind_eq_bind, Option.bind_eq_some_iff, Prod.exists] at h
  obtain ⟨ds, t, hexact, h⟩ := h
  split at h
  · cases h
    exact ⟨ds, hexact⟩
  · cases h

theorem readTime_eq_none {lastHour : Nat} (h : (cs.take 2).length = 2 →
    (cs.take 2).all Char.isDigit → cs[2]? ≠ some ':') : readTime lastHour cs = none := by
  cases hhour : readTwo 0 lastHour cs with
  | none => simp [readTime, hhour]
  | some p =>
    obtain ⟨hour, rest⟩ := p
    obtain ⟨ds, hexact⟩ := readExactly_of_readTwo hhour
    obtain ⟨hlength, hdigits, rfl⟩ := readExactly_eq_some hexact
    cases hmark : readMark ':' (cs.drop 2) with
    | none => simp [readTime, hhour, hmark]
    | some t =>
      refine absurd ?_ (h hlength hdigits)
      simpa using readMark_eq_some hmark

/-- A text without the marks of dates and times after its first character is none of them. -/
theorem readMoment_eq_none {c : Char} (hcs : ∀ m ∈ ['-', ':'], m ∉ cs)
    (hrest : ∀ d ∈ rest.head?, d.isDigit = false ∧ d ∉ ['-', ':']) :
    readMoment (c :: cs ++ rest) = none := by
  have hne : ∀ m ∈ ['-', ':'], ∀ k, ((c :: cs ++ rest).take (k + 1)).length = k + 1 →
      ((c :: cs ++ rest).take (k + 1)).all Char.isDigit → (c :: cs ++ rest)[k + 1]? ≠ some m := by
    intro m hm k hk hdigits
    simp only [List.cons_append, List.take_succ_cons, List.length_cons, List.all_cons,
      Bool.and_eq_true, Nat.add_right_cancel_iff] at hk hdigits
    have hget := getElem?_ne_mark (hcs m hm)
      (fun d hd => ⟨(hrest d hd).1, fun h => (hrest d hd).2 (h ▸ hm)⟩) k hk hdigits.2
    simpa using hget
  rw [readMoment, readDate_eq_none (hne '-' (by simp) 3), readTime_eq_none (hne ':' (by simp) 1)]

end Moments

/-! ## Whole numbers -/

section Integers

variable {ds cs rest text whole sign : List Char} {n : Int} {c : Char}

theorem Grouped.mem_cases {isDigit : Char → Bool} (h : Grouped isDigit ds cs) (hc : c ∈ cs) :
    isDigit c ∨ c = '_' := by
  induction h with
  | last hd => exact .inl (List.mem_singleton.1 hc ▸ hd)
  | digit hd _ ih =>
    rcases List.mem_cons.1 hc with rfl | hc
    · exact .inl hd
    · exact ih hc
  | underscore hd _ ih =>
    rcases List.mem_cons.1 hc with rfl | hc
    · exact .inl hd
    · rcases List.mem_cons.1 hc with rfl | hc
      · exact .inr rfl
      · exact ih hc

theorem Grouped.not_mem {isDigit : Char → Bool} (h : Grouped isDigit ds cs)
    (hc : isDigit c = false ∧ c ≠ '_') : c ∉ cs := fun hmem =>
  (h.mem_cases hmem).elim (fun hdigit => by simp [hc.1] at hdigit) hc.2

theorem DecimalText.not_mem (h : DecimalText ds cs) (hc : c.isDigit = false ∧ c ≠ '_') :
    c ∉ cs := by
  rcases h with ⟨rfl, -⟩ | ⟨h, -⟩
  · rintro hmem
    rw [List.mem_singleton.1 hmem] at hc
    exact absurd hc.1 (by decide)
  · exact h.not_mem hc

/-- A whole number begins with a digit or a sign and goes on without the marks of dates and
times. -/
theorem IntegerText.start (h : IntegerText cs n) :
    ∃ c t, cs = c :: t ∧ (c.isDigit ∨ c = '+' ∨ c = '-') ∧ ∀ m ∈ ['-', ':'], m ∉ t := by
  cases h with
  | plain h =>
    obtain ⟨c, t, rfl, hc⟩ := h.head
    refine ⟨c, t, rfl, .inl hc, fun m hm => ?_⟩
    exact List.not_mem_of_not_mem_cons (h.not_mem (by fin_cases hm <;> decide))
  | plus h =>
    refine ⟨_, _, rfl, .inr (.inl rfl), fun m hm => h.not_mem ?_⟩
    fin_cases hm <;> decide
  | minus h =>
    refine ⟨_, _, rfl, .inr (.inr rfl), fun m hm => h.not_mem ?_⟩
    fin_cases hm <;> decide
  | based b h =>
    refine ⟨_, _, rfl, .inl rfl, fun m hm => List.not_mem_cons_of_ne_of_not_mem ?_ (h.not_mem ?_)⟩
    · cases b <;> fin_cases hm <;> decide
    · cases b <;> fin_cases hm <;> decide

theorem readSpecial_eq_none (h : readSign text = (sign, c :: cs)) (hc : c.isDigit) :
    readSpecial text = none := by
  rw [readSpecial, h]
  split
  · next heq =>
    cases heq
    cases hc
  · next heq =>
    cases heq
    cases hc
  · rfl

/-- A decimal that is followed by neither a fraction nor an exponent is a whole number. -/
theorem readNumber_of_readWhole (hwhole : readWhole text = some (whole, rest))
    (hsign : readSign text = (sign, c :: cs)) (hc : c.isDigit) (hrest : ValueEnds rest)
    (hbase : ∀ c t, text = '0' :: c :: t → c ≠ 'x' ∧ c ≠ 'o' ∧ c ≠ 'b') :
    readNumber text = (fitted? (signedValue whole)).map fun n => (.integer n, rest) := by
  have hdecimals : readDecimals rest = none := by
    rw [readDecimals]
    rintro t rfl
    exact absurd (hrest '.' rfl) (by decide)
  have hexponent : readExponent rest = none := by
    cases rest with
    | nil => rfl
    | cons d t =>
      rw [readExponent, if_neg]
      rintro (rfl | rfl)
      · exact absurd (hrest 'e' rfl) (by decide)
      · exact absurd (hrest 'E' rfl) (by decide)
  rw [readNumber, readFloat_eq_none hwhole hdecimals hexponent, readSpecial_eq_none hsign hc,
    readInteger_of_readWhole hbase hwhole]
  cases fitted? (signedValue whole) <;> rfl

/-- What may follow a value does not go on with a digit of any base. -/
theorem ValueEnds.digitsOver {isDigit : Char → Bool} (h : ValueEnds rest)
    (hdigit : ∀ c ∈ [' ', '\t', '\n', '\r', '#', ',', ']', '\x7d'], isDigit c = false) :
    DigitsOver isDigit rest := fun c hc =>
  ⟨hdigit c (h c hc), fun hmark => absurd (h c hc) (by rw [hmark]; decide)⟩

theorem DecimalText.digits_head (h : DecimalText ds cs) : ∃ c t, ds = c :: t ∧ c.isDigit := by
  rcases h with ⟨-, rfl⟩ | ⟨h, -⟩
  · exact ⟨'0', [], rfl, rfl⟩
  · cases h with
    | last hc => exact ⟨_, _, rfl, hc⟩
    | digit hc => exact ⟨_, _, rfl, hc⟩
    | underscore hc => exact ⟨_, _, rfl, hc⟩

/-- A decimal number without a sign is not taken for one of another base. -/
theorem DecimalText.not_base (h : DecimalText ds cs) (hrest : ValueEnds rest) (t : List Char)
    (ht : cs ++ rest = '0' :: c :: t) : c ≠ 'x' ∧ c ≠ 'o' ∧ c ≠ 'b' := by
  rcases h with ⟨rfl, -⟩ | ⟨h, hzero⟩
  · have hhead : rest = c :: t := List.cons_inj_right '0' |>.1 ht
    have hc := hrest c (by rw [hhead]; rfl)
    refine ⟨?_, ?_, ?_⟩ <;> rintro rfl <;> exact absurd hc (by decide)
  · obtain ⟨d, u, rfl, -⟩ := h.head
    obtain ⟨rfl, -⟩ := List.cons.inj ht
    exact absurd rfl hzero

theorem readNumber_decimal (h : DecimalText ds cs) (hsign : readSign text = (sign, cs ++ rest))
    (hrest : ValueEnds rest) (hbase : ∀ c t, text = '0' :: c :: t → c ≠ 'x' ∧ c ≠ 'o' ∧ c ≠ 'b') :
    readNumber text = (fitted? (signedValue (sign ++ ds))).map fun n => (.integer n, rest) := by
  have hwhole := readWhole_decimal hsign h (hrest.digitsOver (by decide))
  obtain ⟨c, t, rfl, hc⟩ := h.head
  exact readNumber_of_readWhole hwhole hsign hc hrest hbase

/-- After a zero and the mark of a base, digits of this base are read. -/
theorem readNumber_based (b : Base) (h : Grouped b.isDigit ds cs) (hrest : ValueEnds rest) :
    readNumber ('0' :: b.mark :: cs ++ rest) =
      (fitted? (b.ofDigits ds)).map fun n => (.integer n, rest) := by
  -- A number with a fraction is tried first: it would begin with the zero, and the mark ends it.
  have hwhole : readWhole ('0' :: b.mark :: (cs ++ rest)) = some (['0'], b.mark :: (cs ++ rest)) :=
    rfl
  have hdecimals : readDecimals (b.mark :: (cs ++ rest)) = none := by
    cases b <;> rfl
  have hexponent : readExponent (b.mark :: (cs ++ rest)) = none := by
    cases b <;> rfl
  have hsign : readSign ('0' :: b.mark :: (cs ++ rest)) = ([], '0' :: b.mark :: (cs ++ rest)) := rfl
  have hread : readInteger ('0' :: b.mark :: (cs ++ rest)) =
      readBase b.radix b.isDigit (cs ++ rest) := by
    cases b <;> rfl
  have hdigits : readSomeDigits b.isDigit (cs ++ rest) = some (ds, rest) :=
    readSomeDigits_grouped h (by cases b <;> decide) (hrest.digitsOver (by cases b <;> decide))
  rw [List.cons_append, List.cons_append, readNumber, readFloat_eq_none hwhole hdecimals hexponent,
    readSpecial_eq_none hsign rfl, hread, readBase, hdigits]
  simp only [Option.bind_eq_bind, Option.bind_some]
  rw [← Base.ofDigits]
  cases fitted? (b.ofDigits ds) <;> rfl

/-- A whole number is read to its end and exactly, or it does not fit. -/
theorem readNumber_integer (h : IntegerText cs n) (hrest : ValueEnds rest) :
    readNumber (cs ++ rest) = (fitted? n).map fun n => (.integer n, rest) := by
  cases h with
  | plain h =>
    obtain ⟨d, u, rfl, hd⟩ := h.digits_head
    have hsign : readSign (cs ++ rest) = ([], cs ++ rest) := by
      obtain ⟨c, t, rfl, hc⟩ := h.head
      exact readSign_of_isDigit hc
    rw [readNumber_decimal h hsign hrest fun _ => h.not_base hrest, List.nil_append,
      signedValue_of_isDigit hd]
  | plus h =>
    rw [readNumber_decimal h rfl hrest (by intro c t heq; cases heq)]
    rfl
  | minus h =>
    rw [readNumber_decimal h rfl hrest (by intro c t heq; cases heq)]
    rfl
  | based b h => exact readNumber_based b h hrest

/-- A whole number is read to its end and as the number that it denotes, and refused exactly when it
does not fit 64 bits. -/
theorem readValue_integer (depth : Nat) (h : IntegerText cs n) (hrest : ValueEnds rest) :
    readValue depth (cs ++ rest) =
      (fitted? n).map fun n => (.scalar (.integer n), rest) := by
  have hnumber := readNumber_integer h hrest
  obtain ⟨c, t, rfl, hc, hmarks⟩ := h.start
  have hmoment : readMoment (c :: t ++ rest) = none := readMoment_eq_none hmarks fun d hd => by
    have := hrest d hd
    fin_cases this <;> decide
  rw [List.cons_append] at hmoment hnumber ⊢
  unfold readValue
  split
  · next heq =>
    obtain ⟨rfl, -⟩ := List.cons.inj heq
    exact absurd hc (by decide)
  · next heq =>
    obtain ⟨rfl, -⟩ := List.cons.inj heq
    exact absurd hc (by decide)
  · next heq =>
    cases heq
    rw [if_neg, if_neg, if_neg, hmoment, hnumber]
    · cases fitted? n <;> rfl
    · rintro rfl
      exact absurd hc (by decide)
    · rintro rfl
      exact absurd hc (by decide)
    · rintro (rfl | rfl) <;> exact absurd hc (by decide)
  · next heq => cases heq

theorem skipBlanks_append {blanks : List Char} (hblanks : ∀ c ∈ blanks, isBlank c)
    (hcs : ∀ c ∈ cs.head?, isBlank c = false) : skipBlanks (blanks ++ cs) = cs := by
  rw [skipBlanks, List.dropWhile_append_of_pos hblanks]
  cases cs with
  | nil => rfl
  | cons c cs => rw [List.dropWhile_cons_of_neg (Bool.eq_false_iff.1 (hcs c rfl))]

/-- An assignment of a whole number under a key assigns this number to the key, or is refused. -/
theorem readPair_integer (depth : Nat) {key : Key} {blanks : List Char}
    (hkey : readKey text = some (key, '=' :: (blanks ++ (cs ++ rest))))
    (hblanks : ∀ c ∈ blanks, isBlank c) (h : IntegerText cs n) (hrest : ValueEnds rest) :
    readPair (readValue depth) text =
      (fitted? n).map fun n => ((key, .scalar (.integer n)), skipBlanks rest) := by
  have hskip : skipBlanks (blanks ++ (cs ++ rest)) = cs ++ rest := by
    refine skipBlanks_append hblanks fun c hc => ?_
    obtain ⟨d, t, rfl, hd, -⟩ := h.start
    cases hc
    refine Bool.or_eq_false_iff.2 ⟨decide_eq_false ?_, decide_eq_false ?_⟩
    · rintro rfl
      exact absurd hd (by decide)
    · rintro rfl
      exact absurd hd (by decide)
  have hmark : readMark '=' ('=' :: (blanks ++ (cs ++ rest))) = some (blanks ++ (cs ++ rest)) := rfl
  rw [readPair, hkey]
  simp only [Option.bind_eq_bind, Option.bind_some, hmark, hskip, readValue_integer depth h hrest]
  cases fitted? n <;> rfl

end Integers

end Agenda.Toml
