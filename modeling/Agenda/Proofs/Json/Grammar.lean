import Agenda.Proofs.Json.List

/-!
# The texts of JSON values

JSON as a grammar: which texts are values, and what is left of a value once its text is read. Of a
string that is the text it stands for, which is absent if half a surrogate pair is escaped without the
other; of a number it is the numeral; of a list or an object that is a value itself, only that it is
one. Blanks may stand between any tokens, and values nest to any depth.

* `Piece`, `unescape`: what strings are made of, and the text that the pieces stand for.
* `Numeral`: the four parts of a number.
* `ValueText`: the texts of a value.
* `ObjectText`, `ListText`: the texts of an object, by the names and values of its own members, and of
  a list, by its own items.
* `ValueText.begins`: the first byte tells the kind of a value.
-/
namespace Agenda.Json

open Text.Utf8

/-- A property of the members of a list is decided on the list. It takes precedence over a decision on
all characters or bytes that there are. -/
instance (priority := 1100) decidableForallMem {α : Type} {p : α → Prop} [DecidablePred p] (as : List α) :
    Decidable (∀ a ∈ as, p a) :=
  List.decidableBAll p as

/-! ## Strings -/

/-- The letters of the one-letter escapes, each with the character that it stands for. -/
def letterEscapes : List (Char × Char) :=
  [('"', '"'), ('\\', '\\'), ('/', '/'), ('b', '\x08'), ('f', '\x0C'), ('n', '\n'), ('r', '\r'),
    ('t', '\t')]

def hexDigits : List Char := "0123456789abcdefABCDEF".toList

/-- The value of a hexadecimal digit. -/
def hexDigitValue (c : Char) : Nat :=
  if c.isDigit then c.toNat - '0'.toNat else c.toLower.toNat - 'a'.toNat + 10

/-- The character stands for itself in a string. -/
def IsPlain (c : Char) : Prop := c ≠ '"' ∧ c ≠ '\\' ∧ 0x20 ≤ c.toNat

instance : DecidablePred IsPlain := fun _ => inferInstanceAs (Decidable (_ ∧ _ ∧ _))

/-- What stands between the quotes of a string. -/
inductive Piece where
  | plain (c : Char) (h : IsPlain c)
  /-- An escape of one letter. -/
  | letter (escape : Char × Char) (h : escape ∈ letterEscapes)
  /-- An escape of the four digits of a UTF-16 code unit. -/
  | unit (digits : List Char) (h : digits.length = 4 ∧ ∀ c ∈ digits, c ∈ hexDigits)

def Piece.text : Piece → List Char
  | plain c _ => [c]
  | letter escape _ => ['\\', escape.1]
  | unit digits _ => '\\' :: 'u' :: digits

/-- A string as text. -/
def literal (ps : List Piece) : List Char := '"' :: (ps.flatMap Piece.text ++ ['"'])

/-- The code unit of an escape. -/
def unitValue (digits : List Char) : Nat :=
  digits.foldl (fun n c => 16 * n + hexDigitValue c) 0

/-- The code unit is the first half of a surrogate pair. -/
def IsLead (n : Nat) : Prop := 0xD800 ≤ n ∧ n ≤ 0xDBFF

/-- The code unit is the second half of a surrogate pair. -/
def IsTrail (n : Nat) : Prop := 0xDC00 ≤ n ∧ n ≤ 0xDFFF

instance (n : Nat) : Decidable (IsLead n) := inferInstanceAs (Decidable (_ ∧ _))

instance (n : Nat) : Decidable (IsTrail n) := inferInstanceAs (Decidable (_ ∧ _))

/-- The character of a surrogate pair. -/
def pairChar (lead trail : Nat) : Char :=
  Char.ofNat (0x10000 + (lead - 0xD800) * 0x400 + (trail - 0xDC00))

/-- The text that the pieces stand for after the first half of a surrogate pair, if there is one. -/
def unescapeAfter : Option Nat → List Piece → Option (List Char)
  | none, [] => some []
  | none, .plain c _ :: ps => (unescapeAfter none ps).map (c :: ·)
  | none, .letter escape _ :: ps => (unescapeAfter none ps).map (escape.2 :: ·)
  | none, .unit digits _ :: ps =>
    if IsTrail (unitValue digits) then none
    else if IsLead (unitValue digits) then unescapeAfter (some (unitValue digits)) ps
    else (unescapeAfter none ps).map (Char.ofNat (unitValue digits) :: ·)
  | some lead, .unit digits _ :: ps =>
    if IsTrail (unitValue digits) then
      (unescapeAfter none ps).map (pairChar lead (unitValue digits) :: ·)
    else none
  | some _, _ => none

/-- The text that the pieces stand for. It is absent if there is half a surrogate pair without the
other half. -/
def unescape (ps : List Piece) : Option (List Char) := unescapeAfter none ps

/-- Characters that stand for themselves. -/
def plains (cs : List Char) (h : ∀ c ∈ cs, IsPlain c) : List Piece :=
  cs.pmap Piece.plain h

theorem unescape_plains (cs : List Char) (h : ∀ c ∈ cs, IsPlain c) :
    unescape (plains cs h) = some cs := by
  induction cs with
  | nil => rfl
  | cons c cs ih =>
    have hrest := ih fun d hd => h d (List.mem_cons_of_mem c hd)
    rw [unescape] at hrest ⊢
    rw [plains, List.pmap_cons, unescapeAfter, ← plains, hrest]
    rfl

/-! ## Numbers -/

/-- The exponent of a number. -/
structure Exponent where
  mark : Char
  sign : Option Char
  digits : List Char
  mark_eq : mark = 'e' ∨ mark = 'E'
  sign_eq : ∀ c ∈ sign, c = '+' ∨ c = '-'
  digits_ne_nil : digits ≠ []
  digit_of_mem : ∀ c ∈ digits, c.isDigit

def Exponent.text (e : Exponent) : List Char := e.mark :: (e.sign.toList ++ e.digits)

/-- A number as it is written. -/
structure Numeral where
  negative : Bool
  whole : Nat
  /-- The digits after the point. Without any there is no point. -/
  fraction : List Char
  exponent : Option Exponent
  digit_of_mem : ∀ c ∈ fraction, c.isDigit

namespace Numeral

/-- A numeral without a fraction, an exponent or a sign. -/
def ofNat (n : Nat) : Numeral := ⟨false, n, [], none, List.forall_mem_nil _⟩

/-- What follows the whole part. -/
def rest (n : Numeral) : List Char :=
  (if n.fraction = [] then [] else '.' :: n.fraction) ++ n.exponent.elim [] Exponent.text

def text (n : Numeral) : List Char :=
  (if n.negative then ['-'] else []) ++ (Decimal.digits n.whole ++ n.rest)

/-- The whole part with its sign. -/
def signed (n : Numeral) : Int := if n.negative then -n.whole else n.whole

/-- The numeral as a 64-bit number with a sign. It is none with a fraction or an exponent, nor is
`-0`. -/
def int64? (n : Numeral) : Option Int64 :=
  if n.rest = [] ∧ ¬ (n.negative ∧ n.whole = 0) ∧
      Int64.minValue.toInt ≤ n.signed ∧ n.signed ≤ Int64.maxValue.toInt then
    some (Int64.ofInt n.signed)
  else none

end Numeral

/-! ## Values -/

/-- What is left of a value when its text is read. -/
inductive Value where
  | null
  | bool (b : Bool)
  | number (n : Numeral)
  /-- A string, and the text that it stands for. -/
  | string (text : Option (List Char))
  | list
  | object

namespace Value

def text? : Value → Option (List Char)
  | string text => text
  | _ => none

def int64? : Value → Option Int64
  | number n => n.int64?
  | _ => none

def bool? : Value → Option Bool
  | bool b => some b
  | _ => none

end Value

/-- Blanks between tokens. -/
structure Space where
  chars : List Char
  blank : ∀ c ∈ chars, c ∈ [' ', '\n', '\r', '\t']

/-- No blanks. -/
def Space.empty : Space := ⟨[], List.forall_mem_nil _⟩

/-- A value and its text between blanks. -/
structure Item where
  before : Space
  value : Value
  text : List Char
  after : Space

def Item.full (i : Item) : List Char := i.before.chars ++ (i.text ++ i.after.chars)

/-- What is left of a member of an object when its text is read: its name, absent if it stands for no
text, and its value. -/
structure Entry where
  name : Option (List Char)
  value : Value

/-- A member of an object as it is written. -/
structure Pair where
  before : Space
  key : List Piece
  afterKey : Space
  item : Item

namespace Pair

def full (p : Pair) : List Char :=
  p.before.chars ++ (literal p.key ++ (p.afterKey.chars ++ ':' :: p.item.full))

def entry (p : Pair) : Entry := ⟨unescape p.key, p.item.value⟩

/-- A member without blanks. -/
def bare (key : List Piece) (v : Value) (text : List Char) : Pair :=
  ⟨.empty, key, .empty, .empty, v, text, .empty⟩

/-- A member whose name and value are texts without escapes. -/
def plain (name value : List Char) (hn : ∀ c ∈ name, IsPlain c) (hv : ∀ c ∈ value, IsPlain c) :
    Pair :=
  .bare (plains name hn) (.string (some value)) (literal (plains value hv))

theorem entry_plain {name value : List Char} (hn : ∀ c ∈ name, IsPlain c)
    (hv : ∀ c ∈ value, IsPlain c) :
    (plain name value hn hv).entry = ⟨some name, .string (some value)⟩ :=
  congrArg (Entry.mk · _) (unescape_plains name hn)

end Pair

/-- The items of a list in brackets. -/
def brackets (w : Space) (items : List Item) : List Char :=
  '[' :: (w.chars ++ (List.intercalate [','] (items.map Item.full) ++ [']']))

/-- The members of an object in braces. -/
def braces (w : Space) (pairs : List Pair) : List Char :=
  '\x7b' :: (w.chars ++ (List.intercalate [','] (pairs.map Pair.full) ++ ['\x7d']))

/-- The text is one of the value. -/
inductive ValueText : Value → List Char → Prop
  | null : ValueText .null ['n', 'u', 'l', 'l']
  | bool (b : Bool) : ValueText (.bool b) (writeBool b)
  | number (n : Numeral) : ValueText (.number n) n.text
  | string (ps : List Piece) : ValueText (.string (unescape ps)) (literal ps)
  | list (w : Space) (items : List Item) (h : ∀ i ∈ items, ValueText i.value i.text) :
      ValueText .list (brackets w items)
  | object (w : Space) (pairs : List Pair) (h : ∀ p ∈ pairs, ValueText p.item.value p.item.text) :
      ValueText .object (braces w pairs)

/-- The text is one of an object with these members, between blanks. -/
inductive ObjectText : List Entry → List Char → Prop
  | intro (before : Space) (w : Space) (pairs : List Pair) (after : Space)
      (h : ∀ p ∈ pairs, ValueText p.item.value p.item.text) :
      ObjectText (pairs.map Pair.entry) (before.chars ++ (braces w pairs ++ after.chars))

/-- The text is one of a list with these items, between blanks. -/
inductive ListText : List Value → List Char → Prop
  | intro (before : Space) (w : Space) (items : List Item) (after : Space)
      (h : ∀ i ∈ items, ValueText i.value i.text) :
      ListText (items.map Item.value) (before.chars ++ (brackets w items ++ after.chars))

theorem valueText_plain {name value : List Char} (hn : ∀ c ∈ name, IsPlain c)
    (hv : ∀ c ∈ value, IsPlain c) :
    ValueText (Pair.plain name value hn hv).item.value (Pair.plain name value hn hv).item.text := by
  have h := ValueText.string (plains value hv)
  rwa [unescape_plains] at h

/-! ## Hexadecimal digits -/

theorem hexDigit_lt {c : Char} (h : c ∈ hexDigits) : c.toNat < 128 := by
  have hall : ∀ c ∈ hexDigits, c.toNat < 128 := by decide
  exact hall c h

theorem hexValue_hexDigit {c : Char} (h : c ∈ hexDigits) :
    hexValue (UInt8.ofNat c.toNat) = some (hexDigitValue c) := by
  have hall : ∀ c ∈ hexDigits, hexValue (UInt8.ofNat c.toNat) = some (hexDigitValue c) := by decide
  exact hall c h

/-! ## First bytes -/

/-- The byte begins a value of the kind of `v`. -/
def Begins : Value → UInt8 → Prop
  | .null, b => b = 0x6E
  | .bool true, b => b = 0x74
  | .bool false, b => b = 0x66
  | .number _, b => b = 0x2D ∨ isDigit b
  | .string _, b => b = 0x22
  | .list, b => b = 0x5B
  | .object, b => b = 0x7B

variable {v : Value} {text : List Char}

theorem Numeral.begins (n : Numeral) :
    ∃ b s, encode n.text = b :: s ∧ (b = 0x2D ∨ isDigit b) := by
  unfold Numeral.text
  split
  · exact ⟨0x2D, _, rfl, .inl rfl⟩
  · obtain ⟨b, s, hs, hb⟩ := exists_first_digit n.whole
    rw [List.nil_append, encode_append, hs]
    exact ⟨b, _, rfl, .inr hb⟩

/-- **First bytes.** The first byte of a value tells its kind. -/
theorem ValueText.begins (h : ValueText v text) : ∃ b s, encode text = b :: s ∧ Begins v b := by
  cases h with
  | null => exact ⟨0x6E, _, rfl, rfl⟩
  | bool b =>
    cases b with
    | false => exact ⟨0x66, _, rfl, rfl⟩
    | true => exact ⟨0x74, _, rfl, rfl⟩
  | number n => exact n.begins
  | string ps => exact ⟨0x22, _, rfl, rfl⟩
  | list w items h => exact ⟨0x5B, _, rfl, rfl⟩
  | object w pairs h => exact ⟨0x7B, _, rfl, rfl⟩

theorem Begins.not_blank {b : UInt8} (h : Begins v b) : isBlank b = false := by
  cases v with
  | bool t => cases t <;> (obtain rfl := h; rfl)
  | number n =>
    rcases h with rfl | h
    · rfl
    · exact not_blank_of_isDigit h
  | _ => obtain rfl := h; rfl

theorem Begins.ne_bracket {b : UInt8} (h : Begins v b) : b ≠ 0x5D := by
  cases v with
  | bool t => cases t <;> (obtain rfl := h; decide)
  | number n =>
    rintro rfl
    rcases h with h | h <;> cases h
  | _ => obtain rfl := h; decide

/-! ## Blanks -/

theorem encode_space (w : Space) : ∀ b ∈ encode w.chars, isBlank b := by
  intro b hb
  obtain ⟨c, hc, hb⟩ := List.mem_flatMap.1 hb
  have hbytes : ∀ c ∈ [' ', '\n', '\r', '\t'], ∀ b ∈ String.utf8EncodeChar c, isBlank b := by decide
  exact hbytes c (w.blank c hc) b hb

theorem skipBlanks_space (w : Space) (s : List UInt8) :
    skipBlanks (encode w.chars ++ s) = skipBlanks s := by
  rw [skipBlanks, List.dropWhile_append_of_pos (encode_space w)]
  rfl

theorem skipBlanks_chars (w : Space) : skipBlanks (encode w.chars) = [] := by
  have h := skipBlanks_space w []
  rwa [List.append_nil] at h

theorem valueEnds_space (w : Space) {r : List UInt8} (hr : ValueEnds r) :
    ValueEnds (encode w.chars ++ r) := by
  cases hs : encode w.chars with
  | nil => exact hr
  | cons b s =>
    have hb : isBlank b := encode_space w b (hs ▸ List.mem_cons_self)
    simp only [isBlank, Bool.or_eq_true, decide_eq_true_eq] at hb
    rcases hb with ((rfl | rfl) | rfl) | rfl <;> exact ⟨rfl, rfl⟩

end Agenda.Json
