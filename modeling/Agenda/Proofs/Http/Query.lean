import Agenda.Http.Target
import Agenda.Proofs.Json.Grammar
import Mathlib.Data.List.TakeDrop
import Mathlib.Data.List.TakeWhile

/-!
# Forms are read back

A text as a form encodes it: every byte of its UTF-8 as a percent sign and two hexadecimal digits, of
either case, those of letters, digits and four marks also as themselves, and that of a blank also as a
plus sign. None of these has a meaning in a query, so a text that contains `&`, `=`, `+` or `%` is read
back like any other, among whatever other parameters.

* `Query.Form`: the encodings of bytes; most texts have several.
* `Query.decode_form`: a text is read back from each of its encodings.
* `Query.Holds`: the queries with one parameter of a name; `Query.Holds.values_eq` finds its value.
* `Target.ofBytes?_query`: a target with a query.
-/
namespace Agenda.Http

open Json Text.Utf8

namespace Query

/-! ## Encodings -/

/-- The characters that stand for themselves in a form. -/
def unreserved : List Char :=
  "ABCDEFGHIJKLMNOPQRSTUVWXYZabcdefghijklmnopqrstuvwxyz0123456789-._~".toList

/-- What stands for a byte in a form. -/
inductive ByteForm : UInt8 → List Char → Prop
  | percent (x y : Char) (hx : x ∈ hexDigits) (hy : y ∈ hexDigits) :
      ByteForm (UInt8.ofNat (16 * hexDigitValue x + hexDigitValue y)) ['%', x, y]
  | plain (c : Char) (h : c ∈ unreserved) : ByteForm (UInt8.ofNat c.toNat) [c]
  | blank : ByteForm 0x20 ['+']

/-- What stands for bytes in a form. -/
inductive Form : List UInt8 → List Char → Prop
  | nil : Form [] []
  | cons {b : UInt8} {bs : List UInt8} {f fs : List Char} (hb : ByteForm b f) (hbs : Form bs fs) :
      Form (b :: bs) (f ++ fs)

/-- The characters that forms are made of. -/
def formChars : List Char := unreserved ++ ['%', '+']

theorem mem_formChars {c : Char} (h : c ∈ unreserved) : c ∈ formChars :=
  List.mem_append_left ['%', '+'] h

theorem lt_of_mem_formChars {c : Char} (h : c ∈ formChars) : c.toNat < 128 := by
  have hall : ∀ c ∈ formChars, c.toNat < 128 := by decide
  exact hall c h

theorem hexDigit_mem_formChars {c : Char} (h : c ∈ hexDigits) : c ∈ formChars := by
  have hall : ∀ c ∈ hexDigits, c ∈ formChars := by decide
  exact hall c h

theorem ByteForm.mem_formChars {b : UInt8} {f : List Char} (h : ByteForm b f) :
    ∀ c ∈ f, c ∈ formChars := by
  cases h with
  | percent x y hx hy =>
    simp only [List.forall_mem_cons, List.not_mem_nil, false_imp_iff, implies_true, and_true]
    exact ⟨by decide, hexDigit_mem_formChars hx, hexDigit_mem_formChars hy⟩
  | plain c h => exact List.forall_mem_singleton.2 (Query.mem_formChars h)
  | blank => exact List.forall_mem_singleton.2 (by decide)

theorem Form.mem_formChars {bs : List UInt8} {fs : List Char} (h : Form bs fs) :
    ∀ c ∈ fs, c ∈ formChars := by
  induction h with
  | nil => exact List.forall_mem_nil _
  | cons hb _ ih => exact List.forall_mem_append.2 ⟨hb.mem_formChars, ih⟩

/-- A text of characters that stand for themselves is one of its forms. -/
theorem form_plain {cs : List Char} (h : ∀ c ∈ cs, c ∈ unreserved) : Form (encode cs) cs := by
  induction cs with
  | nil => exact .nil
  | cons c cs ih =>
    obtain ⟨hc, hcs⟩ := List.forall_mem_cons.1 h
    rw [encode_ascii (lt_of_mem_formChars (mem_formChars hc))]
    exact .cons (.plain c hc) (ih hcs)

/-- No byte of a form ends a name or a parameter, and all may stand in a query. -/
theorem Form.bytes {bs : List UInt8} {fs : List Char} (h : Form bs fs) {b : UInt8}
    (hb : b ∈ encode fs) : b ≠ 0x26 ∧ b ≠ 0x3D ∧ Target.isQueryByte b := by
  obtain ⟨c, hc, hb⟩ := List.mem_flatMap.1 hb
  have hform := h.mem_formChars c hc
  rw [utf8EncodeChar_of_lt (lt_of_mem_formChars hform), List.mem_singleton] at hb
  have hall : ∀ c ∈ formChars, UInt8.ofNat c.toNat ≠ 0x26 ∧ UInt8.ofNat c.toNat ≠ 0x3D ∧
      Target.isQueryByte (UInt8.ofNat c.toNat) := by decide
  rw [hb]
  exact hall c hform

/-! ## Decoding -/

/-- A plus sign stands for a blank. -/
def unplus (b : UInt8) : UInt8 := if b = 0x2B then 0x20 else b

theorem decode_eq (s : List UInt8) : decode s = decodeLossy (percentDecode (s.map unplus)) := rfl

theorem percentDecode_digits {a b : UInt8} {x y : Nat} (ha : hexValue a = some x)
    (hb : hexValue b = some y) (s : List UInt8) :
    percentDecode (0x25 :: a :: b :: s) = UInt8.ofNat (16 * x + y) :: percentDecode s := by
  rw [percentDecode, ha, hb]

theorem percentDecode_cons {b : UInt8} (h : b ≠ 0x25) (s : List UInt8) :
    percentDecode (b :: s) = b :: percentDecode s := by
  rw [percentDecode]
  exact fun _ _ _ hb _ => h hb

/-- A character that stands for itself is neither a plus sign nor a percent sign. -/
theorem unplus_unreserved {c : Char} (h : c ∈ unreserved) :
    unplus (UInt8.ofNat c.toNat) = UInt8.ofNat c.toNat ∧ UInt8.ofNat c.toNat ≠ 0x25 := by
  have hall : ∀ c ∈ unreserved,
      unplus (UInt8.ofNat c.toNat) = UInt8.ofNat c.toNat ∧ UInt8.ofNat c.toNat ≠ 0x25 := by decide
  exact hall c h

theorem unplus_hexDigit {c : Char} (h : c ∈ hexDigits) :
    unplus (UInt8.ofNat c.toNat) = UInt8.ofNat c.toNat := by
  have hall : ∀ c ∈ hexDigits, unplus (UInt8.ofNat c.toNat) = UInt8.ofNat c.toNat := by decide
  exact hall c h

/-- **One byte.** It is read back from what stands for it, whatever follows. -/
theorem percentDecode_byte {b : UInt8} {f : List Char} (h : ByteForm b f) (s : List UInt8) :
    percentDecode ((encode f).map unplus ++ s) = b :: percentDecode s := by
  cases h with
  | percent x y hx hy =>
    have hbytes : (encode ['%', x, y]).map unplus =
        [0x25, UInt8.ofNat x.toNat, UInt8.ofNat y.toNat] := by
      rw [encode_ascii (by decide), encode_ascii (hexDigit_lt hx), encode_ascii (hexDigit_lt hy),
        List.map_cons, List.map_cons, List.map_cons, unplus_hexDigit hx, unplus_hexDigit hy]
      rfl
    rw [hbytes]
    exact percentDecode_digits (hexValue_hexDigit hx) (hexValue_hexDigit hy) s
  | plain c h =>
    obtain ⟨hc, hne⟩ := unplus_unreserved h
    rw [encode_ascii (lt_of_mem_formChars (mem_formChars h)), List.map_cons, hc]
    exact percentDecode_cons hne s
  | blank => exact percentDecode_cons (by decide) s

theorem percentDecode_form {bs : List UInt8} {fs : List Char} (h : Form bs fs) :
    percentDecode ((encode fs).map unplus) = bs := by
  induction h with
  | nil => rfl
  | cons hb _ ih => rw [encode_append, List.map_append, percentDecode_byte hb, ih]

/-- **Forms.** A text is read back from each of its encodings. -/
theorem decode_form {cs fs : List Char} (h : Form (encode cs) fs) : decode (encode fs) = cs := by
  rw [decode_eq, percentDecode_form h, decodeLossy_encode]

/-! ## Parameters -/

/-- A parameter as it is written. -/
def parameter (name : String) (form : List Char) : List UInt8 :=
  encode name.toList ++ 0x3D :: encode form

/-- The value of a parameter, if it has the name. -/
def value? (name : String) (p : List UInt8) : Option (List Char) :=
  if p ≠ [] ∧ decode (splitPair p).1 = name.toList then some (decode (splitPair p).2) else none

theorem values_eq (name : String) (s : List UInt8) :
    values name s = (s.splitOn 0x26).filterMap (value? name) := by
  rw [values, pairs, List.filterMap_map, List.filterMap_filter]
  refine List.filterMap_congr fun p _ => ?_
  cases p with
  | nil => rfl
  | cons b p => simp [value?]

variable {name : String} {cs form : List Char} {p : List UInt8}

theorem splitPair_parameter (hname : ∀ c ∈ name.toList, c ∈ unreserved) (form : List Char) :
    splitPair (parameter name form) = (encode name.toList, encode form) := by
  have hbytes : ∀ b ∈ encode name.toList, (b ≠ 0x3D : Bool) := fun b hb =>
    decide_eq_true ((form_plain hname).bytes hb).2.1
  rw [splitPair, parameter, List.span_eq_takeWhile_dropWhile, List.takeWhile_append_of_pos hbytes,
    List.dropWhile_append_of_pos hbytes]
  simp

theorem value?_parameter (hname : ∀ c ∈ name.toList, c ∈ unreserved) (h : Form (encode cs) form) :
    value? name (parameter name form) = some cs := by
  have hne : parameter name form ≠ [] := by simp [parameter]
  rw [value?, splitPair_parameter hname, decode_form (form_plain hname), decode_form h,
    if_pos ⟨hne, rfl⟩]

/-- Nothing in a parameter ends it. -/
theorem not_mem_parameter (hname : ∀ c ∈ name.toList, c ∈ unreserved)
    (h : Form (encode cs) form) : 0x26 ∉ parameter name form := by
  rw [parameter, List.mem_append, List.mem_cons]
  rintro (hb | hb | hb)
  · exact ((form_plain hname).bytes hb).1 rfl
  · cases hb
  · exact (h.bytes hb).1 rfl

/-- The parameter has another name. -/
structure IsOther (name : String) (p : List UInt8) : Prop where
  one : 0x26 ∉ p
  named : decode (splitPair p).1 ≠ name.toList

theorem isOther_parameter {other : String} (hother : ∀ c ∈ other.toList, c ∈ unreserved)
    (hne : other ≠ name) (h : Form (encode cs) form) : IsOther name (parameter other form) where
  one := not_mem_parameter hother h
  named := by
    rw [splitPair_parameter hother, decode_form (form_plain hother)]
    exact fun he => hne (String.toList_inj.1 he)

theorem IsOther.value?_eq_none (h : IsOther name p) : value? name p = none :=
  if_neg fun hp => h.named hp.2

/-- The query has one parameter of the name, and its value is an encoding of the text. -/
inductive Holds (name : String) (cs : List Char) : List UInt8 → Prop
  | intro {before after : List (List UInt8)} {form : List Char} (h : Form (encode cs) form)
      (hbefore : ∀ p ∈ before, IsOther name p) (hafter : ∀ p ∈ after, IsOther name p) :
      Holds name cs (List.intercalate [0x26] (before ++ parameter name form :: after))

/-- **Parameters.** The only parameter of a name is found among others. -/
theorem Holds.values_eq {query : List UInt8} (h : Holds name cs query)
    (hname : ∀ c ∈ name.toList, c ∈ unreserved) : values name query = [cs] := by
  obtain @⟨before, after, form, hform, hbefore, hafter⟩ := h
  have hsplit : ∀ p ∈ before ++ parameter name form :: after, 0x26 ∉ p :=
    List.forall_mem_append.2 ⟨fun p hp => (hbefore p hp).one,
      List.forall_mem_cons.2 ⟨not_mem_parameter hname hform, fun p hp => (hafter p hp).one⟩⟩
  have hnone {ps : List (List UInt8)} (hps : ∀ p ∈ ps, IsOther name p) :
      ps.filterMap (value? name) = [] :=
    List.filterMap_eq_nil_iff.2 fun p hp => (hps p hp).value?_eq_none
  rw [Query.values_eq, List.splitOn_intercalate _ hsplit (by simp), List.filterMap_append,
    hnone hbefore, List.filterMap_cons_some (value?_parameter hname hform), hnone hafter]
  rfl

end Query

/-! ## Targets -/

namespace Target

theorem readQuery_eq {query : List UInt8} (path : List UInt8) (h : ∀ b ∈ query, isQueryByte b) :
    readQuery path query = some ⟨path, some query⟩ := by
  rw [readQuery, List.span_eq_takeWhile_dropWhile, List.takeWhile_eq_self_iff.2 h,
    List.dropWhile_eq_nil_iff.2 h]

/-- **Targets.** A path and a query are told apart by the question mark between them. -/
theorem ofBytes?_query {path query : List UInt8} (hslash : path.head? = some 0x2F)
    (hpath : ∀ b ∈ path, isPathByte b) (hquery : ∀ b ∈ query, isQueryByte b)
    (hl : (path ++ 0x3F :: query).length ≤ maxLength) :
    ofBytes? (path ++ 0x3F :: query) = some ⟨path, some query⟩ := by
  obtain ⟨rest, rfl⟩ : ∃ rest, path = 0x2F :: rest := by
    cases path with
    | nil => cases hslash
    | cons b rest => exact ⟨rest, by rw [Option.some.inj hslash]⟩
  have hread : readPath ((0x2F :: rest) ++ 0x3F :: query) =
      some ⟨0x2F :: rest, some query⟩ := by
    rw [readPath, List.span_eq_takeWhile_dropWhile, List.takeWhile_append_of_pos hpath,
      List.dropWhile_append_of_pos hpath]
    simp only [List.takeWhile_cons, List.dropWhile_cons, show isPathByte 0x3F = false by decide]
    simpa using readQuery_eq (0x2F :: rest) hquery
  have hhead : ((0x2F :: rest) ++ 0x3F :: query).head? = some 0x2F := rfl
  rw [ofBytes?, if_neg (by simpa using hl), if_neg (by simp), if_pos hhead, hread]

end Target

end Agenda.Http
