import Agenda.Json.Skip
import Agenda.Proofs.Json.Grammar

/-!
# Every value is skipped

From the first byte of a value a run goes to where the value ends, and no further, however deep the
value is nested. The numbers need no range and the strings no text for that.

* `run_pieces`, `run_numeral`: the strings and the numbers.
* `run_value`: all values, whatever is open around them.
-/
namespace Agenda.Json.Skip

open Text.Utf8

variable {f : Frame} {fs : List Frame} {st st' : State} {b : UInt8} {r s : List UInt8}

/-- The run after a value. -/
def resume : List Frame → List UInt8 → Except Failure (List UInt8)
  | [], r => .ok r
  | f :: fs, r => run (f :: fs) .after r

/-! ## Single steps -/

theorem run_go {fs' : List Frame} (h : step fs st b = .go fs' st') :
    run fs st (b :: s) = run fs' st' s := by
  rw [run, h]

theorem run_end {fs' : List Frame} (h : step fs st b = endValue fs') :
    run fs st (b :: s) = resume fs' s := by
  rw [run, h]
  cases fs' <;> rfl

theorem run_space (w : Space) (h : ∀ b, isBlank b → step fs st b = .go fs st) :
    run fs st (encode w.chars ++ s) = run fs st s := by
  have hw := encode_space w
  generalize encode w.chars = bs at hw
  induction bs with
  | nil => rfl
  | cons b bs ih =>
    obtain ⟨hb, hbs⟩ := List.forall_mem_cons.1 hw
    rw [List.cons_append, run_go (h b hb), ih hbs]

theorem step_value_blank (b : UInt8) (hb : isBlank b) : step fs .value b = .go fs .value :=
  if_pos hb

theorem step_after_blank (b : UInt8) (hb : isBlank b) :
    step (f :: fs) .after b = .go (f :: fs) .after :=
  if_pos hb

theorem step_opened_blank (b : UInt8) (hb : isBlank b) :
    step (f :: fs) .opened b = .go (f :: fs) .opened :=
  if_pos hb

theorem step_key_blank (b : UInt8) (hb : isBlank b) : step fs .key b = .go fs .key :=
  if_pos hb

theorem step_colon_blank (b : UInt8) (hb : isBlank b) : step fs .colon b = .go fs .colon :=
  if_pos hb

/-! ## Strings -/

variable {isKey : Bool}

theorem run_plain {bs : List UInt8} (h : ∀ b ∈ bs, b ≠ 0x22 ∧ b ≠ 0x5C ∧ ¬ b < 0x20) :
    run fs (.string isKey) (bs ++ s) = run fs (.string isKey) s := by
  induction bs with
  | nil => rfl
  | cons b bs ih =>
    obtain ⟨⟨h₁, h₂, h₃⟩, hbs⟩ := List.forall_mem_cons.1 h
    have hgo : step fs (.string isKey) b = .go fs (.string isKey) :=
      (if_neg h₁).trans ((if_neg h₂).trans (if_neg h₃))
    rw [List.cons_append, run_go hgo, ih hbs]

theorem run_letter {e : Char × Char} (h : e ∈ letterEscapes) :
    run fs (.string isKey) (encode ['\\', e.1] ++ s) = run fs (.string isKey) s := by
  have hletters : ∀ e ∈ letterEscapes, e.1.toNat < 128 ∧ UInt8.ofNat e.1.toNat ≠ 0x75 ∧
      (escapedChar (UInt8.ofNat e.1.toNat)).isSome := by decide
  obtain ⟨hascii, hu, hsome⟩ := hletters e h
  have hgo : step fs (.escape isKey) (UInt8.ofNat e.1.toNat) = .go fs (.string isKey) :=
    (if_neg hu).trans (if_pos hsome)
  rw [encode_ascii (by decide), encode_ascii hascii]
  exact run_go hgo

theorem step_hex {left : Nat} (hb : (hexValue b).isSome) :
    step fs (.hex isKey (left + 1) true) b = .go fs (.hex isKey left true) := by
  show Step.go fs (.hex isKey left (true && (hexValue b).isSome)) = _
  rw [hb, Bool.and_self]

theorem step_hex_last (hb : (hexValue b).isSome) :
    step fs (.hex isKey 0 true) b = .go fs (.string isKey) :=
  if_pos (by rw [hb, Bool.and_self])

theorem run_unit {ds : List Char} (h : ds.length = 4 ∧ ∀ c ∈ ds, c ∈ hexDigits) :
    run fs (.string isKey) (encode ('\\' :: 'u' :: ds) ++ s) = run fs (.string isKey) s := by
  obtain ⟨hlen, hds⟩ := h
  match ds, hlen with
  | [a, b, c, d], _ =>
    simp only [List.forall_mem_cons] at hds
    obtain ⟨ha, hb, hc, hd, -⟩ := hds
    rw [encode_ascii (by decide), encode_ascii (by decide), encode_ascii (hexDigit_lt ha),
      encode_ascii (hexDigit_lt hb), encode_ascii (hexDigit_lt hc), encode_ascii (hexDigit_lt hd)]
    have hsome {c : Char} (hc : c ∈ hexDigits) : (hexValue (UInt8.ofNat c.toNat)).isSome := by
      rw [hexValue_hexDigit hc]
      rfl
    exact (run_go (step_hex (hsome ha))).trans <| (run_go (step_hex (hsome hb))).trans <|
      (run_go (step_hex (hsome hc))).trans <| run_go (step_hex_last (hsome hd))

theorem run_piece (p : Piece) :
    run fs (.string isKey) (encode p.text ++ s) = run fs (.string isKey) s := by
  cases p with
  | plain c h =>
    refine run_plain fun b hb => ?_
    have hone : encode [c] = String.utf8EncodeChar c := List.append_nil _
    exact plain_of_mem h.1 h.2.1 (Nat.not_lt.2 h.2.2) (hone ▸ hb)
  | letter e h => exact run_letter h
  | unit ds h => exact run_unit h

theorem run_pieces (ps : List Piece) :
    run fs (.string isKey) (encode (ps.flatMap Piece.text) ++ s) = run fs (.string isKey) s := by
  induction ps with
  | nil => rfl
  | cons p ps ih => rw [List.flatMap_cons, encode_append, List.append_assoc, run_piece, ih]

/-! ## Numbers -/

theorem run_digits {ds : List Char} (hst : st ∈ [State.whole, .fraction, .power])
    (hd : ∀ c ∈ ds, c.isDigit) : run fs st (encode ds ++ s) = run fs st s := by
  induction ds with
  | nil => rfl
  | cons c ds ih =>
    obtain ⟨hc, hds⟩ := List.forall_mem_cons.1 hd
    have hgo : step fs st (UInt8.ofNat c.toNat) = .go fs st := by
      simp only [List.mem_cons, List.not_mem_nil, or_false] at hst
      rcases hst with rfl | rfl | rfl <;> exact if_pos (isDigit_byte hc)
    rw [encode_digit hc, List.cons_append, run_go hgo, ih hds]

/-- In these states a number may end. -/
theorem run_ended (hst : st ∈ [State.zero, .whole, .fraction, .power]) (hr : ValueEnds r) :
    run fs st r = resume fs r := by
  simp only [List.mem_cons, List.not_mem_nil, or_false] at hst
  cases r with
  | nil => cases fs <;> rcases hst with rfl | rfl | rfl | rfl <;> rfl
  | cons b s =>
    have hdigit : ¬ isDigit b = true := ne_true_of_eq_false hr.digits
    have hrest : goesOn (b :: s) = false := hr.rest
    simp only [goesOn, Bool.or_eq_false_iff, decide_eq_false_iff_not] at hrest
    obtain ⟨⟨hpoint, he⟩, hE⟩ := hrest
    have hmark : ¬ (b = 0x65 ∨ b = 0x45) := not_or.2 ⟨he, hE⟩
    have hwhole : afterWhole fs b = afterValue fs b := (if_neg hpoint).trans (if_neg hmark)
    have hstep : step fs st b = afterValue fs b := by
      rcases hst with rfl | rfl | rfl | rfl
      · exact (if_neg hdigit).trans hwhole
      · exact (if_neg hdigit).trans hwhole
      · exact (if_neg hdigit).trans (if_neg hmark)
      · exact if_neg hdigit
    rw [run, hstep]
    cases fs with
    | nil => rfl
    | cons f fs =>
      rw [resume, run]
      rfl

/-- The digits of a power are read in the same way from either state before them. -/
theorem run_power {ds : List Char} (hst : st ∈ [State.exponent, .exponentSign])
    (hd : ∀ c ∈ ds, c.isDigit) (hne : ds ≠ []) (hr : ValueEnds r) :
    run fs st (encode ds ++ r) = resume fs r := by
  obtain ⟨c, ds, rfl⟩ := List.exists_cons_of_ne_nil hne
  obtain ⟨hc, hrest⟩ := List.forall_mem_cons.1 hd
  have hsign : UInt8.ofNat c.toNat ≠ 0x2B ∧ UInt8.ofNat c.toNat ≠ 0x2D := by
    constructor <;>
    · intro h
      have := isDigit_byte hc
      rw [h] at this
      cases this
  have hfirst : step fs st (UInt8.ofNat c.toNat) = .go fs .power := by
    simp only [List.mem_cons, List.not_mem_nil, or_false] at hst
    rcases hst with rfl | rfl
    · exact (if_neg (not_or.2 hsign)).trans (if_pos (isDigit_byte hc))
    · exact if_pos (isDigit_byte hc)
  rw [encode_digit hc, List.cons_append, run_go hfirst, run_digits (by decide) hrest,
    run_ended (by decide) hr]

theorem run_exponent (e : Exponent) (hst : st ∈ [State.zero, .whole, .fraction])
    (hr : ValueEnds r) : run fs st (encode e.text ++ r) = resume fs r := by
  have hmark : ∃ b, (b = 0x65 ∨ b = 0x45) ∧ ∀ cs, encode (e.mark :: cs) = b :: encode cs := by
    rcases e.mark_eq with h | h
    · exact ⟨0x65, .inl rfl, fun cs => by rw [h]; rfl⟩
    · exact ⟨0x45, .inr rfl, fun cs => by rw [h]; rfl⟩
  obtain ⟨b, hb, hencode⟩ := hmark
  have hgo : step fs st b = .go fs .exponent := by
    simp only [List.mem_cons, List.not_mem_nil, or_false] at hst
    rcases hst with rfl | rfl | rfl <;> rcases hb with rfl | rfl <;> rfl
  rw [Exponent.text, hencode, List.cons_append, run_go hgo]
  cases hsign : e.sign with
  | none => exact run_power (by decide) e.digit_of_mem e.digits_ne_nil hr
  | some c =>
    have hsigned : ∃ b, (b = 0x2B ∨ b = 0x2D) ∧ ∀ cs, encode (c :: cs) = b :: encode cs := by
      rcases e.sign_eq c hsign with rfl | rfl
      · exact ⟨0x2B, .inl rfl, fun _ => rfl⟩
      · exact ⟨0x2D, .inr rfl, fun _ => rfl⟩
    obtain ⟨b', hb', hencode'⟩ := hsigned
    have hgo' : step fs .exponent b' = .go fs .exponentSign := if_pos hb'
    rw [Option.toList_some, List.singleton_append, hencode', List.cons_append, run_go hgo',
      run_power (by decide) e.digit_of_mem e.digits_ne_nil hr]

theorem run_exponent? (e : Option Exponent) (hst : st ∈ [State.zero, .whole, .fraction])
    (hr : ValueEnds r) : run fs st (encode (e.elim [] Exponent.text) ++ r) = resume fs r := by
  cases e with
  | none =>
    have hended : ∀ st ∈ [State.zero, .whole, .fraction],
        st ∈ [State.zero, .whole, .fraction, .power] := by decide
    exact run_ended (hended st hst) hr
  | some e => exact run_exponent e hst hr

theorem run_numeral_rest (n : Numeral) (hst : st ∈ [State.zero, .whole]) (hr : ValueEnds r) :
    run fs st (encode n.rest ++ r) = resume fs r := by
  have hdigits := n.digit_of_mem
  rw [Numeral.rest]
  cases hfraction : n.fraction with
  | nil =>
    have hwhole : ∀ st ∈ [State.zero, .whole], st ∈ [State.zero, .whole, .fraction] := by decide
    exact run_exponent? n.exponent (hwhole st hst) hr
  | cons c ds =>
    rw [hfraction, List.forall_mem_cons] at hdigits
    obtain ⟨hc, hds⟩ := hdigits
    have hpoint : step fs st 0x2E = .go fs .point := by
      simp only [List.mem_cons, List.not_mem_nil, or_false] at hst
      rcases hst with rfl | rfl <;> rfl
    have hfirst : step fs .point (UInt8.ofNat c.toNat) = .go fs .fraction :=
      if_pos (isDigit_byte hc)
    rw [if_neg (List.cons_ne_nil c ds), encode_append, List.append_assoc, encode_ascii (by decide),
      encode_digit hc, List.cons_append, List.cons_append]
    refine (run_go hpoint).trans ?_
    rw [run_go hfirst, run_digits (by decide) hds, run_exponent? n.exponent (by decide) hr]

/-- The whole part of a number, at its beginning or after its sign. -/
theorem run_whole (n : Nat) (hst : st ∈ [State.value, .minus]) :
    ∃ st' ∈ [State.zero, .whole],
      run fs st (encode (Decimal.digits n) ++ s) = run fs st' s := by
  simp only [List.mem_cons, List.not_mem_nil, or_false] at hst
  by_cases h0 : n = 0
  · subst h0
    refine ⟨.zero, by decide, ?_⟩
    rcases hst with rfl | rfl <;> rfl
  · refine ⟨.whole, by decide, ?_⟩
    obtain ⟨c, ds, hds, hc0⟩ := head_digits h0
    have hdigits : ∀ x ∈ c :: ds, x.isDigit := fun x hx => Decimal.isDigit_of_mem_digits (hds ▸ hx)
    obtain ⟨hc, hrest⟩ := List.forall_mem_cons.1 hdigits
    have hrange : 48 ≤ c.toNat ∧ c.toNat ≤ 57 := Char.isDigit_iff_toNat.1 hc
    have hne (b : UInt8) (hb : c.toNat ≠ b.toNat) : UInt8.ofNat c.toNat ≠ b := by
      rwa [Ne, eq_iff (by omega)]
    have hfirst : step fs st (UInt8.ofNat c.toNat) = .go fs .whole := by
      have hzero := hne 0x30 fun h => hc0 (Char.toNat_inj.1 h)
      have hminus := hne 0x2D (by simp only [UInt8.reduceToNat]; omega)
      have hn := hne 0x6E (by simp only [UInt8.reduceToNat]; omega)
      have ht := hne 0x74 (by simp only [UInt8.reduceToNat]; omega)
      have hf := hne 0x66 (by simp only [UInt8.reduceToNat]; omega)
      rcases hst with rfl | rfl
      · show beginValue fs (UInt8.ofNat c.toNat) = _
        simp only [beginValue, not_blank_of_isDigit (isDigit_byte hc), Bool.false_eq_true, if_false,
          if_neg hzero, if_neg hminus, if_neg hn, if_neg ht, if_neg hf, isDigit_byte hc, if_true]
      · exact (if_neg hzero).trans (if_pos (isDigit_byte hc))
    rw [hds, encode_digit hc, List.cons_append, run_go hfirst, run_digits (by decide) hrest]

theorem run_numeral (n : Numeral) (hr : ValueEnds r) :
    run fs .value (encode n.text ++ r) = resume fs r := by
  have hwhole (st : State) (hst : st ∈ [State.value, .minus]) :
      run fs st (encode (Decimal.digits n.whole ++ n.rest) ++ r) = resume fs r := by
    obtain ⟨st', hst', hrun⟩ := run_whole (s := encode n.rest ++ r) n.whole hst
    rw [encode_append, List.append_assoc, hrun, run_numeral_rest n hst' hr]
  rw [Numeral.text]
  cases n.negative with
  | false => exact hwhole .value (by decide)
  | true => exact hwhole .minus (by decide)

/-! ## Lists and objects -/

/-- A run goes over the text where a value is expected. -/
def Skips (text : List Char) : Prop :=
  ∀ fs r, ValueEnds r → run fs .value (encode text ++ r) = resume fs r

/-- An item of a list or the value of a member. -/
theorem run_item {i : Item} (h : Skips i.text) (hs : ValueEnds s) :
    run (f :: fs) .value (encode i.full ++ s) = run (f :: fs) .after s := by
  rw [Item.full, encode_append, encode_append, List.append_assoc, List.append_assoc,
    run_space _ step_value_blank, h _ _ (valueEnds_space _ hs)]
  exact run_space _ step_after_blank

/-- Items after the first one, and the closing bracket. -/
theorem run_items {items : List Item} (h : ∀ i ∈ items, Skips i.text) :
    run (.list :: fs) .after (encode (more (items.map Item.full)) ++ 0x5D :: r) = resume fs r := by
  induction items with
  | nil => exact run_end rfl
  | cons i items ih =>
    obtain ⟨hi, hitems⟩ := List.forall_mem_cons.1 h
    rw [List.map_cons, encode_more]
    refine (run_go rfl).trans ?_
    rw [run_item hi (valueEnds_more _ (valueEnds_bracket r)), ih hitems]

theorem run_brackets {w : Space} {items : List Item} (hv : ∀ i ∈ items, ValueText i.value i.text)
    (h : ∀ i ∈ items, Skips i.text) : Skips (brackets w items) := by
  intro fs r hr
  have hopen (s : List UInt8) : run fs .value (0x5B :: s) = run (.list :: fs) .opened s := run_go rfl
  have hclose : encode [']'] ++ r = 0x5D :: r := rfl
  rw [brackets, encode_ascii (by decide), List.cons_append]
  refine (hopen _).trans ?_
  rw [encode_append, encode_append, List.append_assoc, List.append_assoc, hclose,
    run_space _ step_opened_blank]
  cases items with
  | nil => exact run_end rfl
  | cons i items =>
    obtain ⟨hi, hitems⟩ := List.forall_mem_cons.1 h
    have hopened (s : List UInt8) : run (.list :: fs) .opened (encode i.full ++ s) =
        run (.list :: fs) .value (encode i.full ++ s) := by
      obtain ⟨b, t, ht, hb⟩ := (hv i List.mem_cons_self).begins
      have hstep : step (.list :: fs) .opened b = step (.list :: fs) .value b := by
        have hclose : b ≠ Frame.list.close := hb.ne_bracket
        exact (if_neg (ne_true_of_eq_false hb.not_blank)).trans (if_neg hclose)
      rw [Item.full, encode_append, encode_append, List.append_assoc, List.append_assoc,
        run_space _ step_opened_blank, run_space _ step_value_blank, ht, List.cons_append, run, run,
        hstep]
    rw [List.map_cons, intercalate_comma, encode_append, List.append_assoc, hopened,
      run_item hi (valueEnds_more _ (valueEnds_bracket r)), run_items hitems]

/-- A member of an object, from a state in which a key is expected. -/
theorem run_pair {p : Pair} (h : Skips p.item.text) (hs : ValueEnds s)
    (hblank : ∀ b, isBlank b → step (f :: fs) st b = .go (f :: fs) st)
    (hquote : step (f :: fs) st 0x22 = .go (f :: fs) (.string true)) :
    run (f :: fs) st (encode p.full ++ s) = run (f :: fs) .after s := by
  have hkey (t : List UInt8) : run (f :: fs) st (encode (literal p.key) ++ t) =
      run (f :: fs) .colon t := by
    have hclose : encode ['"'] ++ t = 0x22 :: t := rfl
    rw [literal, encode_ascii (by decide), List.cons_append]
    refine (run_go hquote).trans ?_
    rw [encode_append, List.append_assoc, hclose, run_pieces]
    exact run_go rfl
  rw [Pair.full, encode_append, encode_append, encode_append, List.append_assoc, List.append_assoc,
    List.append_assoc, run_space _ hblank, hkey, run_space _ step_colon_blank,
    encode_ascii (by decide), List.cons_append]
  refine (run_go rfl).trans ?_
  exact run_item h hs

/-- Members after the first one, and the closing brace. -/
theorem run_members {pairs : List Pair} (h : ∀ p ∈ pairs, Skips p.item.text) :
    run (.object :: fs) .after (encode (more (pairs.map Pair.full)) ++ 0x7D :: r) =
      resume fs r := by
  induction pairs with
  | nil => exact run_end rfl
  | cons p pairs ih =>
    obtain ⟨hp, hpairs⟩ := List.forall_mem_cons.1 h
    rw [List.map_cons, encode_more]
    refine (run_go rfl).trans ?_
    rw [run_pair hp (valueEnds_more _ (valueEnds_brace r)) step_key_blank rfl, ih hpairs]

theorem run_braces {w : Space} {pairs : List Pair} (h : ∀ p ∈ pairs, Skips p.item.text) :
    Skips (braces w pairs) := by
  intro fs r hr
  have hopen (s : List UInt8) : run fs .value (0x7B :: s) = run (.object :: fs) .opened s :=
    run_go rfl
  have hclose : encode ['\x7d'] ++ r = 0x7D :: r := rfl
  rw [braces, encode_ascii (by decide), List.cons_append]
  refine (hopen _).trans ?_
  rw [encode_append, encode_append, List.append_assoc, List.append_assoc, hclose,
    run_space _ step_opened_blank]
  cases pairs with
  | nil => exact run_end rfl
  | cons p pairs =>
    obtain ⟨hp, hpairs⟩ := List.forall_mem_cons.1 h
    rw [List.map_cons, intercalate_comma, encode_append, List.append_assoc,
      run_pair hp (valueEnds_more _ (valueEnds_brace r)) step_opened_blank rfl, run_members hpairs]

/-! ## All values -/

/-- **Values.** Any value is skipped up to its end, at any depth. -/
theorem run_value {v : Value} {text : List Char} (h : ValueText v text) : Skips text := by
  induction h with
  | null =>
    intro fs r _
    cases fs <;> rfl
  | bool b =>
    intro fs r _
    cases b <;> cases fs <;> rfl
  | number n => exact fun fs r hr => run_numeral n hr
  | string ps =>
    intro fs r _
    have hclose : encode ['"'] ++ r = 0x22 :: r := rfl
    rw [literal, encode_ascii (by decide), List.cons_append]
    refine (run_go rfl).trans ?_
    rw [encode_append, List.append_assoc, hclose, run_pieces]
    exact run_end rfl
  | list w items hv ih => exact run_brackets hv ih
  | object w pairs _ ih => exact run_braces ih

end Agenda.Json.Skip
