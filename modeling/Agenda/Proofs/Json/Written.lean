import Agenda.Proofs.Json.Grammar

/-!
# What is written is JSON

Readers of any kind have to cope with what is written, also those that look for one member and skip the
rest. So what is written is described by the grammar, with the value that each text is one of.

* `exists_pieces`: a written string is made of pieces that stand for the text.
* `valueText_string`, `valueText_integer`: written values of one type.
* `objectText_written`: a written object is one of its members.
-/
namespace Agenda.Json

open Text.Utf8

/-! ## Strings -/

/-- The digits of the escape of a control character are four, and they denote it. -/
theorem controlEscape_digits : ∀ n < 0x20, ∃ ds, controlEscape (Char.ofNat n) = '\\' :: 'u' :: ds ∧
    (ds.length = 4 ∧ ∀ c ∈ ds, c ∈ hexDigits) ∧ unitValue ds = n := by
  have hall : ∀ n < 0x20,
      controlEscape (Char.ofNat n) = '\\' :: 'u' :: (controlEscape (Char.ofNat n)).drop 2 ∧
        (((controlEscape (Char.ofNat n)).drop 2).length = 4 ∧
          ∀ c ∈ (controlEscape (Char.ofNat n)).drop 2, c ∈ hexDigits) ∧
        unitValue ((controlEscape (Char.ofNat n)).drop 2) = n := by decide
  exact fun n hn => ⟨_, hall n hn⟩

/-- The piece stands for the character, whatever follows. -/
def Piece.StandsFor (p : Piece) (c : Char) : Prop :=
  ∀ ps, unescape (p :: ps) = (unescape ps).map (c :: ·)

theorem Piece.standsFor_letter {escape : Char × Char} (h : escape ∈ letterEscapes) :
    (Piece.letter escape h).StandsFor escape.2 := fun _ => rfl

/-- A control character is no half of a surrogate pair. -/
theorem Piece.standsFor_unit {ds : List Char} (h : ds.length = 4 ∧ ∀ c ∈ ds, c ∈ hexDigits)
    (hv : unitValue ds < 0x20) : (Piece.unit ds h).StandsFor (Char.ofNat (unitValue ds)) := by
  intro ps
  have htrail : ¬ IsTrail (unitValue ds) := by
    rw [IsTrail]
    omega
  have hlead : ¬ IsLead (unitValue ds) := by
    rw [IsLead]
    omega
  rw [unescape, unescapeAfter, if_neg htrail, if_neg hlead]
  rfl

/-- **One character.** It is written as one piece that stands for it. -/
theorem exists_piece (c : Char) : ∃ p : Piece, p.text = writeChar c ∧ p.StandsFor c := by
  have letter {l c : Char} (h : (l, c) ∈ letterEscapes) :
      ∃ p : Piece, p.text = ['\\', l] ∧ p.StandsFor c := ⟨_, rfl, Piece.standsFor_letter h⟩
  unfold writeChar
  split
  · rename_i h
    rcases h with rfl | rfl
    · exact letter (by decide)
    · exact letter (by decide)
  rename_i hquote
  split
  · rename_i h; subst h
    exact letter (by decide)
  split
  · rename_i h; subst h
    exact letter (by decide)
  split
  · rename_i h; subst h
    exact letter (by decide)
  split
  · rename_i h; subst h
    exact letter (by decide)
  split
  · rename_i h; subst h
    exact letter (by decide)
  split
  · rename_i h
    obtain ⟨ds, htext, hds, hv⟩ := controlEscape_digits c.toNat h
    have hp := Piece.standsFor_unit hds (hv ▸ h)
    rw [hv, Char.ofNat_toNat] at hp
    rw [Char.ofNat_toNat] at htext
    exact ⟨.unit ds hds, htext.symm, hp⟩
  · rename_i h
    rw [not_or] at hquote
    exact ⟨.plain c ⟨hquote.1, hquote.2, Nat.le_of_not_lt h⟩, rfl, fun _ => rfl⟩

theorem exists_pieces_chars (cs : List Char) :
    ∃ ps, ps.flatMap Piece.text = cs.flatMap writeChar ∧ unescape ps = some cs := by
  induction cs with
  | nil => exact ⟨[], rfl, rfl⟩
  | cons c cs ih =>
    obtain ⟨p, htext, hp⟩ := exists_piece c
    obtain ⟨ps, htexts, hps⟩ := ih
    refine ⟨p :: ps, ?_, ?_⟩
    · rw [List.flatMap_cons, List.flatMap_cons, htext, htexts]
    · rw [hp, hps]
      rfl

/-- **Strings.** A written string is made of pieces that stand for the text. -/
theorem exists_pieces (s : String) : ∃ ps, writeString s = literal ps ∧ unescape ps = some s.toList := by
  obtain ⟨ps, htext, hps⟩ := exists_pieces_chars s.toList
  refine ⟨ps, ?_, hps⟩
  rw [literal, htext]
  rfl

/-! ## Values -/

theorem valueText_string (s : String) : ValueText (.string (some s.toList)) (writeString s) := by
  obtain ⟨ps, htext, hps⟩ := exists_pieces s
  rw [htext, ← hps]
  exact .string ps

/-- The numeral of a whole number. -/
def Numeral.ofInt : Int → Numeral
  | .ofNat n => ofNat n
  | .negSucc n => { ofNat (n + 1) with negative := true }

theorem valueText_integer (n : Int) : ValueText (.number (.ofInt n)) (writeInteger n) := by
  have htext : (Numeral.ofInt n).text = writeInteger n := by
    cases n with
    | ofNat n => exact List.append_nil _
    | negSucc n =>
      rw [writeInteger, Decimal.signedDigits, if_pos (Int.negSucc_lt_zero n)]
      exact congrArg ('-' :: ·) (List.append_nil _)
  rw [← htext]
  exact .number _

/-! ## Objects -/

/-- A member of an object that is written without blanks. -/
structure Writing where
  name : String
  value : Value
  text : List Char
  written : ValueText value text

namespace Writing

def full (m : Writing) : List Char := writeMember m.name m.text

def entry (m : Writing) : Entry := ⟨some m.name.toList, m.value⟩

theorem exists_pair (m : Writing) : ∃ p : Pair, p.full = m.full ∧ p.entry = m.entry ∧
    ValueText p.item.value p.item.text := by
  obtain ⟨ps, htext, hps⟩ := exists_pieces m.name
  refine ⟨.bare ps m.value m.text, ?_, ?_, m.written⟩
  · rw [full, writeMember, htext]
    simp [Pair.full, Pair.bare, Item.full, Space.empty]
  · rw [entry, ← hps]
    rfl

end Writing

theorem exists_pairs (ms : List Writing) : ∃ pairs : List Pair,
    pairs.map Pair.full = ms.map Writing.full ∧ pairs.map Pair.entry = ms.map Writing.entry ∧
      ∀ p ∈ pairs, ValueText p.item.value p.item.text := by
  induction ms with
  | nil => exact ⟨[], rfl, rfl, List.forall_mem_nil _⟩
  | cons m ms ih =>
    obtain ⟨p, hfull, hentry, hp⟩ := m.exists_pair
    obtain ⟨pairs, hfulls, hentries, hpairs⟩ := ih
    refine ⟨p :: pairs, ?_, ?_, List.forall_mem_cons.2 ⟨hp, hpairs⟩⟩
    · rw [List.map_cons, List.map_cons, hfull, hfulls]
    · rw [List.map_cons, List.map_cons, hentry, hentries]

/-- **Objects.** A written object is one of its members. -/
theorem objectText_written (ms : List Writing) :
    ObjectText (ms.map Writing.entry) (writeObject (ms.map Writing.full)) := by
  obtain ⟨pairs, hfull, hentry, hpairs⟩ := exists_pairs ms
  have h := ObjectText.intro .empty .empty pairs .empty hpairs
  rw [hentry, braces, hfull] at h
  simpa [Space.empty, writeObject] using h

end Agenda.Json
