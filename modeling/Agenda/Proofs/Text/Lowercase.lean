import Agenda.Text.Lowercase
import Mathlib.Data.List.Basic

/-!
# Lower case is reached in one step

No character of a text in lower case has a small letter other than itself, so the lower case of such
a text is the text.

* `isSmall_of_mem_lower`: what the lower case of a text is made of.
* `lowered_lowered`: lower case a second time changes nothing.
* `lowered_eq_self`: neither does it change a text of small letters.
-/
namespace Agenda.Text

/-- A character that lower case leaves alone, whatever stands around it. -/
def isSmall (c : Char) : Bool := c ≠ '\u03A3' && c ≠ '\u0130' && lowerChar c = c

/-! ## Characters -/

/-- Letters from the first to the last, by a step. -/
structure Letters where
  first : Nat
  last : Nat
  step : Nat

/-- The letter is one of these. -/
def Letters.Has (ls : Letters) (n : Nat) : Prop :=
  ls.first ≤ n ∧ n ≤ ls.last ∧ (n - ls.first) % ls.step = 0

instance (ls : Letters) (n : Nat) : Decidable (ls.Has n) := inferInstanceAs (Decidable (_ ∧ _ ∧ _))

/-- The capital letters of a range. -/
def capitals (r : Nat × Nat × Nat × Int) : Letters := ⟨r.1, r.2.1, r.2.2.1⟩

/-- The small letters of a range. -/
def smalls (r : Nat × Nat × Nat × Int) : Letters :=
  ⟨(r.1 + r.2.2.2).toNat, (r.2.1 + r.2.2.2).toNat, r.2.2.1⟩

/-- The two have no letter in common: the one ends before the other begins, or capital and small
letters alternate. -/
def Letters.misses (small capital : Letters) : Bool :=
  Nat.blt small.last capital.first || Nat.blt capital.last small.first ||
    (Nat.beq capital.step 2 && (Nat.beq small.step 2 || Nat.beq small.first small.last) &&
      Nat.beq ((small.first + capital.first) % 2) 1)

/-- The small letters of a range are characters, and those of ASCII are small. -/
def fits (r : Nat × Nat × Nat × Int) : Bool :=
  0 ≤ r.1 + r.2.2.2 && (0x80 ≤ (smalls r).first || 0x61 ≤ (smalls r).first && (smalls r).last ≤ 0x7A) &&
    ((smalls r).last < 0xD800 || 0xDFFF < (smalls r).first && (smalls r).last < 0x110000)

theorem smalls_miss_capitals :
    ∀ r ∈ capitalRanges, fits r ∧ ∀ s ∈ (0x130, 0x130, 1, 0) :: capitalRanges,
      (smalls r).misses (capitals s) := by
  have h : (capitalRanges.all fun r => fits r && ((0x130, 0x130, 1, 0) :: capitalRanges).all
      fun s => (smalls r).misses (capitals s)) = true := by decide +kernel
  simpa only [List.all_eq_true, Bool.and_eq_true] using h

theorem Letters.not_has_of_misses {small capital : Letters} {n : Nat}
    (h : small.misses capital) (hn : small.Has n) : ¬ capital.Has n := by
  obtain ⟨hfirst, hlast, hstep⟩ := hn
  rintro ⟨hfirst', hlast', hstep'⟩
  simp only [misses, Bool.or_eq_true, Bool.and_eq_true, Nat.blt_eq, Nat.beq_eq] at h
  obtain (h | h) | ⟨⟨htwo, hsmall⟩, hodd⟩ := h
  · omega
  · omega
  · rw [htwo] at hstep'
    obtain hsmall | hsmall := hsmall
    · rw [hsmall] at hstep
      omega
    · omega

theorem toNat_ofNat {n : Nat} (h : n.isValidChar) : (Char.ofNat n).toNat = n := by
  rw [Char.ofNat, dif_pos h]
  rfl

theorem lowerChar_eq_self {c : Char} (hc : 0x80 ≤ c.toNat)
    (h : ∀ r ∈ capitalRanges, ¬ (capitals r).Has c.toNat) : lowerChar c = c := by
  simp only [lowerChar, if_neg (Nat.not_lt.2 hc)]
  split
  · next first last step offset hr =>
    have hin := List.find?_some hr
    simp only [Bool.and_eq_true, decide_eq_true_eq, beq_iff_eq] at hin
    exact absurd ⟨hin.1.1, hin.1.2, hin.2⟩ (h _ (List.mem_of_find?_eq_some hr))
  · rfl

/-- A character above ASCII stays, or becomes a small letter of the table. -/
theorem lowerChar_cases {c : Char} (hc : 0x80 ≤ c.toNat) :
    lowerChar c = c ∨ ∃ r ∈ capitalRanges, (smalls r).Has (lowerChar c).toNat := by
  simp only [lowerChar, if_neg (Nat.not_lt.2 hc)]
  split
  · next first last step offset hr =>
    have hmem := List.mem_of_find?_eq_some hr
    have hin := List.find?_some hr
    simp only [Bool.and_eq_true, decide_eq_true_eq, beq_iff_eq] at hin
    obtain ⟨⟨hfirst, hlast⟩, hstep⟩ := hin
    have hfits := (smalls_miss_capitals _ hmem).1
    simp only [fits, Bool.and_eq_true, Bool.or_eq_true, decide_eq_true_eq] at hfits
    simp only [smalls] at hfits
    refine .inr ⟨_, hmem, ?_⟩
    rw [toNat_ofNat (show Nat.isValidChar _ by unfold Nat.isValidChar; omega)]
    refine ⟨by simp only [smalls]; omega, by simp only [smalls]; omega, ?_⟩
    have hsame : (c.toNat + offset).toNat - (first + offset).toNat = c.toNat - first := by omega
    simp only [smalls, hsame]
    exact hstep
  · exact .inl rfl

theorem isSmall_toLower : ∀ n < 0x80, isSmall (Char.ofNat n).toLower := by
  decide +kernel

theorem isSmall_ascii : ∀ n < 0x80, (n < 0x41 ∨ 0x5A < n) → isSmall (Char.ofNat n) := by
  decide +kernel

theorem isSmall_lowerChar {c : Char} (hsigma : c ≠ '\u03A3') (hdotted : c ≠ '\u0130') :
    isSmall (lowerChar c) := by
  by_cases hc : c.toNat < 0x80
  · have h := isSmall_toLower c.toNat hc
    rwa [Char.ofNat_toNat, ← show lowerChar c = c.toLower from if_pos hc] at h
  · rcases lowerChar_cases (Nat.not_lt.1 hc) with hfix | ⟨r, hr, hhas⟩
    · simp [isSmall, hfix, hsigma, hdotted]
    · obtain ⟨hfits, hmiss⟩ := smalls_miss_capitals r hr
      have hnot : ∀ s ∈ (0x130, 0x130, 1, 0) :: capitalRanges, ¬ (capitals s).Has (lowerChar c).toNat :=
        fun s hs => Letters.not_has_of_misses (hmiss s hs) hhas
      obtain ⟨hdot, hnot⟩ := List.forall_mem_cons.1 hnot
      by_cases hd : (lowerChar c).toNat < 0x80
      · obtain ⟨hfirst, hlast, -⟩ := hhas
        simp only [fits, Bool.and_eq_true, Bool.or_eq_true, decide_eq_true_eq] at hfits
        have h := isSmall_ascii _ hd (by omega)
        rwa [Char.ofNat_toNat] at h
      · have hfix := lowerChar_eq_self (Nat.not_lt.1 hd) hnot
        have hsigma' : lowerChar c ≠ '\u03A3' := fun h =>
          hnot (0x3A3, 0x3AB, 1, 32) (by decide +kernel) (by rw [h]; decide)
        have hdotted' : lowerChar c ≠ '\u0130' := fun h => hdot (by rw [h]; decide)
        simp [isSmall, hfix, hsigma', hdotted']

/-! ## Texts -/

theorem isSmall_of_mem_lowerOnto {cs done before : List Char} (h : ∀ c ∈ done, isSmall c) :
    ∀ c ∈ lowerOnto done before cs, isSmall c := by
  induction cs generalizing done before with
  | nil => simpa [lowerOnto] using h
  | cons c cs ih =>
    by_cases hsigma : c = '\u03A3'
    · have hfinal : isSmall '\u03C2' ∧ isSmall '\u03C3' := by decide +kernel
      rw [lowerOnto, if_pos hsigma]
      refine ih (List.forall_mem_cons.2 ⟨?_, h⟩)
      split
      · exact hfinal.1
      · exact hfinal.2
    · by_cases hdotted : c = '\u0130'
      · have hdot : isSmall '\u0307' ∧ isSmall 'i' := by decide +kernel
        rw [lowerOnto, if_neg hsigma, if_pos hdotted]
        exact ih (List.forall_mem_cons.2 ⟨hdot.1, List.forall_mem_cons.2 ⟨hdot.2, h⟩⟩)
      · rw [lowerOnto, if_neg hsigma, if_neg hdotted]
        exact ih (List.forall_mem_cons.2 ⟨isSmall_lowerChar hsigma hdotted, h⟩)

theorem isSmall_of_mem_lower {cs : List Char} : ∀ c ∈ lower cs, isSmall c :=
  isSmall_of_mem_lowerOnto (List.forall_mem_nil _)

theorem lowerOnto_eq_of_isSmall {cs done before : List Char} (h : ∀ c ∈ cs, isSmall c) :
    lowerOnto done before cs = done.reverse ++ cs := by
  induction cs generalizing done before with
  | nil => simp [lowerOnto]
  | cons c cs ih =>
    obtain ⟨hc, hcs⟩ := List.forall_mem_cons.1 h
    simp only [isSmall, Bool.and_eq_true, decide_eq_true_eq] at hc
    rw [lowerOnto, if_neg hc.1.1, if_neg hc.1.2, hc.2, ih hcs, List.reverse_cons,
      List.append_assoc, List.singleton_append]

theorem lower_eq_self {cs : List Char} (h : ∀ c ∈ cs, isSmall c) : lower cs = cs := by
  rw [lower, lowerOnto_eq_of_isSmall h, List.reverse_nil, List.nil_append]

theorem lowered_eq_self {s : String} (h : ∀ c ∈ s.toList, isSmall c) : lowered s = s := by
  rw [lowered, lower_eq_self h, String.ofList_toList]

theorem isSmall_of_mem_lowered {s : String} : ∀ c ∈ (lowered s).toList, isSmall c := by
  rw [lowered, String.toList_ofList]
  exact isSmall_of_mem_lower

/-- Lower case a second time changes nothing. -/
theorem lowered_lowered (s : String) : lowered (lowered s) = lowered s :=
  lowered_eq_self isSmall_of_mem_lowered

end Agenda.Text
