/-!
# Blank characters

The characters with the Unicode property `White_Space`, and the cutting of texts at them. Words have no
blanks in them, and words that are joined by spaces are the words of the joined text.

* `not_blank_of_mem_words`: no word has a blank in it.
* `words_intercalate`: joined words are found again.
-/
namespace Agenda.Text

/-- The character has the Unicode property `White_Space`. -/
def isBlank (c : Char) : Bool :=
  let n := c.toNat
  (0x9 ≤ n && n ≤ 0xD) || n == 0x20 || n == 0x85 || n == 0xA0 || n == 0x1680 ||
    (0x2000 ≤ n && n ≤ 0x200A) || n == 0x2028 || n == 0x2029 || n == 0x202F || n == 0x205F ||
    n == 0x3000

/-- The text without the blanks it begins with. -/
def trimStart (cs : List Char) : List Char := cs.dropWhile isBlank

/-- The text without the blanks it begins and ends with. -/
def trim (cs : List Char) : List Char := (trimStart (trimStart cs).reverse).reverse

/-- One character into a list of words; `word` is the word being read, last character first. -/
def wordsStep (state : List (List Char) × List Char) (c : Char) :
    List (List Char) × List Char :=
  if isBlank c then
    if state.2.isEmpty then state else (state.2.reverse :: state.1, [])
  else (state.1, c :: state.2)

/-- The maximal runs of characters that are not blank, in order. -/
def words (cs : List Char) : List (List Char) :=
  let (done, word) := cs.foldl wordsStep ([], [])
  (if word.isEmpty then done else word.reverse :: done).reverse

/-! ## The words of a text -/

variable {cs w : List Char} {c : Char}

/-- There are no blanks in the words that were read, nor in the one that is being read. -/
def NoBlanks (state : List (List Char) × List Char) : Prop :=
  (∀ w ∈ state.1, ∀ c ∈ w, isBlank c = false) ∧ ∀ c ∈ state.2, isBlank c = false

theorem noBlanks_step {state : List (List Char) × List Char} (h : NoBlanks state) (c : Char) :
    NoBlanks (wordsStep state c) := by
  obtain ⟨hdone, hword⟩ := h
  cases hc : isBlank c with
  | true =>
    rw [wordsStep, if_pos hc]
    split
    · exact ⟨hdone, hword⟩
    · refine ⟨fun w hw => ?_, List.forall_mem_nil _⟩
      rcases List.mem_cons.1 hw with rfl | hw
      · exact fun d hd => hword d (List.mem_reverse.1 hd)
      · exact hdone w hw
  | false =>
    rw [wordsStep, hc]
    exact ⟨hdone, List.forall_mem_cons.2 ⟨hc, hword⟩⟩

theorem noBlanks_foldl {state : List (List Char) × List Char} (h : NoBlanks state) :
    NoBlanks (cs.foldl wordsStep state) := by
  induction cs generalizing state with
  | nil => exact h
  | cons c cs ih => exact ih (noBlanks_step h c)

theorem not_blank_of_mem_words (hw : w ∈ words cs) (hc : c ∈ w) : isBlank c = false := by
  obtain ⟨hdone, hword⟩ : NoBlanks (cs.foldl wordsStep ([], [])) :=
    noBlanks_foldl ⟨List.forall_mem_nil _, List.forall_mem_nil _⟩
  simp only [words, List.mem_reverse] at hw
  split at hw
  · exact hdone w hw c hc
  · rcases List.mem_cons.1 hw with rfl | hw
    · exact hword c (List.mem_reverse.1 hc)
    · exact hdone w hw c hc

theorem foldl_wordsStep_word (done : List (List Char)) (word : List Char)
    (hw : ∀ c ∈ w, isBlank c = false) :
    w.foldl wordsStep (done, word) = (done, w.reverse ++ word) := by
  induction w generalizing word with
  | nil => rfl
  | cons c w ih =>
    have hc : wordsStep (done, word) c = (done, c :: word) := by
      rw [wordsStep, hw c List.mem_cons_self]
      rfl
    rw [List.foldl_cons, hc, ih _ fun d hd => hw d (List.mem_cons_of_mem c hd)]
    simp

/-- After words that are joined by spaces, the last one is being read. -/
theorem foldl_wordsStep_intercalate {ws : List (List Char)} (done : List (List Char))
    (w : List Char) (h : ∀ v ∈ w :: ws, v ≠ [] ∧ ∀ c ∈ v, isBlank c = false) :
    ∃ init last, (List.intercalate [' '] (w :: ws)).foldl wordsStep (done, []) = (init, last) ∧
      last ≠ [] ∧ (last.reverse :: init).reverse = done.reverse ++ w :: ws := by
  induction ws generalizing done w with
  | nil =>
    obtain ⟨hne, hw⟩ := h w List.mem_cons_self
    refine ⟨done, w.reverse, ?_, by simpa using hne, by simp⟩
    rw [List.intercalate_singleton, foldl_wordsStep_word done [] hw, List.append_nil]
  | cons v ws ih =>
    obtain ⟨hne, hw⟩ := h w List.mem_cons_self
    obtain ⟨init, last, hfold, hlast, hinit⟩ := ih (w :: done) v
      fun u hu => h u (List.mem_cons_of_mem w hu)
    have hblank : wordsStep (done, w.reverse) ' ' = (w :: done, []) := by
      simp [wordsStep, hne, isBlank]
    refine ⟨init, last, ?_, hlast, by simpa using hinit⟩
    rw [List.intercalate_cons_cons, List.append_assoc, List.foldl_append,
      foldl_wordsStep_word done [] hw, List.append_nil, List.cons_append, List.nil_append,
      List.foldl_cons, hblank, hfold]

/-- Words that are joined by spaces are found again. -/
theorem words_intercalate {ws : List (List Char)}
    (h : ∀ w ∈ ws, w ≠ [] ∧ ∀ c ∈ w, isBlank c = false) :
    words (List.intercalate [' '] ws) = ws := by
  cases ws with
  | nil => rfl
  | cons w ws =>
    obtain ⟨init, last, hfold, hlast, hinit⟩ := foldl_wordsStep_intercalate [] w h
    simp only [words, hfold, List.isEmpty_iff, if_neg hlast, hinit]
    rfl

end Agenda.Text
