import Agenda.Cron.Crontab
import Agenda.Proofs.Cron.Grammar

/-!
# Lists of weekdays

A crontab counts weekdays from 0, Sunday, and 7 is Sunday too. The list is put into names number by
number, term by term, and each term is read from its names. What is lost is what the two numbers of a
range say together: a range that ends with 7 ends with the name of the first day.

* `WeekdayTerm`, `WeekdayTerm.Denotes`: the terms of a list, and the days that they denote.
* `weekdaysByName_listText`: the names that are written for a list.
* `fieldText_named`, `mem_weekdaySet`: the list as a field, and its set.
* `set?_terms_eq_none`, `readTerms_of_not_fits`: what becomes of a range that does not ascend, and of a
  step that may not be written.
-/
namespace Agenda.Cron

open Decimal

/-! ## Lists of weekdays -/

/-- A number as it may be written, with zeros in front. -/
structure Numeral where
  digits : List Char
  ne_nil : digits ≠ []
  isDigit : ∀ c ∈ digits, c.isDigit

def Numeral.value (n : Numeral) : Nat := ofDigits n.digits

def Numeral.digit (c : Char) (h : c.isDigit) : Numeral :=
  ⟨[c], List.cons_ne_nil c [], List.forall_mem_singleton.2 h⟩

/-- A term of a list of weekdays; 0 and 7 are Sunday. -/
inductive WeekdayTerm where
  | all
  | every (step : Numeral) (hstep : 1 ≤ step.value)
  | day (a : Numeral) (ha : a.value ≤ 7)
  | range (a b : Numeral) (hab : a.value ≤ b.value) (hb : b.value ≤ 7)
  | rangeEvery (a b step : Numeral) (hab : a.value ≤ b.value) (hb : b.value ≤ 7)
    (hstep : 1 ≤ step.value)

namespace WeekdayTerm

/-- The term as it is written. -/
def text : WeekdayTerm → List Char
  | all => ['*']
  | every step _ => '*' :: '/' :: step.digits
  | day a _ => a.digits
  | range a b _ _ => a.digits ++ '-' :: b.digits
  | rangeEvery a b step _ _ _ => a.digits ++ '-' :: (b.digits ++ '/' :: step.digits)

/-- The numbers that the term stands for. -/
def values : WeekdayTerm → Progression
  | all => ⟨0, 6, 1⟩
  | every step _ => ⟨0, 6, step.value⟩
  | day a _ => ⟨a.value, a.value, 1⟩
  | range a b _ _ => ⟨a.value, b.value, 1⟩
  | rangeEvery a b step _ _ _ => ⟨a.value, b.value, step.value⟩

/-- The term denotes the day, counted from 0, Sunday. -/
def Denotes (x : WeekdayTerm) (d : Nat) : Prop := ∃ v, x.values.has v ∧ v % 7 = d

/-- The step may be written. -/
def Fits (x : WeekdayTerm) : Prop := x.values.step ≤ maxNumber

/-- The range goes from Monday or later to Sunday. -/
def EndsOnSunday (x : WeekdayTerm) : Prop :=
  1 ≤ x.values.first ∧ x.values.first ≤ 6 ∧ x.values.last = 7

/-- The range goes from Sunday to Sunday. -/
def Wraps (x : WeekdayTerm) : Prop := x.values.first = 0 ∧ x.values.last = 7

theorem values_bounds (x : WeekdayTerm) :
    x.values.first ≤ x.values.last ∧ x.values.last ≤ 7 ∧ 1 ≤ x.values.step := by
  cases x with
  | all => decide
  | every step hstep => exact ⟨Nat.zero_le 6, Nat.le_succ 6, hstep⟩
  | day a ha => exact ⟨Nat.le_refl _, ha, Nat.le_refl 1⟩
  | range a b hab hb => exact ⟨hab, hb, Nat.le_refl 1⟩
  | rangeEvery a b step hab hb hstep => exact ⟨hab, hb, hstep⟩

/-! ## Names for numbers -/

/-- The name that is written for a number. -/
def nameOf (n : Numeral) : List Char := (weekdayName? n.value).getD n.digits

/-- The term with names for numbers. -/
def named : WeekdayTerm → List Char
  | all => ['*']
  | every step _ => '*' :: '/' :: step.digits
  | day a _ => nameOf a
  | range a b _ _ => nameOf a ++ '-' :: nameOf b
  | rangeEvery a b step _ _ _ => nameOf a ++ '-' :: (nameOf b ++ '/' :: step.digits)

end WeekdayTerm

open WeekdayTerm

/-- A list of terms as it is written. -/
def listText (xs : List WeekdayTerm) : List Char := List.intercalate [','] (xs.map text)

/-- A list of terms with names for numbers. -/
def listNamed (xs : List WeekdayTerm) : List Char := List.intercalate [','] (xs.map named)

variable {cs ds run : List Char} {isStep : Bool} {c : Char}

theorem weekdaysFrom_run (h : DigitsEnd cs) :
    weekdaysFrom isStep run cs = weekdayRun isStep run.reverse ++ weekdaysByName cs := by
  cases cs with
  | nil => simp [weekdaysByName, weekdaysFrom, weekdayRun]
  | cons c cs =>
    have hc := h c rfl
    simp [weekdaysByName, weekdaysFrom, hc, weekdayRun]

theorem weekdaysFrom_digits (hds : ∀ c ∈ ds, c.isDigit) (h : DigitsEnd cs) :
    weekdaysFrom isStep run (ds ++ cs) =
      weekdayRun isStep (run.reverse ++ ds) ++ weekdaysByName cs := by
  induction ds generalizing run with
  | nil => rw [List.nil_append, weekdaysFrom_run h, List.append_nil]
  | cons d ds ih =>
    rw [List.cons_append, weekdaysFrom, if_pos (hds d List.mem_cons_self),
      ih fun c hc => hds c (List.mem_cons_of_mem d hc)]
    simp

theorem weekdaysFrom_numeral (n : Numeral) (h : DigitsEnd cs) :
    weekdaysFrom isStep [] (n.digits ++ cs) = weekdayRun isStep n.digits ++ weekdaysByName cs := by
  rw [weekdaysFrom_digits n.isDigit h]
  rfl

theorem weekdaysFrom_mark (h : c.isDigit = false) :
    weekdaysFrom isStep [] (c :: cs) = c :: weekdaysFrom (c = '/') [] cs := by
  simp [weekdaysFrom, h, weekdayRun]

theorem weekdayRun_numeral (n : Numeral) :
    weekdayRun isStep n.digits = if isStep then n.digits else nameOf n := by
  simp [weekdayRun, nameOf, Numeral.value, n.ne_nil]

theorem weekdaysByName_number (n : Numeral) (h : DigitsEnd cs) :
    weekdaysByName (n.digits ++ cs) = nameOf n ++ weekdaysByName cs := by
  rw [weekdaysByName, weekdaysFrom_numeral n h, weekdayRun_numeral]
  rfl

theorem weekdaysByName_mark (h : c.isDigit = false) (hslash : c ≠ '/') :
    weekdaysByName (c :: cs) = c :: weekdaysByName cs := by
  rw [weekdaysByName, weekdaysFrom_mark h, decide_eq_false hslash]
  rfl

theorem weekdaysByName_step (n : Numeral) (h : DigitsEnd cs) :
    weekdaysByName ('/' :: (n.digits ++ cs)) = '/' :: (n.digits ++ weekdaysByName cs) := by
  rw [weekdaysByName, weekdaysFrom_mark rfl, weekdaysFrom_numeral n h, weekdayRun_numeral]
  rfl

/-- A term is put into names on its own. -/
theorem weekdaysByName_text (x : WeekdayTerm) (h : DigitsEnd cs) :
    weekdaysByName (x.text ++ cs) = x.named ++ weekdaysByName cs := by
  have hdash (cs : List Char) : DigitsEnd ('-' :: cs) := digitsEnd_cons rfl
  have hslash (cs : List Char) : DigitsEnd ('/' :: cs) := digitsEnd_cons rfl
  have hminus (cs : List Char) : weekdaysByName ('-' :: cs) = '-' :: weekdaysByName cs :=
    weekdaysByName_mark rfl (by decide)
  have hstar (cs : List Char) : weekdaysByName ('*' :: cs) = '*' :: weekdaysByName cs :=
    weekdaysByName_mark rfl (by decide)
  cases x with
  | all => exact hstar cs
  | every step _ => simp [text, named, hstar, weekdaysByName_step _ h]
  | day a _ => exact weekdaysByName_number a h
  | range a b _ _ =>
    simp [text, named, weekdaysByName_number _ (hdash _), hminus, weekdaysByName_number _ h]
  | rangeEvery a b step _ _ _ =>
    simp [text, named, weekdaysByName_number _ (hdash _), hminus,
      weekdaysByName_number _ (hslash _), weekdaysByName_step _ h]

theorem listText_cons (x y : WeekdayTerm) (xs : List WeekdayTerm) :
    listText (x :: y :: xs) = x.text ++ ',' :: listText (y :: xs) := by
  simp [listText, List.intercalate_cons_cons]

theorem listNamed_cons (x y : WeekdayTerm) (xs : List WeekdayTerm) :
    listNamed (x :: y :: xs) = x.named ++ ',' :: listNamed (y :: xs) := by
  simp [listNamed, List.intercalate_cons_cons]

theorem weekdaysByName_listText (xs : List WeekdayTerm) :
    weekdaysByName (listText xs) = listNamed xs := by
  induction xs with
  | nil => rfl
  | cons x xs ih =>
    cases xs with
    | nil =>
      have hnil : weekdaysByName [] = [] := rfl
      simpa [listText, listNamed, hnil] using weekdaysByName_text x digitsEnd_nil
    | cons y xs =>
      rw [listText_cons, listNamed_cons, weekdaysByName_text x (digitsEnd_cons rfl),
        weekdaysByName_mark rfl (by decide), ih]

/-! ## Names as terms -/

namespace WeekdayTerm

/-- The term that is read from the names. -/
def term : WeekdayTerm → Term
  | all => .span .all
  | every step _ => .every .all step.value
  | day a _ => .name (nameOf a)
  | range a b _ _ => .span (.names (nameOf a) (nameOf b))
  | rangeEvery a b step _ _ _ => .every (.names (nameOf a) (nameOf b)) step.value

theorem weekdayName?_spec : ∀ k ≤ 7, ∃ w ∈ weekdayName? k,
    w ≠ [] ∧ w.all Char.isAlpha ∧ Field.weekday.named? w = some (k % 7 + 1) := by
  decide +kernel

theorem isName_nameOf {n : Numeral} (h : n.value ≤ 7) : IsName (nameOf n) := by
  obtain ⟨w, hw, hne, hletters, -⟩ := weekdayName?_spec n.value h
  rw [nameOf, hw, Option.getD_some]
  exact ⟨hne, List.all_eq_true.1 hletters⟩

theorem named?_nameOf {n : Numeral} (h : n.value ≤ 7) :
    Field.weekday.named? (nameOf n) = some (n.value % 7 + 1) := by
  obtain ⟨w, hw, -, -, hnamed⟩ := weekdayName?_spec n.value h
  rw [nameOf, hw, Option.getD_some, hnamed]

theorem isNumber_digits {n : Numeral} (h : n.value ≤ maxNumber) : IsNumber n.digits n.value :=
  ⟨n.ne_nil, n.isDigit, rfl, h⟩

theorem termText_named {x : WeekdayTerm} (h : x.Fits) : TermText true x.term x.named := by
  cases x with
  | all => exact .span .star
  | every step _ => exact .every .star (isNumber_digits h)
  | day a ha => exact .name (isName_nameOf ha)
  | range a b hab hb => exact .span (.names (isName_nameOf (hab.trans hb)) (isName_nameOf hb))
  | rangeEvery a b step hab hb _ =>
    have hnames : SpanText true (.names (nameOf a) (nameOf b)) (nameOf a ++ '-' :: nameOf b) :=
      .names (isName_nameOf (hab.trans hb)) (isName_nameOf hb)
    have hterm := TermText.every hnames (isNumber_digits h)
    rwa [List.append_assoc] at hterm

/-- The range goes from a day to the same or a later one. -/
def Ascends (x : WeekdayTerm) : Prop := x.values.first % 7 ≤ x.values.last % 7

instance (x : WeekdayTerm) : Decidable x.Ascends := inferInstanceAs (Decidable (_ ≤ _))

/-- The values that the names stand for, counted from 1, Sunday. -/
def shifted (x : WeekdayTerm) : Progression :=
  ⟨x.values.first % 7 + 1, x.values.last % 7 + 1, x.values.step⟩

theorem ascends_iff {x : WeekdayTerm} : x.Ascends ↔ ¬ x.EndsOnSunday := by
  have := x.values_bounds
  rw [Ascends, EndsOnSunday]
  omega

theorem between?_days (a b : Nat) :
    Field.weekday.between? (a % 7 + 1) (b % 7 + 1) =
      if a % 7 ≤ b % 7 then some ⟨a % 7 + 1, b % 7 + 1, 1⟩ else none := by
  have hvalue (k : Nat) : Field.weekday.value? (k % 7 + 1) = some (k % 7 + 1) := by
    rw [Field.value?, if_pos]
    simp only [Field.weekday]
    omega
  simp [Field.between?, hvalue]

theorem spanned?_names {a b : Numeral} (ha : a.value ≤ 7) (hb : b.value ≤ 7) :
    Field.weekday.spanned? (.names (nameOf a) (nameOf b)) =
      if a.value % 7 ≤ b.value % 7 then some ⟨a.value % 7 + 1, b.value % 7 + 1, 1⟩ else none := by
  simp [Field.spanned?, named?_nameOf ha, named?_nameOf hb, between?_days]

theorem progression?_term (x : WeekdayTerm) :
    Field.weekday.progression? x.term = if x.Ascends then some x.shifted else none := by
  cases x with
  | all => rfl
  | every step hstep =>
    have hne : step.value ≠ 0 := by omega
    have hascends : (every step hstep).Ascends := Nat.zero_le _
    simp [term, Field.progression?, hne, Field.spanned?, hascends, shifted, values, Field.weekday]
  | day a ha =>
    have hascends : (day a ha).Ascends := Nat.le_refl _
    simp [term, Field.progression?, named?_nameOf ha, between?_days, hascends, shifted, values]
  | range a b hab hb =>
    simp only [term, Field.progression?, spanned?_names (hab.trans hb) hb]
    rfl
  | rangeEvery a b step hab hb hstep =>
    have hne : step.value ≠ 0 := by omega
    simp only [term, Field.progression?, if_neg hne, spanned?_names (hab.trans hb) hb]
    by_cases h : a.value % 7 ≤ b.value % 7
    · have hascends : (rangeEvery a b step hab hb hstep).Ascends := h
      simp [h, hascends, shifted, values]
    · have hascends : ¬ (rangeEvery a b step hab hb hstep).Ascends := h
      simp [h, hascends]

theorem has_iff {p : Progression} {v : Nat} :
    p.has v ↔ p.first ≤ v ∧ v ≤ p.last ∧ (v - p.first) % p.step = 0 := by
  simp [Progression.has, and_assoc]

/-- The values that the names stand for are the days that the term denotes, but of a range from Sunday
to Sunday only Sunday is left. -/
theorem shifted_has_iff {x : WeekdayTerm} (h : ¬ x.EndsOnSunday) {d : Nat} (hd : d ≤ 6) :
    x.shifted.has (d + 1) ↔ x.Denotes d ∧ (x.Wraps → d = 0) := by
  have hbounds := x.values_bounds
  simp only [EndsOnSunday] at h
  simp only [Denotes, Wraps, shifted, has_iff]
  generalize x.values = p at *
  obtain ⟨a, b, s⟩ := p
  dsimp only at *
  by_cases hlast : b = 7
  · -- Such a range begins with Sunday, as 0 or as 7.
    have hsub : d + 1 - (a % 7 + 1) = d := by omega
    rw [hsub]
    constructor
    · rintro ⟨h₁, h₂, -⟩
      refine ⟨⟨a, ⟨by omega, by omega, ?_⟩, by omega⟩, fun _ => by omega⟩
      rw [Nat.sub_self, Nat.zero_mod]
    · rintro ⟨⟨v, ⟨h₁, h₂, -⟩, hv⟩, hwraps⟩
      have hzero : d = 0 := by omega
      rw [hzero]
      exact ⟨by omega, by omega, Nat.zero_mod s⟩
  · have ha : a % 7 = a := by omega
    have hb : b % 7 = b := by omega
    have hsub : d + 1 - (a + 1) = d - a := by omega
    rw [ha, hb, hsub]
    constructor
    · rintro ⟨h₁, h₂, hmod⟩
      exact ⟨⟨d, ⟨by omega, by omega, hmod⟩, by omega⟩, fun hwraps => absurd hwraps.2 hlast⟩
    · rintro ⟨⟨v, ⟨h₁, h₂, hmod⟩, hv⟩, -⟩
      have hvd : v = d := by omega
      rw [hvd] at hmod h₁ h₂
      exact ⟨by omega, by omega, hmod⟩

end WeekdayTerm

/-! ## The set of a list -/

variable {xs : List WeekdayTerm}

theorem mapM_progression? (h : ∀ x ∈ xs, x.Ascends) :
    (xs.map term).mapM Field.weekday.progression? = some (xs.map shifted) := by
  induction xs with
  | nil => rfl
  | cons x xs ih =>
    have hx := h x List.mem_cons_self
    rw [List.map_cons, List.mapM_cons, progression?_term, if_pos hx,
      ih fun y hy => h y (List.mem_cons_of_mem x hy)]
    rfl

theorem mapM_progression?_eq_none (h : ∃ x ∈ xs, ¬ x.Ascends) :
    (xs.map term).mapM Field.weekday.progression? = none := by
  induction xs with
  | nil => obtain ⟨x, hx, -⟩ := h; cases hx
  | cons x xs ih =>
    rw [List.map_cons, List.mapM_cons, progression?_term]
    by_cases hx : x.Ascends
    · have hxs : ∃ y ∈ xs, ¬ y.Ascends := by
        obtain ⟨y, hy, hn⟩ := h
        rcases List.mem_cons.1 hy with rfl | hy
        · exact absurd hx hn
        · exact ⟨y, hy, hn⟩
      rw [if_pos hx, ih hxs]
      rfl
    · rw [if_neg hx]
      rfl

/-- The values that the names of a list stand for. -/
def weekdaySet (xs : List WeekdayTerm) : List Nat :=
  Field.weekday.values.filter fun v => (xs.map shifted).any fun p => p.has v

theorem set?_terms (h : ∀ x ∈ xs, x.Ascends) :
    Field.weekday.set? (xs.map term) = some (weekdaySet xs) := by
  rw [Field.set?, mapM_progression? h]
  rfl

theorem set?_terms_eq_none (h : ∃ x ∈ xs, ¬ x.Ascends) :
    Field.weekday.set? (xs.map term) = none := by
  rw [Field.set?, mapM_progression?_eq_none h]
  rfl

theorem mem_weekdaySet {d : Nat} (h : ∀ x ∈ xs, ¬ x.EndsOnSunday) (hd : d ≤ 6) :
    d + 1 ∈ weekdaySet xs ↔ ∃ x ∈ xs, x.Denotes d ∧ (x.Wraps → d = 0) := by
  have hmem : d + 1 ∈ Field.weekday.values := by
    rw [Field.values, List.mem_range'_1]
    simp only [Field.weekday]
    omega
  rw [weekdaySet, List.mem_filter, and_iff_right hmem, List.any_map, List.any_eq_true]
  constructor
  · rintro ⟨x, hx, hhas⟩
    exact ⟨x, hx, (shifted_has_iff (h x hx) hd).1 hhas⟩
  · rintro ⟨x, hx, hhas⟩
    exact ⟨x, hx, (shifted_has_iff (h x hx) hd).2 hhas⟩

theorem listText_named (x : WeekdayTerm) (hfits : ∀ y ∈ x :: xs, y.Fits) :
    ListText true ((x :: xs).map term) (listNamed (x :: xs)) := by
  induction xs generalizing x with
  | nil =>
    have ht := termText_named (hfits x List.mem_cons_self)
    simpa [listNamed] using ListText.one ht
  | cons y xs ih =>
    have ht := termText_named (hfits x List.mem_cons_self)
    rw [listNamed_cons]
    exact .more ht (ih y fun z hz => hfits z (List.mem_cons_of_mem x hz))

/-- A list whose steps may be written and whose ranges ascend is accepted as a field. -/
theorem fieldText_named (x : WeekdayTerm) (hfits : ∀ y ∈ x :: xs, y.Fits)
    (hascends : ∀ y ∈ x :: xs, y.Ascends) :
    FieldText .weekday (listNamed (x :: xs)) (weekdaySet (x :: xs)) :=
  ⟨_, listText_named x hfits, set?_terms hascends⟩

/-! ## Steps that may not be written -/

theorem readNumber_of_large {n : Numeral} (h : maxNumber < n.value) (hcs : DigitsEnd cs) :
    readNumber (n.digits ++ cs) = none := by
  have hrun := readRun_written n.ne_nil n.isDigit (fun c hc => not_pad_of_isDigit (n.isDigit c hc))
    hcs
  have hlarge : ¬ ofDigits n.digits ≤ maxNumber := Nat.not_le.2 h
  simp [readNumber, hrun, hlarge]

/-- A term is read up to a step that may not be written. -/
theorem readTerm_before_step {s : Span} {w : List Char} {n : Numeral} (hs : SpanText true s w)
    (h : maxNumber < n.value) (hcs : DigitsEnd cs) :
    readTerm true (w ++ '/' :: (n.digits ++ cs)) = some (.span s, '/' :: (n.digits ++ cs)) := by
  obtain ⟨rest, hl, hread⟩ := readTerm_of_span hs runEnds_slash (noMark_cons rfl (by decide))
    fun rest hl => by
      rw [left_cons rfl hl]
      exact readNumber_of_large h hcs
  rw [hread, left_cons rfl hl]

theorem readTerm_of_not_fits {x : WeekdayTerm} (h : ¬ x.Fits) (hcs : DigitsEnd cs) :
    ∃ t rest, readTerm true (x.named ++ cs) = some (t, '/' :: rest) := by
  have hone : 1 ≤ maxNumber := by decide
  cases x with
  | all => exact absurd hone h
  | every step _ => exact ⟨_, _, readTerm_before_step .star (Nat.not_le.1 h) hcs⟩
  | day a _ => exact absurd hone h
  | range a b _ _ => exact absurd hone h
  | rangeEvery a b step hab hb _ =>
    have hnames : SpanText true (.names (nameOf a) (nameOf b)) (nameOf a ++ '-' :: nameOf b) :=
      .names (isName_nameOf (hab.trans hb)) (isName_nameOf hb)
    have hread := readTerm_before_step hnames (Nat.not_le.1 h) hcs
    refine ⟨.span (.names (nameOf a) (nameOf b)), step.digits ++ cs, ?_⟩
    simpa [named] using hread

/-- What follows the first term of a list. -/
theorem exists_listNamed (x : WeekdayTerm) (xs : List WeekdayTerm) :
    ∃ tail, listNamed (x :: xs) = x.named ++ tail ∧ DigitsEnd tail := by
  cases xs with
  | nil => exact ⟨[], by simp [listNamed], digitsEnd_nil⟩
  | cons y xs => exact ⟨_, listNamed_cons x y xs, digitsEnd_cons rfl⟩

theorem readMoreTerms_slash (limit : Nat) :
    readMoreTerms true limit ('/' :: cs) = ([], '/' :: cs) := by
  cases limit with
  | zero => rfl
  | succ limit => rfl

theorem readMoreTerms_of_not_fits {limit : Nat} (h : ∃ x ∈ xs, ¬ x.Fits)
    (hlimit : xs.length ≤ limit) :
    ∃ ts rest, readMoreTerms true limit (',' :: listNamed xs) = (ts, '/' :: rest) := by
  induction xs generalizing limit with
  | nil => obtain ⟨x, hx, -⟩ := h; cases hx
  | cons x xs ih =>
    obtain ⟨limit, rfl⟩ : ∃ l, limit = l + 1 := Nat.exists_eq_add_of_le' (by
      rw [List.length_cons] at hlimit
      omega)
    by_cases hx : x.Fits
    · obtain ⟨y, hy, hn⟩ := h
      rcases List.mem_cons.1 hy with rfl | hy
      · exact absurd hx hn
      obtain ⟨ts, rest, hmore⟩ := ih ⟨y, hy, hn⟩ (Nat.le_of_succ_le_succ hlimit)
      obtain ⟨z, zs, rfl⟩ := List.exists_cons_of_ne_nil (List.ne_nil_of_mem hy)
      refine ⟨x.term :: ts, rest, ?_⟩
      rw [listNamed_cons]
      simp [readMoreTerms, readMark, readTerm_before_comma (termText_named hx), hmore]
    · obtain ⟨tail, htail, hend⟩ := exists_listNamed x xs
      obtain ⟨t, rest, hread⟩ := readTerm_of_not_fits hx hend
      refine ⟨[t], rest, ?_⟩
      rw [htail]
      simp [readMoreTerms, readMark, hread, readMoreTerms_slash]

theorem length_le_listNamed (xs : List WeekdayTerm) : xs.length ≤ (listNamed xs).length + 1 := by
  induction xs with
  | nil => exact Nat.zero_le _
  | cons x xs ih =>
    cases xs with
    | nil => exact Nat.le_add_left 1 _
    | cons y xs =>
      simp only [listNamed_cons, List.length_append, List.length_cons] at *
      omega

theorem readTerms_of_not_fits (x : WeekdayTerm) (h : ∃ y ∈ x :: xs, ¬ y.Fits) :
    ∃ ts rest, readTerms true (listNamed (x :: xs)) = some (ts, '/' :: rest) := by
  by_cases hx : x.Fits
  · obtain ⟨y, hy, hn⟩ := h
    rcases List.mem_cons.1 hy with rfl | hy
    · exact absurd hx hn
    obtain ⟨ts, rest, hmore⟩ := readMoreTerms_of_not_fits ⟨y, hy, hn⟩ (length_le_listNamed xs)
    obtain ⟨z, zs, rfl⟩ := List.exists_cons_of_ne_nil (List.ne_nil_of_mem hy)
    refine ⟨x.term :: ts, rest, ?_⟩
    rw [listNamed_cons]
    simp [readTerms, readTerm_before_comma (termText_named hx), hmore]
  · obtain ⟨tail, htail, hend⟩ := exists_listNamed x xs
    obtain ⟨t, rest, hread⟩ := readTerm_of_not_fits hx hend
    refine ⟨[t], rest, ?_⟩
    rw [htail]
    simp [readTerms, hread, readMoreTerms_slash]

end Agenda.Cron
