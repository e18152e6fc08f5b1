import Agenda.Proofs.Cron.Weekdays
import Mathlib.Data.List.SplitBy

/-!
# A weekday field, part by part

`weekdaysByName` goes through a field with a run of digits in hand and a flag for a slash before it.
The same text comes out if the field is first cut into its runs of digits and the characters between
them, and each part is looked at with the part before it: a number up to 7 that does not stand after a
slash becomes the name of its day, and all else is kept, also a number that is too large for an index.

A name has neither digits nor slashes. So what is left of the numbers stands after the same marks as
before, and is left a second time.

* `parts`, `renamed`: the parts of a field, and what they become.
* `field_induction`: induction on a field by its parts.
* `weekdaysFrom_eq_renamed`: what the loop makes of a field from any part on.
* `weekdaysFrom_weekdaysFrom`: a second time changes nothing.
* `weekdaysByName_renames_parts`: both, of a whole field.
-/
namespace Agenda.Cron

open Decimal WeekdayTerm

/-! ## Parts -/

/-- The parts of a field: runs of digits, each as long as it can be, and single other characters. -/
def parts (field : List Char) : List (List Char) :=
  field.splitBy fun c d => c.isDigit && d.isDigit

/-- The names of the days of a week, from Sunday on. -/
def dayNames : Vector String 7 := #v["Sun", "Mon", "Tue", "Wed", "Thu", "Fri", "Sat"]

/-- What a part becomes that stands after another one, if any: a number up to 7 is the name of a day,
and 7 is Sunday again. -/
def renamePart (before : Option (List Char)) (part : List Char) : List Char :=
  let number := Nat.ofDigitChars 10 part 0
  if part.all Char.isDigit ∧ before ≠ some ['/'] ∧ number ≤ 7 then dayNames[number % 7].toList
  else part

/-- The text that parts become, the first of which stands after another one, if any. -/
def renamed (before : Option (List Char)) (ps : List (List Char)) : List Char :=
  (List.zipWith renamePart (before :: ps.map some) ps).flatten

variable {cs w : List Char} {before : Option (List Char)} {isStep : Bool} {c : Char}

theorem parts_mark (h : c.isDigit = false) : parts (c :: cs) = [c] :: parts cs := by
  have hends : ∀ x ∈ [c].getLast?, ∀ y ∈ cs.head?, (x.isDigit && y.isDigit) = false := by
    intro x hx y _
    simp only [List.getLast?_singleton, Option.mem_some_iff] at hx
    simp [← hx, h]
  exact List.splitBy_append hends

theorem parts_run (n : Numeral) (h : DigitsEnd cs) :
    parts (n.digits ++ cs) = n.digits :: parts cs := by
  have hends : ∀ x ∈ n.digits.getLast?, ∀ y ∈ cs.head?, (x.isDigit && y.isDigit) = false := by
    intro x _ y hy
    simp [h y hy]
  have hchain : n.digits.IsChain fun c d => c.isDigit && d.isDigit := by
    apply List.Pairwise.isChain
    apply List.pairwise_of_forall_mem_list
    intro c hc d hd
    simp [n.isDigit c hc, n.isDigit d hd]
  unfold parts
  rw [List.splitBy_append hends, List.splitBy_of_isChain n.ne_nil hchain]
  rfl

theorem renamed_cons (p : List Char) (ps : List (List Char)) :
    renamed before (p :: ps) = renamePart before p ++ renamed (some p) ps := rfl

/-- A field is empty, or begins with a mark, or with a run of digits that ends. -/
theorem field_induction {motive : List Char → Prop} (nil : motive [])
    (mark : ∀ c cs, c.isDigit = false → motive cs → motive (c :: cs))
    (run : ∀ (n : Numeral) cs, DigitsEnd cs → motive cs → motive (n.digits ++ cs))
    (field : List Char) : motive field := by
  have close {cs : List Char} (hend : DigitsEnd cs) (hcs : motive cs) (ds : List Char)
      (hds : ∀ c ∈ ds, c.isDigit) : motive (ds ++ cs) := by
    by_cases hnil : ds = []
    · rw [hnil]
      exact hcs
    · exact run ⟨ds, hnil, hds⟩ cs hend hcs
  -- Digits in hand are a run only when it ends, so the induction is on what follows any of them.
  suffices h : ∀ ds : List Char, (∀ c ∈ ds, c.isDigit) → motive (ds ++ field) from h [] (by simp)
  induction field with
  | nil => exact close digitsEnd_nil nil
  | cons c cs ih =>
    by_cases hc : c.isDigit
    · intro ds hds
      rw [List.append_cons]
      apply ih
      intro d hd
      rcases List.mem_append.1 hd with hd | hd
      · exact hds d hd
      · rw [List.mem_singleton.1 hd]
        exact hc
    · have hmark : c.isDigit = false := by simpa using hc
      exact close (digitsEnd_cons hmark) (mark c cs hmark (ih [] (by simp)))

/-! ## The loop -/

theorem weekdayName?_eq (k : Nat) :
    weekdayName? k = if k ≤ 7 then some dayNames[k % 7].toList else none := by
  have hdays : ∀ k ≤ 7, weekdayName? k = some dayNames[k % 7].toList := by decide
  split
  · next h => exact hdays k h
  · next h => exact weekdayName?_of_large (Nat.not_le.1 h)

theorem nameOf_eq (n : Numeral) :
    nameOf n = if n.value ≤ 7 then dayNames[n.value % 7].toList else n.digits := by
  unfold nameOf
  rw [weekdayName?_eq]
  split
  · rfl
  · rfl

theorem renamePart_mark (h : c.isDigit = false) : renamePart before [c] = [c] := by
  simp [renamePart, h]

theorem renamePart_numeral (n : Numeral) :
    renamePart before n.digits = weekdayRun (before = some ['/']) n.digits := by
  have hall : n.digits.all Char.isDigit := List.all_eq_true.2 n.isDigit
  have hvalue : Nat.ofDigitChars 10 n.digits 0 = n.value := (ofDigits_eq n.digits).symm
  rw [weekdayRun_numeral, nameOf_eq]
  unfold renamePart
  by_cases hslash : before = some ['/']
  · simp [hslash]
  · simp [hslash, hall, hvalue]

/-- The loop turns what is left of a field into the text of its parts. -/
theorem weekdaysFrom_eq_renamed (field : List Char) (before : Option (List Char)) :
    weekdaysFrom (before = some ['/']) [] field = renamed before (parts field) := by
  induction field using field_induction generalizing before with
  | nil => rfl
  | mark c cs hc ih =>
    have hflag : decide (c = '/') = decide (some [c] = some ['/']) := by simp
    rw [weekdaysFrom_mark hc, parts_mark hc, renamed_cons, renamePart_mark hc, hflag, ih]
    rfl
  | run n cs hend ih =>
    have hflag : decide (some n.digits = some ['/']) = false := by
      simp only [Option.some.injEq, decide_eq_false_iff_not]
      intro hslash
      have hdigit : '/'.isDigit := n.isDigit '/' (by simp [hslash])
      cases hdigit
    rw [weekdaysFrom_numeral n hend, parts_run n hend, renamed_cons, renamePart_numeral, ← ih, hflag]
    rfl

/-! ## A second time -/

theorem digitsEnd_weekdaysByName (h : DigitsEnd cs) : DigitsEnd (weekdaysByName cs) := by
  cases cs with
  | nil => exact digitsEnd_nil
  | cons c cs =>
    have hc := h c rfl
    unfold weekdaysByName
    rw [weekdaysFrom_mark hc]
    exact digitsEnd_cons hc

/-- A run of digits is kept or becomes a name. -/
theorem weekdayRun_cases (isStep : Bool) (n : Numeral) :
    weekdayRun isStep n.digits = n.digits ∨ IsName (weekdayRun isStep n.digits) := by
  rw [weekdayRun_numeral]
  cases isStep with
  | true => exact .inl rfl
  | false =>
    by_cases hday : n.value ≤ 7
    · exact .inr (isName_nameOf hday)
    · left
      rw [nameOf_eq, if_neg hday]
      rfl

/-- A name is kept, and no step follows it. -/
theorem weekdaysFrom_name (h : IsName w) :
    weekdaysFrom isStep [] (w ++ cs) = w ++ weekdaysByName cs := by
  obtain ⟨hne, hletters⟩ := h
  induction w generalizing isStep with
  | nil => exact absurd rfl hne
  | cons c w ih =>
    have hc := hletters c List.mem_cons_self
    have hslash : decide (c = '/') = false := by
      rw [decide_eq_false_iff_not]
      intro h
      rw [h] at hc
      exact absurd hc (by decide)
    rw [List.cons_append, weekdaysFrom_mark (not_digit_of_isAlpha hc), hslash]
    by_cases hw : w = []
    · rw [hw]
      rfl
    · rw [ih hw fun d hd => hletters d (List.mem_cons_of_mem c hd)]
      rfl

/-- What the loop has made of a field it leaves as it is. -/
theorem weekdaysFrom_weekdaysFrom (field : List Char) (isStep : Bool) :
    weekdaysFrom isStep [] (weekdaysFrom isStep [] field) = weekdaysFrom isStep [] field := by
  induction field using field_induction generalizing isStep with
  | nil => rfl
  | mark c cs hc ih => rw [weekdaysFrom_mark hc, weekdaysFrom_mark hc, ih]
  | run n cs hend ih =>
    have hrest : weekdaysByName (weekdaysByName cs) = weekdaysByName cs := ih false
    rw [weekdaysFrom_numeral n hend]
    rcases weekdayRun_cases isStep n with hkept | hname
    · rw [hkept, weekdaysFrom_numeral n (digitsEnd_weekdaysByName hend), hkept, hrest]
    · rw [weekdaysFrom_name hname, hrest]

/-- **Parts.** A field is rewritten part by part, and the second time not at all. -/
theorem weekdaysByName_renames_parts (field : List Char) :
    weekdaysByName field = renamed none (parts field) ∧
      weekdaysByName (weekdaysByName field) = weekdaysByName field :=
  ⟨weekdaysFrom_eq_renamed field none, weekdaysFrom_weekdaysFrom field false⟩

/-- A step and a number of more than 64 bits are kept. -/
example : weekdaysByName "1-5/2,007,18446744073709551617".toList =
    "Mon-Fri/2,Sun,18446744073709551617".toList := by decide +kernel

end Agenda.Cron
