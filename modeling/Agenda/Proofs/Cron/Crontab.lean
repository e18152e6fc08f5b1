import Agenda.Proofs.Cron.Earliest
import Agenda.Proofs.Cron.Weekdays

/-!
# The weekdays of a crontab

The five fields of a crontab are read one by one, so what becomes of the list of weekdays does not
depend on the other four: either no schedule is made of it, or one that fires on the days that are left
of the list.

* `Crontab`, `Kept`: five fields, and what it means that a list of weekdays keeps its meaning.
* `Crontab.exists_schedule`: the schedule of five fields and its days.
* `Crontab.refused_of_not_fits`, `Crontab.refused_of_endsOnSunday`: the lists that are refused.
* `weekdays_kept_iff`: the lists that keep their meaning.
-/
namespace Agenda.Cron

open Decimal WeekdayTerm

variable {xs : List WeekdayTerm} {c : Char}

/-! ## Five fields -/

/-- A text of five fields: four that are accepted, each with its set, and a list of weekdays. -/
structure Crontab (weekdays : List WeekdayTerm) where
  text : List Char
  minute : List Char
  hour : List Char
  day : List Char
  month : List Char
  minutes : List Nat
  hours : List Nat
  days : List Nat
  months : List Nat
  words : Text.words text = [minute, hour, day, month, listText weekdays]
  minute_accepted : readField .minute minute = some (minutes, [])
  hour_accepted : readField .hour hour = some (hours, [])
  day_accepted : readField .dayOfMonth day = some (days, [])
  month_accepted : readField .month month = some (months, [])

/-- The instant is at second 0 with no fraction, its parts are in the first four fields, and its
weekday, counted from 0, Sunday, is one of the given days. -/
def Crontab.At {weekdays : List WeekdayTerm} (x : Crontab weekdays) (isDay : Nat → Prop)
    (t : Instant) : Prop :=
  t.nanos = 0 ∧ t.second = 0 ∧ t.minute ∈ x.minutes ∧ t.hour ∈ x.hours ∧ t.date.day ∈ x.days ∧
    t.date.month ∈ x.months ∧ isDay (t.date.weekdayFromSunday - 1)

/-- The list keeps its meaning: with any four fields it makes a schedule that passes over no time and
fires, in the years that schedules cover, when the four fields and the days of the list say so. -/
def Kept (weekdays : List WeekdayTerm) : Prop :=
  ∀ x : Crontab weekdays, ∃ s, parseSchedule x.text = some s ∧ s.schedule.Punctual ∧
    ∀ t : Instant, 1970 ≤ t.date.year → t.date.year ≤ 2100 →
      (s.schedule.Fires t ↔ x.At (fun d => ∃ y ∈ weekdays, y.Denotes d) t)

theorem not_pad_of_not_blank (h : Text.isBlank c = false) : isPad c = false := by
  by_contra hp
  simp only [isPad, Bool.not_eq_false, Bool.or_eq_true, decide_eq_true_eq] at hp
  rcases hp with ((rfl | rfl) | rfl) | rfl <;> exact absurd h (by decide)

namespace Crontab

variable {x : WeekdayTerm} (e : Crontab (x :: xs))

theorem fieldText {f : Field} {w : List Char} {set : List Nat}
    (hw : w ∈ [e.minute, e.hour, e.day, e.month, listText (x :: xs)])
    (h : readField f w = some (set, [])) : FieldText f w set := by
  refine fieldText_of_readField h fun c hc => not_pad_of_not_blank ?_
  exact Text.not_blank_of_mem_words (e.words ▸ hw) hc

theorem minute_text : FieldText .minute e.minute e.minutes :=
  e.fieldText (by simp) e.minute_accepted

theorem hour_text : FieldText .hour e.hour e.hours := e.fieldText (by simp) e.hour_accepted

theorem day_text : FieldText .dayOfMonth e.day e.days := e.fieldText (by simp) e.day_accepted

theorem month_text : FieldText .month e.month e.months := e.fieldText (by simp) e.month_accepted

theorem second_text : FieldText .second ['0'] [0] :=
  fieldText_of_readField (by decide) (by intro c hc; rw [List.mem_singleton.1 hc]; rfl)

/-- The longer form of the text. -/
theorem expand_text : expand e.text =
    row [['0'], e.minute, e.hour, e.day, e.month, listNamed (x :: xs)] := by
  rw [expand, e.words]
  simp only [weekdaysByName_listText]
  rfl

theorem parseSchedule_text : parseSchedule e.text =
    (longhand? (expand e.text)).map fun s => { source := expand e.text, schedule := s } := by
  have hshort : shorthand? (expand e.text) = none := by
    rw [expand_text, row_cons]
    exact shorthand?_of_isDigit (by decide)
  rw [parseSchedule, Schedule.ofText?, hshort, Option.none_or]

/-- The schedule of five fields, if it is one. -/
def schedule : Schedule :=
  ⟨[0], e.minutes, e.hours, e.days, e.months, weekdaySet (x :: xs), Field.year.values⟩

theorem longhand?_text (hfits : ∀ y ∈ x :: xs, y.Fits) (hends : ∀ y ∈ x :: xs, ¬ y.EndsOnSunday) :
    longhand? (expand e.text) = some e.schedule := by
  have hnamed := fieldText_named x hfits fun y hy => ascends_iff.2 (hends y hy)
  rw [expand_text]
  exact longhand?_of_texts second_text e.minute_text e.hour_text e.day_text e.month_text hnamed

/-- The days that are left of a list: all that it denotes, but of a range from Sunday to Sunday only
Sunday. -/
def LeftDay (weekdays : List WeekdayTerm) (d : Nat) : Prop :=
  ∃ y ∈ weekdays, y.Denotes d ∧ (y.Wraps → d = 0)

theorem lists_iff (hends : ∀ y ∈ x :: xs, ¬ y.EndsOnSunday) {t : Instant}
    (h₁ : 1970 ≤ t.date.year) (h₂ : t.date.year ≤ 2100) :
    e.schedule.Lists t ↔ e.At (LeftDay (x :: xs)) t := by
  have hday : t.date.weekdayFromSunday ∈ weekdaySet (x :: xs) ↔
      LeftDay (x :: xs) (t.date.weekdayFromSunday - 1) := by
    have hbounds : t.date.weekdayFromSunday = t.date.weekdayFromSunday - 1 + 1 ∧
        t.date.weekdayFromSunday - 1 ≤ 6 := by
      simp only [Date.weekdayFromSunday]
      omega
    rw [hbounds.1, mem_weekdaySet hends hbounds.2]
    rfl
  constructor
  · intro h
    exact ⟨h.nanos, List.mem_singleton.1 h.second, h.minute, h.hour, h.date.day, h.date.month,
      hday.1 h.date.weekday⟩
  · rintro ⟨hn, hs, hm, hh, hd, hmo, hw⟩
    have hyear : t.date.year.toNat ∈ Field.year.values := by
      rw [Field.values, List.mem_range'_1]
      simp only [Field.year]
      omega
    exact ⟨hn, List.mem_singleton.2 hs, hm, hh, hd, hmo, hday.2 hw, _, hyear, by omega⟩

/-- What the schedule of five fields does with the list. -/
theorem exists_schedule (hfits : ∀ y ∈ x :: xs, y.Fits)
    (hends : ∀ y ∈ x :: xs, ¬ y.EndsOnSunday) :
    ∃ s, parseSchedule e.text = some s ∧ s.schedule.Punctual ∧
      ∀ t : Instant, 1970 ≤ t.date.year → t.date.year ≤ 2100 →
        (s.schedule.Fires t ↔ e.At (LeftDay (x :: xs)) t) := by
  have hlong := e.longhand?_text hfits hends
  have hregular := regular_of_longhand? hlong
  refine ⟨⟨expand e.text, e.schedule⟩, ?_, Schedule.punctual hregular, fun t h₁ h₂ => ?_⟩
  · rw [parseSchedule_text, hlong]
    rfl
  · rw [Schedule.fires_iff hregular, e.lists_iff hends h₁ h₂]

/-! ## Lists that are refused -/

theorem begins_listNamed (x : WeekdayTerm) (xs : List WeekdayTerm) :
    Begins (listNamed (x :: xs)) := by
  have hname {n : Numeral} (h : n.value ≤ 7) : Begins (nameOf n) := by
    obtain ⟨c, r, hr, hc⟩ := (isName_nameOf h).exists_cons
    exact ⟨c, r, hr, .inr (.inr (.inr hc))⟩
  have hnamed : Begins x.named := by
    cases x with
    | all => exact ⟨_, _, rfl, .inr (.inl rfl)⟩
    | every step _ => exact ⟨_, _, rfl, .inr (.inl rfl)⟩
    | day a ha => exact hname ha
    | range a b hab hb =>
      obtain ⟨c, r, hr, hc⟩ := hname (hab.trans hb)
      exact ⟨c, r ++ '-' :: nameOf b, by rw [named, hr]; rfl, hc⟩
    | rangeEvery a b step hab hb _ =>
      obtain ⟨c, r, hr, hc⟩ := hname (hab.trans hb)
      exact ⟨c, r ++ '-' :: (nameOf b ++ '/' :: step.digits), by rw [named, hr]; rfl, hc⟩
  obtain ⟨tail, htail, -⟩ := exists_listNamed x xs
  obtain ⟨c, r, hr, hc⟩ := hnamed
  exact ⟨c, r ++ tail, by rw [htail, hr]; rfl, hc⟩

theorem readField_slash (f : Field) (rest : List Char) : readField f ('/' :: rest) = none := by
  have hpad : ('/' :: rest).dropWhile isPad = '/' :: rest := dropWhile_pad_cons rfl rest
  have hrun (isPart : Char → Bool) (h : isPart '/' = false) :
      readRun isPart ('/' :: rest) = none := by
    simp [readRun, hpad, h]
  have hnumber : readNumber ('/' :: rest) = none := by
    simp [readNumber, hrun Char.isDigit rfl]
  have hname : readName ('/' :: rest) = none := hrun Char.isAlpha rfl
  have hspan : readSpan f.mayBeOpen ('/' :: rest) = none := by
    cases f.mayBeOpen <;>
      simp [readSpan, readAll, readMark, readRange, readPoint, readNames, hnumber, hname]
  simp [readField, hpad, readTerms, readTerm, readEvery, hspan, hname]

/-- The schedule is what is made of the weekdays, if nothing is left but a year. -/
theorem longhand?_weekday : longhand? (expand e.text) =
    (readField .weekday (listNamed (x :: xs))).bind fun (weekdays, rest) =>
      let (years, rest) := (readField .year rest).getD (Field.year.values, rest)
      if rest.isEmpty then
        some ⟨[0], e.minutes, e.hours, e.days, e.months, weekdays, years⟩
      else none := by
  rw [expand_text]
  exact longhand?_of_fields second_text e.minute_text e.hour_text e.day_text e.month_text
    (begins_listNamed x xs)

theorem refused_of_not_fits (h : ∃ y ∈ x :: xs, ¬ y.Fits) : parseSchedule e.text = none := by
  obtain ⟨ts, rest, hterms⟩ := readTerms_of_not_fits x h
  rw [parseSchedule_text, longhand?_weekday,
    readField_of_terms (f := .weekday) (begins_listNamed x xs) hterms, dropWhile_pad_cons rfl]
  cases Field.weekday.set? ts with
  | none => rfl
  | some set => simp [readField_slash]

theorem refused_of_endsOnSunday (hfits : ∀ y ∈ x :: xs, y.Fits)
    (h : ∃ y ∈ x :: xs, y.EndsOnSunday) : parseSchedule e.text = none := by
  have hnot : ∃ y ∈ x :: xs, ¬ y.Ascends := by
    obtain ⟨y, hy, hends⟩ := h
    exact ⟨y, hy, fun ha => ascends_iff.1 ha hends⟩
  obtain ⟨rest, -, hterms⟩ := readTerms_written (listText_named x hfits) listEnds_nil
  rw [List.append_nil] at hterms
  rw [parseSchedule_text, longhand?_weekday,
    readField_of_terms (f := .weekday) (begins_listNamed x xs) hterms, set?_terms_eq_none hnot]
  rfl

end Crontab

/-! ## Every weekday -/

theorem text_not_blank (x : WeekdayTerm) :
    x.text ≠ [] ∧ ∀ c ∈ x.text, Text.isBlank c = false := by
  have hdigits (n : Numeral) : ∀ c ∈ n.digits, Text.isBlank c = false := fun c hc =>
    not_blank_of_isDigit (n.isDigit c hc)
  have hstar : Text.isBlank '*' = false := rfl
  have hslash : Text.isBlank '/' = false := rfl
  have hdash : Text.isBlank '-' = false := rfl
  cases x with
  | all => exact ⟨by simp [text], List.forall_mem_singleton.2 hstar⟩
  | every step _ =>
    exact ⟨by simp [text], List.forall_mem_cons.2 ⟨hstar, List.forall_mem_cons.2
      ⟨hslash, hdigits step⟩⟩⟩
  | day a _ => exact ⟨a.ne_nil, hdigits a⟩
  | range a b _ _ =>
    exact ⟨by simp [text], List.forall_mem_append.2 ⟨hdigits a, List.forall_mem_cons.2
      ⟨hdash, hdigits b⟩⟩⟩
  | rangeEvery a b step _ _ _ =>
    exact ⟨by simp [text], List.forall_mem_append.2 ⟨hdigits a, List.forall_mem_cons.2
      ⟨hdash, List.forall_mem_append.2 ⟨hdigits b, List.forall_mem_cons.2
        ⟨hslash, hdigits step⟩⟩⟩⟩⟩

theorem listText_not_blank (x : WeekdayTerm) (xs : List WeekdayTerm) :
    listText (x :: xs) ≠ [] ∧ ∀ c ∈ listText (x :: xs), Text.isBlank c = false := by
  induction xs generalizing x with
  | nil => simpa [listText] using text_not_blank x
  | cons y xs ih =>
    rw [listText_cons]
    exact ⟨by simp, List.forall_mem_append.2 ⟨(text_not_blank x).2, List.forall_mem_cons.2
      ⟨by decide, (ih y).2⟩⟩⟩

/-- Every minute of the days of a list. -/
def everyMinute (x : WeekdayTerm) (xs : List WeekdayTerm) : Crontab (x :: xs) where
  text := row [['*'], ['*'], ['*'], ['*'], listText (x :: xs)]
  minute := ['*']
  hour := ['*']
  day := ['*']
  month := ['*']
  minutes := Field.minute.values
  hours := Field.hour.values
  days := Field.dayOfMonth.values
  months := Field.month.values
  words := by
    refine Text.words_intercalate fun w hw => ?_
    have hstar : ['*'] ≠ [] ∧ ∀ c ∈ ['*'], Text.isBlank c = false :=
      ⟨List.cons_ne_nil _ _, List.forall_mem_singleton.2 rfl⟩
    simp only [List.mem_cons, List.not_mem_nil, or_false] at hw
    rcases hw with rfl | rfl | rfl | rfl | rfl
    · exact hstar
    · exact hstar
    · exact hstar
    · exact hstar
    · exact listText_not_blank x xs
  minute_accepted := by decide
  hour_accepted := by decide
  day_accepted := by decide
  month_accepted := by decide

/-- The midnights from Sunday, 1970-01-04, on. -/
def midnight (d : Fin 7) : Instant := ⟨(d + 3) * 86400, 0, by revert d; decide⟩

theorem at_midnight (x : WeekdayTerm) (xs : List WeekdayTerm) (isDay : Nat → Prop) (d : Fin 7) :
    (everyMinute x xs).At isDay (midnight d) ↔ isDay d := by
  have hweekday : ∀ d, (midnight d).date.weekdayFromSunday - 1 = d := by decide
  have hclock : ∀ d, (midnight d).nanos = 0 ∧ (midnight d).second = 0 ∧
      (midnight d).minute ∈ Field.minute.values ∧ (midnight d).hour ∈ Field.hour.values ∧
      (midnight d).date.day ∈ Field.dayOfMonth.values ∧
      (midnight d).date.month ∈ Field.month.values := by decide
  obtain ⟨h₁, h₂, h₃, h₄, h₅, h₆⟩ := hclock d
  rw [Crontab.At, hweekday d]
  exact ⟨fun h => h.2.2.2.2.2.2, fun h => ⟨h₁, h₂, h₃, h₄, h₅, h₆, h⟩⟩

/-! ## The lists that keep their meaning -/

theorem Denotes.le {x : WeekdayTerm} {d : Nat} (h : x.Denotes d) : d ≤ 6 := by
  obtain ⟨v, -, hv⟩ := h
  omega

/-- The days of a range from Sunday to Sunday, other than Sunday, are days of other terms too. -/
def Covered (xs : List WeekdayTerm) : Prop :=
  ∀ y ∈ xs, y.Wraps → ∀ d, y.Denotes d → d = 0 ∨ ∃ z ∈ xs, ¬ z.Wraps ∧ z.Denotes d

theorem leftDay_iff (h : Covered xs) {d : Nat} :
    Crontab.LeftDay xs d ↔ ∃ y ∈ xs, y.Denotes d := by
  constructor
  · rintro ⟨y, hy, hd, -⟩
    exact ⟨y, hy, hd⟩
  · rintro ⟨y, hy, hd⟩
    by_cases hw : y.Wraps
    · rcases h y hy hw d hd with hzero | ⟨z, hz, hn, hd⟩
      · exact ⟨y, hy, hd, fun _ => hzero⟩
      · exact ⟨z, hz, hd, fun hw => absurd hw hn⟩
    · exact ⟨y, hy, hd, fun h => absurd h hw⟩

theorem covered_of_leftDay (h : ∀ d, (∃ y ∈ xs, y.Denotes d) → Crontab.LeftDay xs d) :
    Covered xs := by
  intro y hy hw d hd
  obtain ⟨z, hz, hdz, hzero⟩ := h d ⟨y, hy, hd⟩
  by_cases hwz : z.Wraps
  · exact .inl (hzero hwz)
  · exact .inr ⟨z, hz, hwz, hdz⟩

/-- **Weekdays.** A list keeps its meaning exactly if all its steps may be written, no range goes from
Monday or later to 7, and the days that a range from 0 to 7 denotes, other than Sunday, are days of
other terms too. -/
theorem weekdays_kept_iff (x : WeekdayTerm) (xs : List WeekdayTerm) : Kept (x :: xs) ↔
    (∀ y ∈ x :: xs, y.Fits ∧ ¬ y.EndsOnSunday) ∧ Covered (x :: xs) := by
  constructor
  · intro hkept
    obtain ⟨s, hparse, -, hfires⟩ := hkept (everyMinute x xs)
    have hfits : ∀ y ∈ x :: xs, y.Fits := by
      intro y hy
      by_contra hn
      rw [Crontab.refused_of_not_fits _ ⟨y, hy, hn⟩] at hparse
      cases hparse
    have hends : ∀ y ∈ x :: xs, ¬ y.EndsOnSunday := by
      intro y hy hends
      rw [Crontab.refused_of_endsOnSunday _ hfits ⟨y, hy, hends⟩] at hparse
      cases hparse
    refine ⟨fun y hy => ⟨hfits y hy, hends y hy⟩, covered_of_leftDay fun d hd => ?_⟩
    obtain ⟨s', hparse', -, hfires'⟩ := (everyMinute x xs).exists_schedule hfits hends
    rw [hparse] at hparse'
    cases hparse'
    obtain ⟨y, hy, hdy⟩ := hd
    have hlt : d < 7 := Nat.lt_succ_of_le (Denotes.le hdy)
    have hyear : ∀ d, 1970 ≤ (midnight d).date.year ∧ (midnight d).date.year ≤ 2100 := by decide
    obtain ⟨h₁, h₂⟩ := hyear ⟨d, hlt⟩
    have hasked := (hfires _ h₁ h₂).2 ((at_midnight x xs _ ⟨d, hlt⟩).2 ⟨y, hy, hdy⟩)
    exact (at_midnight x xs _ ⟨d, hlt⟩).1 ((hfires' _ h₁ h₂).1 hasked)
  · rintro ⟨hall, hcovered⟩ e
    obtain ⟨s, hparse, hpunctual, hfires⟩ := e.exists_schedule (fun y hy => (hall y hy).1)
      fun y hy => (hall y hy).2
    refine ⟨s, hparse, hpunctual, fun t h₁ h₂ => ?_⟩
    rw [hfires t h₁ h₂]
    simp only [Crontab.At, leftDay_iff hcovered]

/-- From Friday to Sunday. -/
def fridayToSunday : WeekdayTerm :=
  .range (.digit '5' rfl) (.digit '7' rfl) (by decide) (by decide)

/-- The range from Friday to Sunday is refused: its names are `Fri-Sun`, and `Sun` is the first day. -/
theorem friday_to_sunday_not_kept : ¬ Kept [fridayToSunday] := by
  intro h
  have hrefused : parseSchedule (everyMinute fridayToSunday []).text = none := by decide +kernel
  obtain ⟨s, hs, -⟩ := h (everyMinute fridayToSunday [])
  rw [hrefused] at hs
  cases hs

end Agenda.Cron
