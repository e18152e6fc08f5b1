import Agenda.Time.Date
import Mathlib.Tactic.IntervalCases

/-!
# Dates and day numbers

Day numbers and dates correspond one to one. Years are counted from March, in eras of 400: then a day
is an era, a year of the era and a day of that year. `yearOfEra` takes out centuries, groups of four
years and years, so a day of an era is given by how many of each precede it (`EraDay`). Both a day
number and a date are given by such a day (`numberOfEra`, `ofEra`), and this is what ties them.

* `exists_ofDays`, `toDays_ofDays`: every day number is that of an existing date.
* `ofDays_toDays`: every existing date is that of its day number.
* `natAbs_year_ofDays_le`: the years of the supported range are far from the limits of 32 bits.
* `toDays_lt_of_year`, `toDays_lt_of_month`, `toDays_lt_of_day`: day numbers ascend with the dates.
-/
namespace Agenda.Date

/-! ## Years of an era -/

/-- A day of an era by the centuries, groups of four years, years and days before it. Day 365 is a
leap day: it ends a group, and that of a century only in the last one. -/
structure EraDay where
  century : Nat
  group : Nat
  year : Nat
  day : Nat
  century_lt : century < 4
  group_lt : group < 25
  year_lt : year < 4
  day_le : day ≤ 365
  leap : day = 365 → year = 3 ∧ (group ≠ 24 ∨ century = 3)

namespace EraDay

/-- The year of the era. -/
def yearOfEra (d : EraDay) : Nat := 100 * d.century + 4 * d.group + d.year

/-- The days of the era before the day. -/
def number (d : EraDay) : Nat := 36524 * d.century + 1461 * d.group + 365 * d.year + d.day

theorem exists_number {n : Nat} (h : n < 146097) : ∃ d : EraDay, d.number = n := by
  have hc : n - 36524 * min 3 (n / 36524) ≤ 36524 := by omega
  have hc' : n - 36524 * min 3 (n / 36524) = 36524 → min 3 (n / 36524) = 3 := by omega
  have hn : 36524 * min 3 (n / 36524) ≤ n := by omega
  generalize hm : n - 36524 * min 3 (n / 36524) = m at hc hc'
  generalize hcen : min 3 (n / 36524) = c at *
  have hg : m - 1461 * (m / 1461) ≤ 1460 := by omega
  generalize hk : m - 1461 * (m / 1461) = k at hg
  exact ⟨⟨c, m / 1461, min 3 (k / 365), k - 365 * min 3 (k / 365), by omega, by omega, by omega,
    by omega, by omega⟩, by simp only [number]; omega⟩

theorem number_lt (d : EraDay) : d.number < 146097 := by
  have := d.century_lt
  have := d.group_lt
  have := d.year_lt
  have := d.day_le
  have := d.leap
  simp only [number]
  omega

/-- The day is found from its number. -/
theorem yearOfEra_number (d : EraDay) : Date.yearOfEra d.number = (d.yearOfEra, d.day) := by
  obtain ⟨c, g, y, k, hc, hg, hy, hk, hl⟩ := d
  have h₁ : min 3 ((36524 * c + 1461 * g + 365 * y + k) / 36524) = c := by omega
  have h₂ : 36524 * c + 1461 * g + 365 * y + k - 36524 * c = 1461 * g + 365 * y + k := by omega
  have h₃ : (1461 * g + 365 * y + k) / 1461 = g := by omega
  have h₄ : 1461 * g + 365 * y + k - 1461 * g = 365 * y + k := by omega
  have h₅ : min 3 ((365 * y + k) / 365) = y := by omega
  have h₆ : 365 * y + k - 365 * y = k := by omega
  simp only [Date.yearOfEra, number, yearOfEra, h₁, h₂, h₃, h₄, h₅, h₆]

end EraDay

/-! ## Months of a year -/

theorem isLeapYear_iff {y : Int} : isLeapYear y ↔ y % 4 = 0 ∧ (y % 100 ≠ 0 ∨ y % 400 = 0) := by
  simp [isLeapYear]

theorem le_daysInMonth (y : Int) (m : Nat) : 28 ≤ daysInMonth y m := by
  unfold daysInMonth
  repeat' split
  all_goals decide

theorem daysInMonth_le (y : Int) (m : Nat) : daysInMonth y m ≤ 31 := by
  unfold daysInMonth
  repeat' split
  all_goals decide

/-- The days of a year from March before the month `m` of it. -/
def monthStart (m : Nat) : Nat := (153 * m + 2) / 5

theorem monthStart_mono {p q : Nat} (h : p ≤ q) : monthStart p ≤ monthStart q := by
  simp only [monthStart]
  omega

/-- The month of a day of a year from March. -/
def monthOf (day : Nat) : Nat := (5 * day + 2) / 153

theorem monthOf_lt {day : Nat} (h : day ≤ 365) : monthOf day < 12 := by
  simp only [monthOf]
  omega

theorem monthStart_le (day : Nat) : monthStart (monthOf day) ≤ day := by
  simp only [monthOf, monthStart]
  omega

theorem monthOf_eq {m day : Nat} (h₁ : monthStart m ≤ day) (h₂ : day < monthStart (m + 1)) :
    monthOf day = m := by
  simp only [monthOf, monthStart] at *
  omega

/-- The calendar month of a month counted from March, and the years from January it adds. -/
def calendarMonth (m : Nat) : Nat := if m < 10 then m + 3 else m - 9

def yearsAdded (m : Nat) : Nat := if m < 10 then 0 else 1

theorem calendarMonth_bounds {m : Nat} (h : m < 12) :
    1 ≤ calendarMonth m ∧ calendarMonth m ≤ 12 := by
  unfold calendarMonth
  split <;> omega

theorem exists_calendarMonth {m : Nat} (h₁ : 1 ≤ m) (h₂ : m ≤ 12) :
    ∃ p < 12, calendarMonth p = m := by
  by_cases h : m ≤ 2
  · refine ⟨m + 9, by omega, ?_⟩
    rw [calendarMonth, if_neg (by omega)]
    omega
  · refine ⟨m - 3, by omega, ?_⟩
    rw [calendarMonth, if_pos (by omega)]
    omega

/-- A month from March that is not the last one is as long as its calendar month. -/
theorem monthStart_succ {m : Nat} (h : m < 11) (y : Int) :
    monthStart (m + 1) = monthStart m + daysInMonth y (calendarMonth m) := by
  interval_cases m <;> rfl

theorem lt_monthStart_succ (day : Nat) : day < monthStart (monthOf day + 1) := by
  simp only [monthOf, monthStart]
  omega

/-! ## Dates of an era -/

/-- The date of a day of an era. -/
def ofEra (era : Int) (d : EraDay) : Date where
  year := 400 * era + d.yearOfEra + yearsAdded (monthOf d.day)
  month := calendarMonth (monthOf d.day)
  day := d.day - monthStart (monthOf d.day) + 1

/-- The day number of a day of an era. -/
def numberOfEra (era : Int) (d : EraDay) : Int := 146097 * era + d.number - epochOffset

theorem exists_numberOfEra (n : Int) : ∃ era d, numberOfEra era d = n := by
  obtain ⟨d, hd⟩ := EraDay.exists_number (n := ((n + epochOffset) % 146097).toNat) (by omega)
  refine ⟨(n + epochOffset) / 146097, d, ?_⟩
  simp only [numberOfEra, hd]
  omega

theorem ofDays_numberOfEra (era : Int) (d : EraDay) : ofDays (numberOfEra era d) = ofEra era d := by
  have hd := d.number_lt
  have hera : (numberOfEra era d + epochOffset) / 146097 = era := by
    simp only [numberOfEra]
    omega
  have hnum : ((numberOfEra era d + epochOffset) % 146097).toNat = d.number := by
    simp only [numberOfEra]
    omega
  simp only [ofDays, hera, hnum, EraDay.yearOfEra_number, ofEra, monthOf, monthStart, calendarMonth,
    yearsAdded]
  norm_cast

theorem toDays_ofEra (era : Int) (d : EraDay) : (ofEra era d).toDays = numberOfEra era d := by
  have hm := monthOf_lt d.day_le
  have hs := monthStart_le d.day
  obtain ⟨c, g, y, k, hc, hg, hy, hk, hl⟩ := d
  simp only [EraDay.yearOfEra, EraDay.number, ofEra, numberOfEra, toDays, calendarMonth, yearsAdded]
    at *
  generalize hmk : monthOf k = m at *
  simp only [monthStart] at *
  split <;> omega

/-- The last day of a year from March, a leap day, is one of a leap year. -/
theorem isLeapYear_of_eraDay (era : Int) {d : EraDay} (h : d.day = 365) :
    isLeapYear (400 * era + d.yearOfEra + 1) := by
  have := d.leap h
  have := d.century_lt
  have := d.group_lt
  rw [isLeapYear_iff]
  simp only [EraDay.yearOfEra]
  omega

theorem exists_ofEra (era : Int) (d : EraDay) : (ofEra era d).Exists := by
  have hm := monthOf_lt d.day_le
  have hs := monthStart_le d.day
  have hn := lt_monthStart_succ d.day
  have hd := d.day_le
  obtain ⟨h₁, h₂⟩ := calendarMonth_bounds hm
  refine ⟨h₁, h₂, Nat.le_add_left 1 _, ?_⟩
  simp only [ofEra]
  by_cases hlast : monthOf d.day < 11
  · rw [monthStart_succ hlast (400 * era + d.yearOfEra + yearsAdded (monthOf d.day))] at hn
    omega
  · -- February, which ends the year.
    have h11 : monthOf d.day = 11 := by omega
    have h337 : monthStart 11 = 337 := rfl
    rw [h11, h337] at hs ⊢
    by_cases hleap : d.day = 365
    · have hy := isLeapYear_of_eraDay era hleap
      simp [calendarMonth, yearsAdded, daysInMonth, hleap, hy]
    · have h28 := le_daysInMonth (400 * era + d.yearOfEra + yearsAdded 11) (calendarMonth 11)
      omega

/-- The days of a month end no later than the next month begins, and only the leap day is the 366th
of its year. -/
theorem monthStart_add_le {p k : Nat} {y : Int} (hp : p < 12)
    (hk : k ≤ daysInMonth y (calendarMonth p)) :
    monthStart p + k ≤ monthStart (p + 1) ∧ monthStart p + k ≤ 366 ∧
      (monthStart p + k = 366 → p = 11 ∧ isLeapYear y) := by
  by_cases hlast : p < 11
  · have hs := monthStart_succ hlast y
    have h337 : monthStart (p + 1) ≤ 337 := by
      simp only [monthStart]
      omega
    omega
  · obtain rfl : p = 11 := by omega
    have h337 : monthStart 11 = 337 := rfl
    have h367 : monthStart (11 + 1) = 367 := rfl
    have hf : daysInMonth y (calendarMonth 11) = if isLeapYear y then 29 else 28 := rfl
    rw [hf] at hk
    split at hk
    · rename_i hy
      exact ⟨by omega, by omega, fun _ => ⟨rfl, hy⟩⟩
    · exact ⟨by omega, by omega, by omega⟩

/-- Every existing date is that of a day of an era. -/
theorem exists_ofEra_eq {d : Date} (h : d.Exists) : ∃ era e, ofEra era e = d := by
  obtain ⟨y, m, k⟩ := d
  obtain ⟨h₁, h₂, h₃, h₄⟩ := h
  simp only at h₁ h₂ h₃ h₄
  -- The month counted from March, and the year that begins with it.
  obtain ⟨p, hp, rfl⟩ := exists_calendarMonth h₁ h₂
  obtain ⟨hnext, hle, hleap⟩ := monthStart_add_le hp h₄
  have hday : monthOf (monthStart p + k - 1) = p := monthOf_eq (by omega) (by omega)
  obtain ⟨z, hz⟩ : ∃ z, y = z + yearsAdded p := ⟨y - yearsAdded p, by omega⟩
  have hyear : 400 * (z / 400) + (z % 400).toNat = z := by omega
  have hlt : (z % 400).toNat < 400 := by omega
  generalize hera : z / 400 = era at hyear
  generalize hyoe : (z % 400).toNat = n at hyear hlt
  refine ⟨era, ⟨n / 100, n % 100 / 4, n % 4, monthStart p + k - 1, by omega, by omega, by omega,
    by omega, fun h365 => ?_⟩, ?_⟩
  · obtain ⟨rfl, hy⟩ := hleap (by omega)
    have h1 : yearsAdded 11 = 1 := rfl
    rw [isLeapYear_iff] at hy
    omega
  · have hn : 100 * (n / 100) + 4 * (n % 100 / 4) + n % 4 = n := by omega
    simp only [ofEra, EraDay.yearOfEra, hday, hn, hyear, hz, mk.injEq, true_and]
    omega

/-! ## Dates and day numbers -/

theorem exists_ofDays (n : Int) : (ofDays n).Exists := by
  obtain ⟨era, d, rfl⟩ := exists_numberOfEra n
  rw [ofDays_numberOfEra]
  exact exists_ofEra era d

theorem toDays_ofDays (n : Int) : (ofDays n).toDays = n := by
  obtain ⟨era, d, rfl⟩ := exists_numberOfEra n
  rw [ofDays_numberOfEra, toDays_ofEra]

theorem ofDays_toDays {d : Date} (h : d.Exists) : ofDays d.toDays = d := by
  obtain ⟨era, e, rfl⟩ := exists_ofEra_eq h
  rw [toDays_ofEra, ofDays_numberOfEra]

theorem of?_ofDays {n : Int} (h₁ : minDays ≤ n) (h₂ : n ≤ maxDays) :
    of? (ofDays n).year (ofDays n).month (ofDays n).day = some (ofDays n) := by
  have hr : (ofDays n).InRange := by
    rw [InRange, toDays_ofDays]
    exact ⟨h₁, h₂⟩
  exact if_pos ⟨exists_ofDays n, hr⟩

theorem natAbs_year_ofDays_le {n : Int} (h₁ : minDays ≤ n) (h₂ : n ≤ maxDays) :
    (ofDays n).year.natAbs ≤ 300000 := by
  obtain ⟨era, d, rfl⟩ := exists_numberOfEra n
  rw [ofDays_numberOfEra]
  have := d.number_lt
  have := d.century_lt
  have := d.group_lt
  have := d.year_lt
  have : yearsAdded (monthOf d.day) ≤ 1 := by
    unfold yearsAdded
    split <;> omega
  simp only [minDays, maxDays, numberOfEra, epochOffset] at h₁ h₂
  simp only [ofEra, EraDay.yearOfEra]
  omega

/-! ## Dates in order -/

variable {d d' : Date}

theorem toDays_lt_of_year (h : d.Exists) (h' : d'.Exists) (hy : d.year < d'.year) :
    d.toDays < d'.toDays := by
  obtain ⟨h₁, h₂, h₃, h₄⟩ := h
  obtain ⟨h₁', h₂', h₃', -⟩ := h'
  have hlong := daysInMonth_le d.year d.month
  simp only [toDays]
  split <;> split <;> omega

theorem toDays_lt_of_month (h : d.Exists) (h' : d'.Exists) (hy : d.year = d'.year)
    (hm : d.month < d'.month) : d.toDays < d'.toDays := by
  obtain ⟨y, m, k⟩ := d
  obtain ⟨y', m', k'⟩ := d'
  obtain ⟨h₁, h₂, h₃, h₄⟩ := h
  obtain ⟨h₁', h₂', h₃', -⟩ := h'
  simp only at *
  subst hy
  have hlong := daysInMonth_le y m
  simp only [toDays]
  by_cases hfirst : m ≤ 2
  · rw [if_pos hfirst, if_pos hfirst]
    by_cases hfirst' : m' ≤ 2
    · obtain rfl : m = 1 := by omega
      obtain rfl : m' = 2 := by omega
      omega
    · -- The first of March lies between the two, and before it a leap day.
      have hleap : k = 29 → m = 2 → y % 4 = 0 ∧ (y % 100 ≠ 0 ∨ y % 400 = 0) := by
        rintro rfl rfl
        by_contra hn
        rw [← isLeapYear_iff] at hn
        rw [daysInMonth, if_neg hn] at h₄
        omega
      have hfeb : m = 2 → k ≤ 29 := by
        rintro rfl
        simp only [daysInMonth] at h₄
        split at h₄ <;> omega
      rw [if_neg hfirst', if_neg hfirst']
      omega
  · obtain ⟨p, rfl⟩ : ∃ p, m = p + 3 := ⟨m - 3, by omega⟩
    obtain ⟨q, rfl⟩ : ∃ q, m' = q + 3 := ⟨m' - 3, by omega⟩
    have hcal : p + 3 = calendarMonth p := by rw [calendarMonth, if_pos (by omega)]
    rw [hcal] at h₄
    obtain ⟨hnext, -, -⟩ := monthStart_add_le (by omega) h₄
    have hmono := monthStart_mono (by omega : p + 1 ≤ q)
    have hstart (r : Nat) : (153 * (((r + 3 : Nat) : Int) - 3) + 2) / 5 = monthStart r := by
      simp only [monthStart]
      omega
    rw [if_neg hfirst, if_neg hfirst, if_neg (by omega), if_neg (by omega), hstart, hstart]
    omega

theorem toDays_lt_of_day (hy : d.year = d'.year) (hm : d.month = d'.month) (hd : d.day < d'.day) :
    d.toDays < d'.toDays := by
  simp only [toDays, hy, hm]
  omega

end Agenda.Date
