import Agenda.Proofs.Time.Date

/-!
# Weeks and months as spans of days

A week begins on a Monday, a month on its first; the dates of one week, and those of one month, are the
days from there to the beginning of the next one.

* `monday_eq_iff`: the dates of a week, by their day numbers.
* `sameMonth_iff`: the dates of a month, by their day numbers.
* `toDays_next`: where the next month begins. Only the last supported month is followed by none
  (`maxDays_lt_nextMonth_iff`).
-/
namespace Agenda.Date

variable {d d' : Date}

/-- The day number of the Monday on or before the date. -/
def monday (d : Date) : Int := d.toDays - d.daysFromMonday

/-- The week from a Monday holds the dates of which it is the Monday. -/
theorem monday_eq_iff : d.monday = d'.monday ↔ d'.monday ≤ d.toDays ∧ d.toDays < d'.monday + 7 := by
  simp only [monday, daysFromMonday]
  omega

/-- The day number of the first of the date's month. -/
def firstOfMonth (d : Date) : Int := d.toDays + 1 - d.day

/-- The day number of the first of the month after. -/
def nextMonth (d : Date) : Int := d.firstOfMonth + daysInMonth d.year d.month

theorem toDays_eq_add (y : Int) (m k : Nat) : toDays ⟨y, m, k⟩ = toDays ⟨y, m, 1⟩ + k - 1 := by
  simp only [toDays]
  omega

theorem toDays_first (d : Date) : toDays ⟨d.year, d.month, 1⟩ = d.firstOfMonth := by
  rw [firstOfMonth, toDays_eq_add d.year d.month d.day]
  omega

/-- A month holds the dates from its first on that lie before the first of the next. -/
theorem sameMonth_iff (h : d.Exists) (h' : d'.Exists) :
    d.year = d'.year ∧ d.month = d'.month ↔
      d'.firstOfMonth ≤ d.toDays ∧ d.toDays < d'.nextMonth := by
  obtain ⟨h₁, h₂, h₃, h₄⟩ := h
  constructor
  · intro hs
    rw [nextMonth, ← toDays_first, ← hs.1, ← hs.2, toDays_eq_add d.year d.month d.day]
    omega
  · intro hd
    -- The day of this month with the day number of `d` is `d`.
    let c : Date := ⟨d'.year, d'.month, (d.toDays - d'.firstOfMonth).toNat + 1⟩
    have hc : c.Exists := by
      refine ⟨h'.1, h'.2.1, Nat.le_add_left 1 _, ?_⟩
      simp only [nextMonth] at hd
      simp only [c]
      omega
    have hn : c.toDays = d.toDays := by
      rw [toDays_eq_add, toDays_first]
      omega
    have hcd : c = d := by rw [← ofDays_toDays hc, hn, ofDays_toDays ⟨h₁, h₂, h₃, h₄⟩]
    rw [← hcd]
    exact ⟨rfl, rfl⟩

theorem month_bounds (h : d.Exists) : d.firstOfMonth ≤ d.toDays ∧ d.toDays < d.nextMonth :=
  (sameMonth_iff h h).1 ⟨rfl, rfl⟩

/-- A month that is not the last of its year is followed by the next one. -/
theorem toDays_succ {y : Int} {m : Nat} (h₁ : 1 ≤ m) (h₂ : m < 12) :
    toDays ⟨y, m + 1, 1⟩ = toDays ⟨y, m, 1⟩ + daysInMonth y m := by
  by_cases hfeb : m = 2
  · -- The first of March follows the leap day.
    subst hfeb
    have hlong : daysInMonth y 2 = if isLeapYear y then 29 else 28 := rfl
    by_cases hleap : isLeapYear y
    · rw [hlong, if_pos hleap]
      rw [isLeapYear_iff] at hleap
      simp only [toDays]
      omega
    · rw [hlong, if_neg hleap]
      rw [isLeapYear_iff] at hleap
      simp only [toDays]
      omega
  · interval_cases m <;> simp only [toDays, daysInMonth] <;> omega

/-- December is followed by January of the next year, any other month by the one after it. -/
theorem toDays_next (h₁ : 1 ≤ d.month) (h₂ : d.month ≤ 12) {m : Int}
    (hm : m = 12 * d.year + (d.month - 1) + 1) :
    toDays ⟨m / 12, (m % 12).toNat + 1, 1⟩ = d.nextMonth := by
  obtain ⟨y, mo, k⟩ := d
  simp only at h₁ h₂ hm
  rw [nextMonth, ← toDays_first]
  simp only
  by_cases hlast : mo = 12
  · have hy : m / 12 = y + 1 := by omega
    have hr : (m % 12).toNat + 1 = 1 := by omega
    rw [hy, hr, hlast]
    simp only [toDays, daysInMonth]
    omega
  · have hy : m / 12 = y := by omega
    have hr : (m % 12).toNat + 1 = mo + 1 := by omega
    rw [hy, hr, toDays_succ h₁ (by omega)]

/-! ### At the ends of the supported range -/

theorem firstOfMonth_congr (hy : d.year = d'.year) (hm : d.month = d'.month) :
    d.firstOfMonth = d'.firstOfMonth := by
  rw [← toDays_first, ← toDays_first, hy, hm]

theorem minDays_le_firstOfMonth (h : d.Exists) (hd : minDays ≤ d.toDays) :
    minDays ≤ d.firstOfMonth := by
  by_contra hn
  -- Otherwise the first supported date lies in the month, and it is the first of its month.
  have hdays : (⟨-262143, 1, 1⟩ : Date).toDays = minDays := by decide
  obtain ⟨-, hnext⟩ := month_bounds h
  obtain ⟨hy, hm⟩ := (sameMonth_iff (d := ⟨-262143, 1, 1⟩) (by decide) h).2 (by omega)
  have hfirst := firstOfMonth_congr hy hm
  simp only [firstOfMonth, hdays] at hfirst hn
  omega

/-- Only the last supported month is not followed by a supported one. -/
theorem maxDays_lt_nextMonth_iff (h : d.Exists) (hd : d.toDays ≤ maxDays) :
    maxDays < d.nextMonth ↔ d.year = last.year ∧ d.month = last.month := by
  have hdays : last.toDays = maxDays := by decide
  obtain ⟨hfirst, -⟩ := month_bounds h
  rw [eq_comm, eq_comm (b := last.month), sameMonth_iff (by decide) h, hdays]
  omega

theorem exists_first (y : Int) {m : Nat} (h₁ : 1 ≤ m) (h₂ : m ≤ 12) : Exists ⟨y, m, 1⟩ :=
  ⟨h₁, h₂, Nat.le_refl 1, Nat.le_trans (show 1 ≤ 28 by decide) (le_daysInMonth y m)⟩

/-- The first of the next month, if it is supported, and the last supported date otherwise. -/
theorem toDays_addMonths? (h : d.Exists) (hd : minDays ≤ d.toDays) :
    ((addMonths? ⟨d.year, d.month, 1⟩ 1).getD last).toDays = min d.nextMonth maxDays := by
  obtain ⟨-, hlt⟩ := month_bounds h
  have hone (y : Int) (m : Nat) : min 1 (daysInMonth y m) = 1 :=
    min_eq_left (Nat.le_trans (by decide) (le_daysInMonth y m))
  have hnext := toDays_next h.1 h.2.1 rfl
  simp only [addMonths?, of?, hone]
  generalize hm : 12 * d.year + ((d.month : Int) - 1) + 1 = m at hnext
  have hex : Exists ⟨m / 12, (m % 12).toNat + 1, 1⟩ := exists_first _ (by omega) (by omega)
  by_cases hr : d.nextMonth ≤ maxDays
  · have hin : InRange ⟨m / 12, (m % 12).toNat + 1, 1⟩ := by
      rw [InRange, hnext]
      omega
    rw [if_pos ⟨hex, hin⟩, Option.getD_some, hnext, min_eq_left hr]
  · have hout : ¬ InRange ⟨m / 12, (m % 12).toNat + 1, 1⟩ := by
      rw [InRange, hnext]
      omega
    have hlast : last.toDays = maxDays := by decide
    rw [if_neg fun hc => hout hc.2, Option.getD_none, hlast, min_eq_right (by omega)]

end Agenda.Date
