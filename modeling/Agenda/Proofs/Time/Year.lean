import Agenda.Proofs.Time.Instant
import Agenda.Proofs.Time.Month

/-!
# A year earlier

Twelve months before a date lies the same day of the year before, and before a leap day its last day of
February. That is 365 or 366 days earlier, because only one leap day can lie in between.

* `Date.toDays_yearEarlier`: how many days earlier that is.
* `Date.yearEarlier_eq_iff`: which dates have the same date a year earlier.
* `Date.addMonths?_twelve`: twelve months earlier, if that is supported.
* `Instant.addMonths?_twelve`: the same for instants, which keep their time of day.
* `Instant.lt_iff_beforeDaysAgo`: what comes before the same time of day on another day.
-/
namespace Agenda

namespace Date

variable {d : Date}

/-- The date a year earlier; a leap day becomes the day before it. -/
def yearEarlier (d : Date) : Date where
  year := d.year - 1
  month := d.month
  day := if d.month = 2 ∧ d.day = 29 then 28 else d.day

/-- Of two years in a row only one is a leap year. -/
theorem not_isLeapYear_pred {y : Int} (h : isLeapYear y) : ¬ isLeapYear (y - 1) := by
  rw [isLeapYear_iff] at *
  omega

/-- A day that the month of the year before does not have is a leap day. -/
theorem day_yearEarlier (h : d.Exists) :
    min d.day (daysInMonth (d.year - 1) d.month) = d.yearEarlier.day := by
  obtain ⟨h₁, h₂, -, hd⟩ := h
  obtain ⟨y, m, k⟩ := d
  simp only [yearEarlier] at *
  by_cases hfeb : m = 2
  · subst hfeb
    have hlong (y : Int) : daysInMonth y 2 = if isLeapYear y then 29 else 28 := rfl
    simp only [hlong, true_and] at *
    by_cases hy : isLeapYear y
    · rw [if_pos hy] at hd
      rw [if_neg (not_isLeapYear_pred hy)]
      split <;> omega
    · rw [if_neg hy] at hd
      split <;> split <;> omega
  · have hlong : daysInMonth (y - 1) m = daysInMonth y m := by
      interval_cases m <;> first | rfl | exact absurd rfl hfeb
    rw [hlong, if_neg fun hc => hfeb hc.1]
    omega

theorem exists_yearEarlier (h : d.Exists) : d.yearEarlier.Exists := by
  have hday := day_yearEarlier h
  have hlong := le_daysInMonth (d.year - 1) d.month
  obtain ⟨h₁, h₂, h₃, -⟩ := h
  refine ⟨h₁, h₂, ?_, ?_⟩
  · rw [← hday]
    omega
  · rw [← hday]
    exact min_le_right _ _

/-- A year earlier is 365 or 366 days earlier. -/
theorem toDays_yearEarlier (h : d.Exists) :
    d.toDays - d.yearEarlier.toDays = 365 ∨ d.toDays - d.yearEarlier.toDays = 366 := by
  obtain ⟨-, -, -, hd⟩ := h
  obtain ⟨y, m, k⟩ := d
  simp only [yearEarlier, toDays] at *
  by_cases hleap : m = 2 ∧ k = 29
  · obtain ⟨rfl, rfl⟩ := hleap
    have hy : isLeapYear y := by
      by_contra hn
      simp only [daysInMonth, if_neg hn] at hd
      omega
    rw [isLeapYear_iff] at hy
    simp only [and_self, if_true]
    omega
  · rw [if_neg hleap]
    split <;> omega

/-- Two dates have the same date a year earlier exactly if they are a leap day and the day before. -/
theorem yearEarlier_eq_iff {d' : Date} (h : d.Exists) (h' : d'.Exists) (hlt : d.toDays < d'.toDays) :
    d.yearEarlier.toDays = d'.yearEarlier.toDays ↔
      (d'.month = 2 ∧ d'.day = 29) ∧ d.toDays + 1 = d'.toDays := by
  have hbefore : toDays ⟨d'.year, 2, 28⟩ + 1 = toDays ⟨d'.year, 2, 29⟩ := by
    rw [toDays_eq_add, toDays_eq_add d'.year 2 29]
    omega
  constructor
  · intro heq
    have hdate : d.yearEarlier = d'.yearEarlier := by
      rw [← ofDays_toDays (exists_yearEarlier h), heq, ofDays_toDays (exists_yearEarlier h')]
    obtain ⟨y, m, k⟩ := d
    obtain ⟨y', m', k'⟩ := d'
    simp only [yearEarlier, mk.injEq] at hdate
    obtain ⟨hy, rfl, hk⟩ := hdate
    obtain rfl : y = y' := by omega
    rw [toDays_eq_add, toDays_eq_add y m k'] at hlt ⊢
    split at hk <;> split at hk <;> simp only <;> omega
  · rintro ⟨⟨hm, hk⟩, hnext⟩
    have hd' : d' = ⟨d'.year, 2, 29⟩ := by rw [← hm, ← hk]
    have hfeb : Exists ⟨d'.year, 2, 28⟩ := ⟨by simp, by simp, by simp, le_daysInMonth _ _⟩
    have hd : d = ⟨d'.year, 2, 28⟩ := by
      rw [hd'] at hnext
      rw [← ofDays_toDays h, ← ofDays_toDays hfeb]
      congr 1
      omega
    rw [hd, hd']
    rfl

/-- The first supported year. -/
def firstYear : Int := -262143

theorem minDays_le_iff (h : d.Exists) : minDays ≤ d.toDays ↔ firstYear ≤ d.year := by
  have hdays : (⟨firstYear, 1, 1⟩ : Date).toDays = minDays := by decide
  constructor
  · intro hmin
    by_contra hlt
    have := toDays_lt_of_year h (exists_first firstYear le_rfl (by decide)) (Int.not_le.1 hlt)
    omega
  · intro hy
    rcases hy.lt_or_eq with hlt | heq
    · have := toDays_lt_of_year (exists_first firstYear le_rfl (by decide)) h hlt
      omega
    · -- Of a year, the first of January comes first.
      obtain ⟨h₁, -, h₃, -⟩ := h
      obtain ⟨y, m, k⟩ := d
      subst heq
      rw [← hdays]
      simp only [toDays] at *
      split <;> omega

/-- **Twelve months.** Of the supported dates, only those of the first year have none a year
earlier. -/
theorem addMonths?_twelve (h : d.Exists) (hd : d.toDays ≤ maxDays) :
    d.addMonths? (-12) = if firstYear < d.year then some d.yearEarlier else none := by
  have hmonth : 12 * d.year + ((d.month : Int) - 1) + -12 =
      12 * (d.year - 1) + ((d.month : Int) - 1) := by omega
  obtain ⟨h₁, h₂, -, -⟩ := id h
  have hy : (12 * (d.year - 1) + ((d.month : Int) - 1)) / 12 = d.year - 1 := by omega
  have hm : ((12 * (d.year - 1) + ((d.month : Int) - 1)) % 12).toNat + 1 = d.month := by omega
  have hex := exists_yearEarlier h
  have hmin := minDays_le_iff hex
  have hspan := toDays_yearEarlier h
  simp only [addMonths?, hmonth, hy, hm, day_yearEarlier h, of?]
  rw [show (⟨d.year - 1, d.month, d.yearEarlier.day⟩ : Date) = d.yearEarlier from rfl]
  simp only [yearEarlier] at hmin
  by_cases hfirst : firstYear < d.year
  · rw [if_pos hfirst, if_pos ⟨hex, hmin.2 (by omega), by omega⟩]
  · rw [if_neg hfirst, if_neg fun hc => hfirst (by have := hmin.1 hc.2.1; omega)]

end Date

namespace Instant

variable {now t u : Instant}

/-- Every supported date has every time of day. -/
theorem exists_at? {d : Date} (hd : d.Exists) (hr : d.InRange) (now : Instant) :
    ∃ t, at? d now.secondOfDay now.nanos = some t ∧ t.date = d ∧
      t.secondOfDay = now.secondOfDay ∧ t.nanos = now.nanos := by
  have hlt := now.secondOfDay_lt
  obtain ⟨hmin, hmax⟩ := hr
  obtain ⟨-, -, hnanos, hleap⟩ := now.valid
  have hv : Valid (d.toDays * secondsPerDay + now.secondOfDay) now.nanos := by
    refine ⟨?_, ?_, hnanos, fun h => ?_⟩
    · simp only [minSeconds, secondsPerDay]
      omega
    · simp only [maxSeconds, secondsPerDay]
      omega
    · have := hleap h
      simp only [secondOfDay, secondsPerDay]
      omega
  have hat : at? d now.secondOfDay now.nanos = some ⟨_, _, hv⟩ := dif_pos hv
  exact ⟨_, hat, (at?_eq_some_iff hd hlt).1 hat⟩

/-- **Twelve months.** The date is a year earlier and the time of day the same, except in the first
supported year, which follows none. -/
theorem addMonths?_twelve (now : Instant) :
    if Date.firstYear < now.date.year then
      ∃ t, now.addMonths? (-12) = some t ∧ t.date = now.date.yearEarlier ∧
        t.secondOfDay = now.secondOfDay ∧ t.nanos = now.nanos
    else now.addMonths? (-12) = none := by
  have hex := now.exists_date
  obtain ⟨-, hmax⟩ := now.days_bounds
  rw [← toDays_date] at hmax
  rw [addMonths?, Date.addMonths?_twelve hex hmax]
  split
  · rename_i hy
    have hex' := Date.exists_yearEarlier hex
    have hspan := Date.toDays_yearEarlier hex
    have hmin : Date.minDays ≤ now.date.yearEarlier.toDays := by
      rw [Date.minDays_le_iff hex']
      simp only [Date.yearEarlier]
      omega
    exact exists_at? hex' ⟨hmin, by omega⟩ now
  · rfl

/-! ## The same time of day on other days -/

/-- The instant lies before the time of day of `now`, so many days earlier. -/
def BeforeDaysAgo (days : Int) (t now : Instant) : Prop :=
  t.seconds < now.seconds - days * secondsPerDay ∨
    t.seconds = now.seconds - days * secondsPerDay ∧ t.nanos < now.nanos

instance (days : Int) (t now : Instant) : Decidable (t.BeforeDaysAgo days now) :=
  inferInstanceAs (Decidable (_ ∨ _ ∧ _))

/-- `now` lies so many days after an instant with the same time of day. -/
theorem lt_iff_beforeDaysAgo {days : Int} (hd : u.days = now.days - days)
    (hs : u.secondOfDay = now.secondOfDay) (hn : u.nanos = now.nanos) :
    t < u ↔ BeforeDaysAgo days t now := by
  have hseconds : u.seconds = now.seconds - days * secondsPerDay := by
    rw [← u.seconds_eq, ← now.seconds_eq, hd, hs]
    simp only [secondsPerDay]
    omega
  show Instant.Lt t u ↔ _
  rw [Instant.Lt, BeforeDaysAgo, hseconds, hn]

/-- The further back a day lies, the fewer instants lie before it. -/
theorem BeforeDaysAgo.mono {days days' : Int} (h : BeforeDaysAgo days t now) (hle : days' ≤ days) :
    BeforeDaysAgo days' t now := by
  simp only [BeforeDaysAgo, secondsPerDay] at *
  omega

end Instant
end Agenda
