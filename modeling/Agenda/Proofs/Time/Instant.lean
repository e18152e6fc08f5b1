import Agenda.Time.Instant
import Agenda.Proofs.Time.Date

/-!
# Instants and their clocks

The second of an instant is a second of the day after the midnight of its date, so a date and a time of
day make one instant, and every instant is made by its own date and time.

* `lt_of_date`, `lt_of_secondOfDay`: instants ascend with their dates and clocks.
* `at?_eq_some_iff`: the instant of a date and a time of day is the one that has these.
* `exists_add_second`: a whole second is a second after another.
* `IsMidnight.le_iff`, `IsMidnight.lt_iff`: midnights separate the dates.
-/
namespace Agenda.Instant

variable (t : Instant)

/-! ## Clocks -/

theorem secondOfDay_lt : t.secondOfDay < 86400 := by
  simp only [secondOfDay, secondsPerDay]
  omega

theorem secondOfDay_eq : t.hour * 3600 + t.minute * 60 + t.second = t.secondOfDay := by
  simp only [hour, minute, second]
  omega

theorem seconds_eq : t.days * secondsPerDay + t.secondOfDay = t.seconds := by
  simp only [days, secondOfDay, secondsPerDay]
  omega

theorem days_bounds : Date.minDays ≤ t.days ∧ t.days ≤ Date.maxDays := by
  obtain ⟨h₁, h₂, -, -⟩ := t.valid
  simp only [minSeconds, maxSeconds, secondsPerDay] at h₁ h₂
  simp only [days, secondsPerDay]
  omega

/-- A leap second follows second 59. -/
theorem second_of_leap (h : nanosPerSecond ≤ t.nanos) : t.second = 59 := by
  have := t.valid.2.2.2 h
  simp only [second, secondOfDay, secondsPerDay]
  omega

/-! ## Clocks in order -/

theorem hour_le : t.hour ≤ 23 := by
  have := t.secondOfDay_lt
  simp only [hour]
  omega

theorem minute_le : t.minute ≤ 59 := Nat.le_of_lt_succ (Nat.mod_lt _ (by decide))

theorem second_le : t.second ≤ 59 := Nat.le_of_lt_succ (Nat.mod_lt _ (by decide))

theorem toDays_date : t.date.toDays = t.days := Date.toDays_ofDays t.days

theorem exists_date : t.date.Exists := Date.exists_ofDays t.days

variable {t} {u : Instant}

theorem date_eq_iff : t.date = u.date ↔ t.days = u.days := by
  constructor
  · intro h
    rw [← toDays_date, h, toDays_date]
  · intro h
    rw [date, h, date]

theorem lt_of_date (h : t.date.toDays < u.date.toDays) : t.seconds < u.seconds := by
  rw [toDays_date, toDays_date] at h
  simp only [days, secondsPerDay] at h
  omega

theorem lt_of_secondOfDay (hd : t.date = u.date) (h : t.secondOfDay < u.secondOfDay) :
    t.seconds < u.seconds := by
  have hdays : t.days = u.days := by rw [← toDays_date, hd, toDays_date]
  rw [← t.seconds_eq, ← u.seconds_eq, hdays]
  omega

theorem lt_of_hour (hd : t.date = u.date) (h : t.hour < u.hour) : t.seconds < u.seconds := by
  refine lt_of_secondOfDay hd ?_
  simp only [hour] at h
  omega

theorem lt_of_minute (hd : t.date = u.date) (hh : t.hour = u.hour) (h : t.minute < u.minute) :
    t.seconds < u.seconds := by
  refine lt_of_secondOfDay hd ?_
  simp only [hour, minute] at hh h
  omega

theorem lt_of_second (hd : t.date = u.date) (hh : t.hour = u.hour) (hm : t.minute = u.minute)
    (h : t.second < u.second) : t.seconds < u.seconds := by
  refine lt_of_secondOfDay hd ?_
  rw [← t.secondOfDay_eq, ← u.secondOfDay_eq, hh, hm]
  omega

/-- The date and the clock tell the second. -/
theorem seconds_eq_of_parts (hd : t.date = u.date) (hh : t.hour = u.hour)
    (hm : t.minute = u.minute) (hs : t.second = u.second) : t.seconds = u.seconds := by
  rw [← t.seconds_eq, ← u.seconds_eq, ← t.secondOfDay_eq, ← u.secondOfDay_eq, ← toDays_date, hd,
    toDays_date, hh, hm, hs]

theorem not_lt : ¬ t < u ↔ u ≤ t := by
  show ¬ Instant.Lt t u ↔ Instant.Le u t
  simp only [Instant.Lt, Instant.Le]
  omega

/-! ## Instants from their parts -/

variable {d : Date} {s n : Nat}

theorem eq_of_parts (hs : t.seconds = u.seconds) (hn : t.nanos = u.nanos) : t = u := by
  cases t
  cases u
  cases hs
  cases hn
  rfl

theorem of?_eq_some_iff {seconds : Int} :
    of? seconds n = some t ↔ t.seconds = seconds ∧ t.nanos = n := by
  unfold of?
  constructor
  · intro h
    split at h
    · cases h; exact ⟨rfl, rfl⟩
    · cases h
  · rintro ⟨rfl, rfl⟩
    exact dif_pos t.valid

theorem at?_eq_some_iff (hd : d.Exists) (hs : s < 86400) :
    at? d s n = some t ↔ t.date = d ∧ t.secondOfDay = s ∧ t.nanos = n := by
  rw [at?, of?_eq_some_iff]
  constructor
  · rintro ⟨hseconds, hnanos⟩
    have hdays : t.days = d.toDays := by
      simp only [days, hseconds, secondsPerDay]
      omega
    refine ⟨?_, ?_, hnanos⟩
    · rw [date, hdays, Date.ofDays_toDays hd]
    · simp only [secondOfDay, hseconds, secondsPerDay]
      omega
  · rintro ⟨rfl, rfl, hnanos⟩
    rw [date, Date.toDays_ofDays, seconds_eq]
    exact ⟨rfl, hnanos⟩

/-- A second later the fraction is the same, of second 59 if it was a leap second. -/
theorem seconds_add_second {u : Instant} (h : t.add? .second = some u) :
    u.seconds = t.seconds + 1 := by
  have hnanos := t.valid.2.2.1
  have hwhole : 0 < Duration.second.nanos.tdiv nanosPerSecond := by decide
  have hsecond : Duration.second.nanos = nanosPerSecond := rfl
  simp only [add?, hwhole, true_or, if_true] at h
  split at h <;>
  · obtain ⟨hs, -⟩ := of?_eq_some_iff.1 h
    simp only [hsecond, nanosPerSecond] at *
    omega

/-- A whole second but the first is a second after another. -/
theorem exists_add_second (hn : t.nanos = 0) (h : minSeconds < t.seconds) :
    ∃ before : Instant, before.add? .second = some t := by
  have hvalid : Valid (t.seconds - 1) 0 := by
    have := t.valid.2.1
    refine ⟨by omega, by omega, by decide, fun h => ?_⟩
    exact absurd h (by decide)
  refine ⟨⟨t.seconds - 1, 0, hvalid⟩, ?_⟩
  have hnot : ¬ nanosPerSecond ≤ 0 := by decide
  simp only [add?, if_neg hnot, ofNanos?, of?_eq_some_iff, hn]
  simp only [Duration.second, nanosPerSecond]
  omega

/-! ## Midnights -/

/-- The instant is the start of its date. -/
def IsMidnight (t : Instant) : Prop := t.secondOfDay = 0 ∧ t.nanos = 0

variable {m m' : Instant} {k : Int}

theorem isMidnight_iff :
    m.IsMidnight ∧ m.days = k ↔ m.seconds = k * secondsPerDay ∧ m.nanos = 0 := by
  simp only [IsMidnight, secondOfDay, days, secondsPerDay]
  omega

/-- What comes at or after a midnight comes on its day or later. -/
theorem IsMidnight.le_iff (h : m.IsMidnight) : m ≤ t ↔ m.days ≤ t.days := by
  obtain ⟨hs, hn⟩ := isMidnight_iff.1 ⟨h, rfl⟩
  show Instant.Le m t ↔ _
  simp only [Instant.Le, days, secondsPerDay] at *
  omega

theorem IsMidnight.lt_iff (h : m.IsMidnight) : t < m ↔ t.days < m.days := by
  obtain ⟨hs, hn⟩ := isMidnight_iff.1 ⟨h, rfl⟩
  show Instant.Lt t m ↔ _
  simp only [Instant.Lt, days, secondsPerDay] at *
  omega

theorem exists_midnight (h₁ : Date.minDays ≤ k) (h₂ : k ≤ Date.maxDays) :
    ∃ m : Instant, m.IsMidnight ∧ m.days = k := by
  have hv : Valid (k * secondsPerDay) 0 := by
    simp only [Valid, minSeconds, maxSeconds, secondsPerDay, nanosPerSecond]
    omega
  exact ⟨⟨_, _, hv⟩, isMidnight_iff.2 ⟨rfl, rfl⟩⟩

theorem midnight?_eq_some_iff :
    d.midnight? = some m ↔ m.IsMidnight ∧ m.days = d.toDays := by
  rw [Date.midnight?, at?, of?_eq_some_iff, isMidnight_iff]
  simp

/-- So many days after a midnight it is midnight again. -/
theorem IsMidnight.add?_eq_some_iff (h : m.IsMidnight) {span : Duration}
    (hd : span.nanos = k * 86400000000000) :
    m.add? span = some m' ↔ m'.IsMidnight ∧ m'.days = m.days + k := by
  obtain ⟨hs, hn⟩ := isMidnight_iff.1 ⟨h, rfl⟩
  have hsmall : ¬ nanosPerSecond ≤ m.nanos := by simp [hn, nanosPerSecond]
  simp only [add?]
  rw [if_neg hsmall, ofNanos?, of?_eq_some_iff, isMidnight_iff, hs, hn, hd]
  simp only [nanosPerSecond, secondsPerDay]
  omega

end Agenda.Instant
