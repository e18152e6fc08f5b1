import Agenda.Calendar
import Agenda.Proofs.Time.Instant
import Agenda.Proofs.Time.Month

/-!
# What the windows hold

The window of a view begins and ends at midnights, so it holds whole days, and whether an instant lies
in it is decided by its date.

* `dayWindow?_eq_some_iff`, `weekWindow?_eq_some_iff`, `monthWindow?_eq_some_iff`: the days that each
  window covers. A window fails only if it would end, or begin, beyond the supported range.
* `exists_monthWindow`: the window of a month never fails, since the last month is cut short.
* `View.contains_iff`: an instant lies in a window of `now` iff it has the same date, week or month.
-/
namespace Agenda

/-! ## Days that a window covers -/

variable {now t : Instant} {w : Window} {first stop : Int}

/-- The window holds the days from `first` on that lie before `stop`. -/
structure Window.Covers (w : Window) (first stop : Int) : Prop where
  start_midnight : w.start.IsMidnight
  start_days : w.start.days = first
  stop_midnight : w.stop.IsMidnight
  stop_days : w.stop.days = stop

theorem Window.Covers.contains_iff (h : w.Covers first stop) :
    w.start ≤ t ∧ t < w.stop ↔ first ≤ t.days ∧ t.days < stop := by
  rw [h.start_midnight.le_iff, h.stop_midnight.lt_iff, h.start_days, h.stop_days]

theorem exists_covers (h₁ : Date.minDays ≤ first) (h₂ : first ≤ Date.maxDays)
    (h₃ : Date.minDays ≤ stop) (h₄ : stop ≤ Date.maxDays) : ∃ w : Window, w.Covers first stop := by
  obtain ⟨m, hm, hd⟩ := Instant.exists_midnight h₁ h₂
  obtain ⟨m', hm', hd'⟩ := Instant.exists_midnight h₃ h₄
  exact ⟨⟨m, m'⟩, hm, hd, hm', hd'⟩

/-! ## The windows -/

/-- A window that begins with a date and lasts for some days covers these days. -/
theorem covers_iff_of_span {d : Date} {start stop : Instant} {span : Duration} {k : Int}
    (hspan : span.nanos = k * 86400000000000) :
    (∃ m, d.midnight? = some m ∧ ∃ m', m.add? span = some m' ∧ m = start ∧ m' = stop) ↔
      Window.Covers ⟨start, stop⟩ d.toDays (d.toDays + k) := by
  constructor
  · rintro ⟨m, hm, m', hm', rfl, rfl⟩
    obtain ⟨hmid, hd⟩ := Instant.midnight?_eq_some_iff.1 hm
    obtain ⟨hmid', hd'⟩ := (hmid.add?_eq_some_iff hspan).1 hm'
    exact ⟨hmid, hd, hmid', by rw [hd', hd]⟩
  · rintro ⟨hmid, hd, hmid', hd'⟩
    have hstop : start.add? span = some stop :=
      (hmid.add?_eq_some_iff hspan).2 ⟨hmid', by rw [hd', hd]⟩
    exact ⟨start, Instant.midnight?_eq_some_iff.2 ⟨hmid, hd⟩, stop, hstop, rfl, rfl⟩

theorem dayWindow?_eq_some_iff : dayWindow? now = some w ↔ w.Covers now.days (now.days + 1) := by
  obtain ⟨start, stop⟩ := w
  have hday : Duration.day.nanos = 1 * 86400000000000 := rfl
  simp only [dayWindow?, Option.bind_eq_bind, Option.bind_eq_some_iff, Option.pure_def,
    Option.some.injEq, Window.mk.injEq]
  rw [covers_iff_of_span hday, Instant.toDays_date]

theorem weekWindow?_eq_some_iff :
    weekWindow? now = some w ↔ w.Covers now.date.monday (now.date.monday + 7) := by
  obtain ⟨start, stop⟩ := w
  have hweek : Duration.week.nanos = 7 * 86400000000000 := rfl
  have hmonday : now.date.toDays + -(now.date.daysFromMonday : Int) = now.date.monday := by
    rw [Date.monday]
    omega
  simp only [weekWindow?, Option.bind_eq_bind, Option.bind_eq_some_iff, Option.pure_def,
    Option.some.injEq, Window.mk.injEq, Date.addDays?, hmonday]
  constructor
  · rintro ⟨d, hd, h⟩
    split at hd
    · cases hd
      have hc := (covers_iff_of_span hweek).1 h
      rwa [Date.toDays_ofDays] at hc
    · cases hd
  · intro h
    refine ⟨.ofDays now.date.monday, if_pos ?_, (covers_iff_of_span hweek).2 ?_⟩
    · rw [← h.start_days]
      exact start.days_bounds
    · rwa [Date.toDays_ofDays]

theorem monthWindow?_eq_some_iff : monthWindow? now = some w ↔
    w.Covers now.date.firstOfMonth (min now.date.nextMonth Date.maxDays) := by
  obtain ⟨start, stop⟩ := w
  have hex := now.exists_date
  obtain ⟨hmin, hmax⟩ := now.days_bounds
  rw [← now.toDays_date] at hmin hmax
  have hle := Date.minDays_le_firstOfMonth hex hmin
  obtain ⟨hfirst, -⟩ := Date.month_bounds hex
  have hdays : now.date.toDays + (1 - now.date.day) = now.date.firstOfMonth := by
    rw [Date.firstOfMonth]
    omega
  have hdate : Date.ofDays now.date.firstOfMonth = ⟨now.date.year, now.date.month, 1⟩ := by
    rw [← Date.toDays_first, Date.ofDays_toDays (Date.exists_first _ hex.1 hex.2.1)]
  have hstop := Date.toDays_addMonths? hex hmin
  simp only [monthWindow?, Option.bind_eq_bind, Option.bind_eq_some_iff, Option.pure_def,
    Option.some.injEq, Window.mk.injEq, Date.addDays?, hdays, hdate,
    if_pos (And.intro hle (hfirst.trans hmax))]
  constructor
  · rintro ⟨d, rfl, m, hm, m', hm', rfl, rfl⟩
    obtain ⟨hmid, hd⟩ := Instant.midnight?_eq_some_iff.1 hm
    obtain ⟨hmid', hd'⟩ := Instant.midnight?_eq_some_iff.1 hm'
    exact ⟨hmid, by rw [hd, Date.toDays_first], hmid', by rw [hd', hstop]⟩
  · rintro ⟨hmid, hd, hmid', hd'⟩
    refine ⟨_, rfl, start, Instant.midnight?_eq_some_iff.2 ⟨hmid, ?_⟩, stop,
      Instant.midnight?_eq_some_iff.2 ⟨hmid', ?_⟩, rfl, rfl⟩
    · rw [hd, Date.toDays_first]
    · rw [hd', hstop]

/-- Every instant has a month to show. -/
theorem exists_monthWindow (now : Instant) : ∃ w, monthWindow? now = some w := by
  have hex := now.exists_date
  obtain ⟨hmin, hmax⟩ := now.days_bounds
  rw [← now.toDays_date] at hmin hmax
  have hle := Date.minDays_le_firstOfMonth hex hmin
  obtain ⟨hfirst, hnext⟩ := Date.month_bounds hex
  obtain ⟨w, hw⟩ := exists_covers hle (hfirst.trans hmax)
    (le_min (hmin.trans hnext.le) (by decide)) (min_le_right _ _)
  exact ⟨w, monthWindow?_eq_some_iff.2 hw⟩

theorem View.exists_covers {v : View} (h : v.window? now = some w) :
    ∃ first stop, w.Covers first stop := by
  cases v with
  | day => exact ⟨_, _, dayWindow?_eq_some_iff.1 h⟩
  | week => exact ⟨_, _, weekWindow?_eq_some_iff.1 h⟩
  | month => exact ⟨_, _, monthWindow?_eq_some_iff.1 h⟩

/-- The window of the last month ends with the last midnight. -/
theorem monthWindow?_stop (h : monthWindow? now = some w) (hy : now.date.year = Date.last.year)
    (hm : now.date.month = Date.last.month) : Date.last.midnight? = some w.stop := by
  have hw := monthWindow?_eq_some_iff.1 h
  have hmax := now.days_bounds.2
  rw [← now.toDays_date] at hmax
  have hlast : Date.last.toDays = Date.maxDays := by decide
  have hnext := (Date.maxDays_lt_nextMonth_iff now.exists_date hmax).2 ⟨hy, hm⟩
  rw [Instant.midnight?_eq_some_iff, hlast, hw.stop_days]
  exact ⟨hw.stop_midnight, min_eq_right hnext.le⟩

/-! ## Instants in a window -/

/-- Both instants lie in one day, in one week from Monday on, or in one month. -/
def View.Shares : View → Instant → Instant → Prop
  | day, t, u => t.date = u.date
  | week, t, u => t.date.monday = u.date.monday
  | month, t, u => t.date.year = u.date.year ∧ t.date.month = u.date.month

theorem View.shares_congr {v : View} {t' : Instant} (h : t.date = t'.date) :
    v.Shares t now ↔ v.Shares t' now := by
  cases v <;> simp only [Shares, h]

theorem Instant.date_ne_last_iff : t.date ≠ .last ↔ t.days < Date.maxDays := by
  have hmax := t.days_bounds.2
  have hlast : Date.ofDays Date.maxDays = .last := by decide
  constructor
  · intro h
    refine lt_of_le_of_ne hmax fun hd => h ?_
    rw [date, hd, hlast]
  · intro h hd
    have hdays := t.toDays_date
    rw [hd] at hdays
    have : Date.last.toDays = Date.maxDays := by decide
    omega

/-- **Windows.** A window holds the instants of the same day, week or month, except that the last
supported date is in no month. -/
theorem View.contains_iff {v : View} (h : v.window? now = some w) :
    w.start ≤ t ∧ t < w.stop ↔ v.Shares t now ∧ (v = .month → t.date ≠ .last) := by
  cases v with
  | day =>
    rw [(dayWindow?_eq_some_iff.1 h).contains_iff, Shares, Instant.date_eq_iff]
    simp
    omega
  | week =>
    rw [(weekWindow?_eq_some_iff.1 h).contains_iff, Shares, Date.monday_eq_iff, Instant.toDays_date]
    simp
  | month =>
    rw [(monthWindow?_eq_some_iff.1 h).contains_iff, Shares,
      Date.sameMonth_iff t.exists_date now.exists_date, Instant.toDays_date,
      Instant.date_ne_last_iff]
    simp
    tauto

end Agenda
