import Agenda.Proofs.Time.Order
import Agenda.Proofs.Views

/-!
# Windows tile time

The windows of a view lie side by side: one holds every instant that it is the window of, and where it
stops the next one starts. A window is missing only where it would begin or end beyond the supported
range. The window of the last month is cut short instead, so that the last date is in no month.

* `View.exists_window_iff`: where a window is not missing.
* `View.window?_of_contains`: all instants of a window have this window.
* `View.start_next`: where a window stops the next one starts.
* `windows_tile`: the three together.
-/
namespace Agenda

variable {v : View} {now t : Instant} {w w' : Window}

/-! ## Mondays and months -/

namespace Date

variable {d m : Date}

/-- The date `m` is the Monday on or before `d`. -/
structure IsMondayOf (m d : Date) : Prop where
  date_exists : m.Exists
  monday : m.daysFromMonday = 0
  le : m.toDays ≤ d.toDays
  lt : d.toDays < m.toDays + 7

theorem isMondayOf_iff : m.IsMondayOf d ↔ m.Exists ∧ m.toDays = d.monday := by
  constructor
  · rintro ⟨hex, hm, hle, hlt⟩
    refine ⟨hex, ?_⟩
    simp only [monday, daysFromMonday] at *
    omega
  · rintro ⟨hex, hm⟩
    refine ⟨hex, ?_, ?_, ?_⟩ <;>
    · simp only [monday, daysFromMonday] at *
      omega

theorem inRange_iff {n : Int} (h : m.toDays = n) : m.InRange ↔ minDays ≤ n ∧ n ≤ maxDays := by
  rw [InRange, h]

/-- The next month begins on the first day of a month. -/
theorem day_nextMonth (h : d.Exists) : (ofDays d.nextMonth).day = 1 := by
  rw [← toDays_next h.1 h.2.1 rfl, ofDays_toDays (exists_first _ (by omega) (by omega))]

theorem nextMonth_ne_maxDays (h : d.Exists) : d.nextMonth ≠ maxDays := by
  intro hn
  have hday := day_nextMonth h
  rw [hn] at hday
  exact absurd hday (by decide)

end Date

/-! ## The days of a window -/

namespace View

/-- The day number of the first day that the view of a date shows. -/
def firstDay (d : Date) : View → Int
  | day => d.toDays
  | week => d.monday
  | month => d.firstOfMonth

/-- The day number before which the view of a date stops. -/
def stopDay (d : Date) : View → Int
  | day => d.toDays + 1
  | week => d.monday + 7
  | month => min d.nextMonth Date.maxDays

theorem window?_eq_some_iff :
    v.window? now = some w ↔ w.Covers (v.firstDay now.date) (v.stopDay now.date) := by
  cases v with
  | day =>
    rw [firstDay, stopDay, now.toDays_date]
    exact dayWindow?_eq_some_iff
  | week => exact weekWindow?_eq_some_iff
  | month => exact monthWindow?_eq_some_iff

theorem firstDay_le (v : View) (now : Instant) : v.firstDay now.date ≤ now.days := by
  rw [← now.toDays_date]
  cases v with
  | day => exact le_rfl
  | week =>
    simp only [firstDay, Date.monday]
    omega
  | month => exact (Date.month_bounds now.exists_date).1

/-- An instant comes before its view stops, unless this is the month that is cut short. -/
theorem lt_stopDay_iff :
    now.days < v.stopDay now.date ↔ ¬ (v = .month ∧ now.date = .last) := by
  have hmax := now.days_bounds.2
  cases v with
  | day => simp [stopDay, now.toDays_date]
  | week =>
    have hlt := (Date.monday_eq_iff.1 (rfl : now.date.monday = now.date.monday)).2
    rw [now.toDays_date] at hlt
    simp [stopDay, hlt]
  | month =>
    have hlt := (Date.month_bounds now.exists_date).2
    rw [now.toDays_date] at hlt
    simp [stopDay, hlt, ← Instant.date_ne_last_iff]

theorem le_stopDay (v : View) (now : Instant) : now.days ≤ v.stopDay now.date := by
  by_cases h : v = .month ∧ now.date = .last
  · obtain ⟨rfl, hlast⟩ := h
    have hlt := (Date.month_bounds now.exists_date).2
    rw [now.toDays_date] at hlt
    exact le_min hlt.le now.days_bounds.2
  · exact (lt_stopDay_iff.2 h).le

/-- **Where windows exist.** A window is missing if it begins or stops beyond the supported range. -/
theorem exists_window_iff : (∃ w, v.window? now = some w) ↔
    Date.minDays ≤ v.firstDay now.date ∧ v.stopDay now.date ≤ Date.maxDays := by
  obtain ⟨hmin, hmax⟩ := now.days_bounds
  have hfirst := v.firstDay_le now
  have hstop := v.le_stopDay now
  simp only [window?_eq_some_iff]
  constructor
  · rintro ⟨w, hw⟩
    rw [← hw.start_days, ← hw.stop_days]
    exact ⟨w.start.days_bounds.1, w.stop.days_bounds.2⟩
  · rintro ⟨h₁, h₂⟩
    exact Agenda.exists_covers h₁ (by omega) (by omega) h₂

theorem window?_eq_none_iff : v.window? now = none ↔
    ¬ (Date.minDays ≤ v.firstDay now.date ∧ v.stopDay now.date ≤ Date.maxDays) := by
  rw [← exists_window_iff, Option.eq_none_iff_forall_ne_some, not_exists]

/-! ## Side by side -/

theorem days_congr (h : v.Shares t now) :
    v.firstDay t.date = v.firstDay now.date ∧ v.stopDay t.date = v.stopDay now.date := by
  cases v with
  | day => exact ⟨congrArg Date.toDays h, congrArg (·.toDays + 1) h⟩
  | week => exact ⟨h, congrArg (· + 7) h⟩
  | month =>
    have hfirst := Date.firstOfMonth_congr h.1 h.2
    refine ⟨hfirst, ?_⟩
    rw [stopDay, stopDay, Date.nextMonth, Date.nextMonth, hfirst, h.1, h.2]

/-- The instants of a window have this window. -/
theorem window?_of_contains (h : v.window? now = some w) (h₁ : w.start ≤ t) (h₂ : t < w.stop) :
    v.window? t = some w := by
  obtain ⟨hfirst, hstop⟩ := days_congr ((contains_iff h).1 ⟨h₁, h₂⟩).1
  rw [window?_eq_some_iff, hfirst, hstop]
  exact window?_eq_some_iff.1 h

theorem start_le (h : v.window? now = some w) : w.start ≤ now := by
  have hw := window?_eq_some_iff.1 h
  rw [hw.start_midnight.le_iff, hw.start_days]
  exact v.firstDay_le now

theorem lt_stop_iff (h : v.window? now = some w) :
    now < w.stop ↔ ¬ (v = .month ∧ now.date = .last) := by
  have hw := window?_eq_some_iff.1 h
  rw [hw.stop_midnight.lt_iff, hw.stop_days]
  exact lt_stopDay_iff

/-- The month is the last that is supported, whose window is cut short. -/
def Saturated (v : View) (now : Instant) : Prop :=
  v = .month ∧ now.date.year = 262142 ∧ now.date.month = 12

instance (v : View) (now : Instant) : Decidable (v.Saturated now) :=
  inferInstanceAs (Decidable (_ ∧ _ ∧ _))

/-- Only a window that is cut short stops on the last date, if it is one of a month. -/
theorem stop_ne_last (h : v.window? now = some w) (hn : ¬ v.Saturated now) :
    ¬ (v = .month ∧ w.stop.date = .last) := by
  rintro ⟨rfl, hlast⟩
  have hw := window?_eq_some_iff.1 h
  have hmax := now.days_bounds.2
  rw [← now.toDays_date] at hmax
  have hstop : w.stop.days = Date.maxDays := by
    rw [← w.stop.toDays_date, hlast]
    decide
  have hnext : ¬ Date.maxDays < now.date.nextMonth := fun hlt =>
    hn ⟨rfl, (Date.maxDays_lt_nextMonth_iff now.exists_date hmax).1 hlt⟩
  have hne := Date.nextMonth_ne_maxDays now.exists_date
  have hmin : min now.date.nextMonth Date.maxDays = Date.maxDays := hw.stop_days.symm.trans hstop
  omega

/-- **Side by side.** If the window where another one stops began earlier, an instant would lie in
both, and they would be the same. -/
theorem start_next (h : v.window? now = some w) (hn : ¬ v.Saturated now)
    (h' : v.window? w.stop = some w') : w'.start = w.stop := by
  have hle : w'.start ≤ w.stop := start_le h'
  have hlt : w.stop < w'.stop := (lt_stop_iff h').2 (stop_ne_last h hn)
  by_contra hne
  have hbefore : w'.start < w.stop := lt_of_le_of_ne hle hne
  have hstart : w.start < w.stop := by
    refine lt_of_le_of_lt (start_le h) ((lt_stop_iff h).2 fun hlast => hn ?_)
    rw [Saturated, hlast.2]
    exact ⟨hlast.1, rfl, rfl⟩
  have hboth := window?_of_contains h (le_max_left w.start w'.start) (max_lt hstart hbefore)
  have hboth' := window?_of_contains h' (le_max_right w.start w'.start)
    (max_lt (hstart.trans hlt) (hbefore.trans hlt))
  rw [hboth, Option.some.injEq] at hboth'
  rw [hboth'] at hlt
  exact lt_irrefl _ hlt

/-- The window of a view of `now` lies side by side with the next one. -/
structure Tile (v : View) (now : Instant) (w : Window) : Prop where
  start_midnight : w.start.IsMidnight
  stop_midnight : w.stop.IsMidnight
  start_le : w.start ≤ now
  lt_stop_iff : now < w.stop ↔ ¬ (v = .month ∧ now.date = .last)
  same : ∀ t, w.start ≤ t → t < w.stop → v.window? t = some w
  next : ¬ v.Saturated now → ∀ w', v.window? w.stop = some w' → w'.start = w.stop

end View

/-- **Windows.** The day is missing exactly on the last date, the week exactly if its Monday or the next
one is not supported, the month never. A window begins and ends at midnights, holds the instant that it
is the window of, unless this is on the last date and the window one of a month, is the window of all
instants that it holds, and is followed by the next one unless it is cut short. -/
theorem windows_tile (now : Instant) :
    (View.day.window? now = none ↔ now.date = ⟨262142, 12, 31⟩) ∧
    (View.week.window? now = none ↔ ∃ m m' : Date, m.IsMondayOf now.date ∧
      m'.Exists ∧ m'.toDays = m.toDays + 7 ∧ (¬ m.InRange ∨ ¬ m'.InRange)) ∧
    View.month.window? now ≠ none ∧
    ∀ (v : View) (w : Window), v.window? now = some w → v.Tile now w := by
  obtain ⟨hmin, hmax⟩ := now.days_bounds
  refine ⟨?_, ?_, ?_, fun v w hw => ?_⟩
  · rw [View.window?_eq_none_iff, ← not_ne_iff (a := now.date),
      show (⟨262142, 12, 31⟩ : Date) = .last from rfl, Instant.date_ne_last_iff, View.firstDay,
      View.stopDay, now.toDays_date]
    omega
  · rw [View.window?_eq_none_iff, View.firstDay, View.stopDay]
    constructor
    · intro hn
      refine ⟨.ofDays now.date.monday, .ofDays (now.date.monday + 7),
        Date.isMondayOf_iff.2 ⟨Date.exists_ofDays _, Date.toDays_ofDays _⟩, Date.exists_ofDays _, ?_,
        ?_⟩
      · rw [Date.toDays_ofDays, Date.toDays_ofDays]
      · rw [Date.inRange_iff (Date.toDays_ofDays _), Date.inRange_iff (Date.toDays_ofDays _)]
        omega
    · rintro ⟨m, m', hm, -, hnext, hout⟩
      obtain ⟨-, hm⟩ := Date.isMondayOf_iff.1 hm
      rw [Date.inRange_iff hm, Date.inRange_iff (hnext.trans (congrArg (· + 7) hm))] at hout
      have hle := View.week.firstDay_le now
      have hge := View.week.le_stopDay now
      simp only [View.firstDay, View.stopDay] at hle hge
      omega
  · obtain ⟨w, hw⟩ := exists_monthWindow now
    exact fun hn => Option.some_ne_none w (hw.symm.trans hn)
  · have hc := View.window?_eq_some_iff.1 hw
    exact {
      start_midnight := hc.start_midnight
      stop_midnight := hc.stop_midnight
      start_le := View.start_le hw
      lt_stop_iff := View.lt_stop_iff hw
      same := fun t => View.window?_of_contains hw
      next := fun hn w' => View.start_next hw hn }

/-- The week of the leap second at the end of 2016. -/
theorem windows_tile_newYearsEve : View.week.window? newYearsEve.startDate = some eveWeek ∧
    View.week.Tile newYearsEve.startDate eveWeek ∧ newYearsEve.startDate < eveWeek.stop ∧
    ∃ w, View.week.window? eveWeek.stop = some w ∧ w.start = eveWeek.stop := by
  have hw : View.week.window? newYearsEve.startDate = some eveWeek := by decide
  have htile := (windows_tile newYearsEve.startDate).2.2.2 .week eveWeek hw
  refine ⟨hw, htile, htile.lt_stop_iff.2 (by decide), _, rfl, ?_⟩
  exact htile.next (by decide) _ rfl

example : View.week.window? .first = none ∧ Date.daysFromMonday ⟨-262143, 1, 1⟩ = 3 := by decide

end Agenda
