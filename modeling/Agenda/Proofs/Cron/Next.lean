import Agenda.Cron.Next
import Agenda.Proofs.Time.Instant

/-!
# The times of a schedule

The search for the next time takes each part of the time from a list, so all parts of what it finds
are listed.

* `Schedule.Regular`: every list holds values of its field, in ascending order.
* `Schedule.Lists`: every part of an instant is listed, and it is a whole second.
* `Schedule.Fires`: the instant is a next time.
* `Schedule.lists_of_firstFrom?`: what is found is listed.
-/
namespace Agenda.Cron

variable {α : Type} {values : List Nat} {last : Nat} {under : Bool → Nat → Option α} {a : α}

/-! ## Searching -/

/-- What is found is found under a value. -/
theorem search_eq_some {start : Option Nat} (h : search values last start under = some a) :
    ∃ v ∈ values, v ≤ last ∧ ∃ bounded, under bounded v = some a := by
  unfold search at h
  split at h
  · obtain ⟨v, hv, hu⟩ := List.exists_of_findSome?_eq_some h
    obtain ⟨hv, hl⟩ := List.mem_filter.1 hv
    exact ⟨v, hv, of_decide_eq_true hl, _, hu⟩
  · obtain ⟨v, hv, hu⟩ := List.exists_of_findSome?_eq_some h
    obtain ⟨hv, hl⟩ := List.mem_filter.1 hv
    exact ⟨v, hv, (of_decide_eq_true hl).2, _, hu⟩

namespace Schedule

/-! ## Instants that are listed -/

/-- Every list holds values of its field, in ascending order. -/
structure Regular (s : Schedule) : Prop where
  seconds : s.seconds.Sublist Field.second.values
  minutes : s.minutes.Sublist Field.minute.values
  hours : s.hours.Sublist Field.hour.values
  daysOfMonth : s.daysOfMonth.Sublist Field.dayOfMonth.values
  months : s.months.Sublist Field.month.values
  weekdays : s.weekdays.Sublist Field.weekday.values
  years : s.years.Sublist Field.year.values

/-- Every part of the date is listed. -/
structure ListsDate (s : Schedule) (d : Date) : Prop where
  day : d.day ∈ s.daysOfMonth
  month : d.month ∈ s.months
  weekday : d.weekdayFromSunday ∈ s.weekdays
  year : ∃ y ∈ s.years, d.year = (y : Int)

/-- The instant is a whole second whose parts are all listed. -/
structure Lists (s : Schedule) (t : Instant) : Prop where
  nanos : t.nanos = 0
  second : t.second ∈ s.seconds
  minute : t.minute ∈ s.minutes
  hour : t.hour ∈ s.hours
  date : s.ListsDate t.date

/-- The instant is the next time after some other. -/
def Fires (s : Schedule) (t : Instant) : Prop := ∃ after, s.next? after = some (some t)

/-- The values of a field, and some of them, ascend. -/
theorem pairwise_of_sublist {f : Field} (h : values.Sublist f.values) :
    values.Pairwise (· < ·) := List.Pairwise.sublist h (List.pairwise_lt_range' 1)

theorem bounds_of_mem {f : Field} {v : Nat} (h : values.Sublist f.values) (hv : v ∈ values) :
    f.least ≤ v ∧ v < f.least + (f.greatest + 1 - f.least) := by
  have hmem := h.subset hv
  rwa [Field.values, List.mem_range'_1] at hmem

variable {s : Schedule} {t start : Instant} {d : Date}

/-- The only instant of a listed date with a listed time of day. -/
theorem at?_eq_some_iff_lists {hour minute second : Nat} {t : Instant} (hexists : d.Exists)
    (hlists : s.ListsDate d) (hh : hour ∈ s.hours ∧ hour ≤ 23)
    (hm : minute ∈ s.minutes ∧ minute ≤ 59) (hs : second ∈ s.seconds ∧ second ≤ 59) :
    Instant.at? d (hour * 3600 + minute * 60 + second) 0 = some t ↔
      (((s.Lists t ∧ t.date = d) ∧ t.hour = hour) ∧ t.minute = minute) ∧ t.second = second := by
  rw [Instant.at?_eq_some_iff hexists (by omega)]
  constructor
  · rintro ⟨rfl, htime, hnanos⟩
    have hhour : t.hour = hour := by
      simp only [Instant.hour, htime]
      omega
    have hminute : t.minute = minute := by
      simp only [Instant.minute, htime]
      omega
    have hsecond : t.second = second := by
      simp only [Instant.second, htime]
      omega
    have hall : s.Lists t :=
      ⟨hnanos, hsecond ▸ hs.1, hminute ▸ hm.1, hhour ▸ hh.1, hlists⟩
    exact ⟨⟨⟨⟨hall, rfl⟩, hhour⟩, hminute⟩, hsecond⟩
  · rintro ⟨⟨⟨⟨hall, rfl⟩, rfl⟩, rfl⟩, rfl⟩
    exact ⟨rfl, t.secondOfDay_eq.symm, hall.nanos⟩

theorem timeOf?_eq_some {bounded : Bool} (h : s.timeOf? start bounded d = some t) :
    ∃ hour ∈ s.hours, ∃ minute ∈ s.minutes, ∃ second ∈ s.seconds,
      hour ≤ 23 ∧ minute ≤ 59 ∧ second ≤ 59 ∧
        Instant.at? d (hour * 3600 + minute * 60 + second) 0 = some t := by
  obtain ⟨hour, hh, hh', _, h⟩ := search_eq_some h
  obtain ⟨minute, hm, hm', _, h⟩ := search_eq_some h
  obtain ⟨second, hs, hs', _, h⟩ := search_eq_some h
  exact ⟨hour, hh, minute, hm, second, hs, hh', hm', hs', h⟩

/-! ## The first time -/

theorem lists_of_firstFrom? (hs : s.Regular) (h : s.firstFrom? start = some t) : s.Lists t := by
  simp only [firstFrom?] at h
  split at h
  · cases h
  · obtain ⟨⟨year, index⟩, hy, h⟩ := List.exists_of_findSome?_eq_some h
    obtain ⟨month, hm, hm', _, h⟩ := search_eq_some h
    obtain ⟨day, hd, hd', _, h⟩ := search_eq_some h
    split at h
    · rename_i hw
      obtain ⟨hour, hh, minute, hmin, second, hsec, hh', hmin', hsec', h⟩ := timeOf?_eq_some h
      have hexists : Date.Exists ⟨year, month, day⟩ :=
        ⟨(bounds_of_mem hs.months hm).1, hm', (bounds_of_mem hs.daysOfMonth hd).1, hd'⟩
      have hyear : year ∈ s.years := (List.mem_filter.1 (List.fst_mem_of_mem_zipIdx hy)).1
      have hlists : s.ListsDate ⟨year, month, day⟩ :=
        ⟨hd, hm, List.contains_iff_mem.1 hw, ⟨year, hyear, rfl⟩⟩
      obtain ⟨⟨⟨⟨hlisted, -⟩, -⟩, -⟩, -⟩ := (at?_eq_some_iff_lists hexists hlists ⟨hh, hh'⟩
        ⟨hmin, hmin'⟩ ⟨hsec, hsec'⟩).1 h
      exact hlisted
    · cases h

end Schedule

end Agenda.Cron
