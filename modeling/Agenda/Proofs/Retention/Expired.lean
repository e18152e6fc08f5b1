import Agenda.Proofs.Retention
import Agenda.Proofs.Time.Year

/-!
# Exactly the expired events

A purge counts the events that it deletes and leaves the others as they are, those included that it
fails to delete. Which events are expired is a matter of the calendar: the threshold lies a year before
the purge, which is 365 or 366 days.

* `Threshold`: where the threshold lies (`threshold_spec`).
* `Removes`: an event that a purge deletes, by what it is and what fails for it alone.
* `sweep_removesExpired`: what a purge does with a listing, in whatever order.
* `purge_removes_expired`: all of this, for a purge that lists the events itself.
-/
namespace Agenda.Retention

variable {now t : Instant} {b : Backend} {e : Event} {listing : List Event}

/-! ## The threshold -/

/-- The instant lies a year earlier, at the same time of day; that is 365 or 366 days. -/
structure YearBefore (now t : Instant) : Prop where
  date : t.date = now.date.yearEarlier
  secondOfDay : t.secondOfDay = now.secondOfDay
  nanos : t.nanos = now.nanos
  days : t.days = now.days - 365 ∨ t.days = now.days - 366

theorem threshold_spec (now : Instant) :
    if Date.firstYear < now.date.year then YearBefore now (threshold now)
    else threshold now = .first := by
  have h := now.addMonths?_twelve
  unfold threshold
  split at h
  · rename_i hy
    obtain ⟨t, ht, hdate, hsecond, hnanos⟩ := h
    have hdays := Date.toDays_yearEarlier now.exists_date
    rw [← hdate, Instant.toDays_date, Instant.toDays_date] at hdays
    rw [if_pos hy, ht, Option.getD_some]
    exact ⟨hdate, hsecond, hnanos, by omega⟩
  · rename_i hy
    rw [if_neg hy, h]
    rfl

/-- No instant comes before the first one. -/
theorem not_lt_first (t : Instant) : ¬ t < .first := by
  have hmin := t.valid.1
  rw [Instant.not_lt]
  show Instant.Le .first t
  simp only [Instant.Le, Instant.first]
  omega

/-- In the first supported year, no instant lies 366 days back. -/
theorem not_beforeDaysAgo_first (hy : ¬ Date.firstYear < now.date.year) :
    ¬ t.BeforeDaysAgo 366 now := by
  have hnext : (⟨Date.firstYear + 1, 1, 1⟩ : Date).toDays = Date.minDays + 365 := by decide
  have hdays := Date.toDays_lt_of_year now.exists_date
    (Date.exists_first (Date.firstYear + 1) le_rfl (by decide))
    (Int.lt_add_one_iff.2 (Int.not_lt.1 hy))
  rw [hnext, Instant.toDays_date] at hdays
  have hmin := t.valid.1
  have hnow := now.seconds_eq
  have hclock := now.secondOfDay_lt
  simp only [Instant.BeforeDaysAgo, minSeconds, secondsPerDay] at *
  omega

theorem beforeDaysAgo_of_lt_threshold (h : t < threshold now) : t.BeforeDaysAgo 365 now := by
  have hspec := threshold_spec now
  split at hspec
  · obtain ⟨-, hs, hn, hd | hd⟩ := hspec
    · exact (Instant.lt_iff_beforeDaysAgo hd hs hn).1 h
    · exact ((Instant.lt_iff_beforeDaysAgo hd hs hn).1 h).mono (by decide)
  · rw [hspec] at h
    exact absurd h (not_lt_first t)

theorem lt_threshold_of_beforeDaysAgo (h : t.BeforeDaysAgo 366 now) : t < threshold now := by
  have hspec := threshold_spec now
  split at hspec
  · obtain ⟨-, hs, hn, hd | hd⟩ := hspec
    · exact (Instant.lt_iff_beforeDaysAgo hd hs hn).2 (h.mono (by decide))
    · exact (Instant.lt_iff_beforeDaysAgo hd hs hn).2 h
  · rename_i hy
    exact absurd h (not_beforeDaysAgo_first hy)

/-! ## What is removed -/

/-- The event is expired, and the store does not fail to delete it. -/
def Removes (now : Instant) (b : Backend) (e : Event) : Prop :=
  e.startDate < threshold now ∧ b.fault (.delete e.id) = none

instance (now : Instant) (b : Backend) (e : Event) : Decidable (Removes now b e) :=
  inferInstanceAs (Decidable (_ ∧ _))

/-- A purge has deleted and counted the events that it could remove, and changed nothing else. -/
structure RemovesExpired (now : Instant) (b : Backend) (p : Nat × Backend) : Prop where
  stored : p.2.store.events.Perm (b.store.events.filter fun e => ¬ Removes now b e)
  removed : p.1 = b.store.events.countP fun e => Removes now b e
  fault : p.2.fault = b.fault

section
variable (hp : listing.Perm b.store.events)
include hp

theorem mem_ids_expired (he : e ∈ b.store.events) :
    e.id ∈ (expired now listing).map Event.id ↔ e.startDate < threshold now := by
  rw [List.mem_map]
  constructor
  · rintro ⟨x, hx, hid⟩
    obtain ⟨hmem, hlt⟩ := List.mem_filter.1 hx
    rw [List.inj_on_of_nodup_map b.store.distinct (hp.mem_iff.1 hmem) he hid] at hlt
    exact of_decide_eq_true hlt
  · intro hlt
    exact ⟨e, List.mem_filter.2 ⟨hp.mem_iff.2 he, decide_eq_true hlt⟩, rfl⟩

theorem sweep_find? (now : Instant) (id : String) :
    (sweep now b listing).2.store.find? id =
      (b.store.find? id).filter fun e => ¬ Removes now b e := by
  rw [sweep, foldl_remove_find?]
  cases hf : b.store.find? id with
  | none => simp
  | some e =>
    obtain ⟨he, rfl⟩ := Store.find?_eq_some_iff.1 hf
    rw [Option.filter_some]
    simp only [mem_ids_expired hp he, decide_eq_true_eq]
    rw [ite_not]
    rfl

theorem sweep_count (now : Instant) :
    (sweep now b listing).1 = b.store.events.countP fun e => Removes now b e := by
  have hn : (listing.map Event.id).Nodup := (hp.map Event.id).nodup_iff.2 b.store.distinct
  have hexpired : ((expired now listing).map Event.id).Nodup :=
    hn.sublist (List.filter_sublist.map Event.id)
  have hheld : ∀ e ∈ expired now listing, b.store.Holds e.id := fun e he =>
    List.mem_map_of_mem (hp.mem_iff.1 (List.mem_of_mem_filter he))
  rw [sweep, foldl_remove_count hexpired (0, b) hheld, Nat.zero_add, expired, List.countP_filter,
    hp.countP_eq]
  refine List.countP_congr fun e _ => ?_
  rw [Bool.and_eq_true, decide_eq_true_eq, decide_eq_true_eq, decide_eq_true_eq]
  exact and_comm

theorem sweep_removesExpired (now : Instant) : RemovesExpired now b (sweep now b listing) where
  stored := Store.perm_filter_of_find? (sweep_find? hp now)
  removed := sweep_count hp now
  fault := foldl_remove_fault ..

end

/-! ## Purges -/

/-- **Purges.** A purge that cannot list the events fails, and does nothing. Any other removes exactly
the expired events, in whatever order they are listed, except those that it fails to delete. Where the
threshold lies is said in days and in years: what comes 365 days back or later is kept, what comes
before 366 days back is not, and in the first supported year nothing is expired. -/
theorem purge_removes_expired (now : Instant) (b : Backend) :
    (∀ err, b.fault .list = some err → purge now b = .error err) ∧
    (b.fault .list = none → purge now b = .ok (sweep now b b.store.events)) ∧
    (∀ listing, listing.Perm b.store.events → RemovesExpired now b (sweep now b listing)) ∧
    (Date.firstYear < now.date.year → YearBefore now (threshold now)) ∧
    (now.date.year ≤ Date.firstYear → ∀ e, ¬ Removes now b e) ∧
    (∀ e, ¬ e.startDate.BeforeDaysAgo 365 now → ¬ Removes now b e) ∧
    ∀ e, e.startDate.BeforeDaysAgo 366 now → b.fault (.delete e.id) = none → Removes now b e := by
  have hspec := threshold_spec now
  refine ⟨fun err hf => ?_, purge_of_no_fault now, fun listing hp => sweep_removesExpired hp now,
    fun hy => ?_, fun hy e h => ?_, fun e hn h => ?_, fun e h hf => ?_⟩
  · rw [purge, Backend.list_of_fault hf]
    rfl
  · rwa [if_pos hy] at hspec
  · rw [if_neg (Int.not_lt.2 hy)] at hspec
    exact not_lt_first e.startDate (hspec ▸ h.1)
  · exact hn (beforeDaysAgo_of_lt_threshold h.1)
  · exact ⟨lt_threshold_of_beforeDaysAgo h, hf⟩

/-- Noon of a leap day, 2028-02-29. -/
def leapNoon : Instant := ⟨1835438400, 0, by decide⟩

/-- An event of noon on 2027-02-28. -/
def lastYear : Event := { Event.blank with id := "noon", startDate := ⟨1803816000, 0, by decide⟩ }

/-- An event of the second before. -/
def justBefore : Event := { lastYear with id := "before", startDate := ⟨1803815999, 0, by decide⟩ }

/-- Of the expired events, the first cannot be deleted. -/
def crowded : Backend where
  store := ⟨[{ justBefore with id := "stuck" }, lastYear, justBefore], by decide⟩
  fault op := if op = .delete "stuck" then some (.notFound "stuck") else none

theorem purge_removes_expired_leap_day :
    YearBefore leapNoon (threshold leapNoon) ∧ (threshold leapNoon).date = ⟨2027, 2, 28⟩ ∧
    purge leapNoon crowded = .ok (sweep leapNoon crowded crowded.store.events) ∧
    (sweep leapNoon crowded crowded.store.events.reverse).1 = 1 ∧
    (sweep leapNoon crowded crowded.store.events.reverse).2.store.events.Perm
      [{ justBefore with id := "stuck" }, lastYear] := by
  obtain ⟨-, hok, hlisted, hyear, -⟩ := purge_removes_expired leapNoon crowded
  have hbefore := hyear (by decide)
  have h := hlisted crowded.store.events.reverse (List.reverse_perm _)
  have hstuck : ¬ Removes leapNoon crowded { justBefore with id := "stuck" } :=
    fun hr => absurd hr.2 (by decide)
  have hkept : ¬ Removes leapNoon crowded lastYear := by decide
  have hgone : Removes leapNoon crowded justBefore := by decide
  have hevents : crowded.store.events =
    [{ justBefore with id := "stuck" }, lastYear, justBefore] := rfl
  refine ⟨hbefore, ?_, hok rfl, ?_, ?_⟩
  · rw [hbefore.date]
    decide
  · rw [h.removed, hevents]
    simp [hstuck, hkept, hgone]
  · have hs := h.stored
    rw [hevents] at hs
    simpa [hevents, hstuck, hkept, hgone] using hs

end Agenda.Retention
