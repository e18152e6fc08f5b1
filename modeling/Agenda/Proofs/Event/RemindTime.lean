import Agenda.Event.Basic
import Agenda.Proofs.Time.Order

/-!
# Reminder times

The time of a reminder is the start less whole minutes, to the nanosecond, whenever that is a supported
instant. The limit of durations comes far beyond the supported instants, so it adds none to those that
are rejected. From a leap second, a reminder before the start is counted from the second that follows,
and one after the start from second 59.

* `Instant.ofNanos?_eq_some_iff`, `Instant.ofNanos?_eq_none_iff`: instants by their nanoseconds.
* `remindTime?_eq`: the time of a reminder in nanoseconds.
* `reminds_exactly`: when an event has a reminder time, what it is, and when the reminder is due.
-/
namespace Agenda

namespace Instant

/-- The second 59 of its minute is over, and the next second has not begun. -/
def IsLeap (t : Instant) : Prop := nanosPerSecond ≤ t.nanos

instance (t : Instant) : Decidable t.IsLeap := inferInstanceAs (Decidable (_ ≤ _))

/-- Nanoseconds since 1970-01-01T00:00:00Z. A leap second counts as the second that follows it. -/
def sinceEpoch (t : Instant) : Int := t.seconds * nanosPerSecond + t.nanos

/-- So many nanoseconds since 1970-01-01T00:00:00Z lie in the range of supported instants. -/
def Supported (total : Int) : Prop :=
  minSeconds * nanosPerSecond ≤ total ∧ total < (maxSeconds + 1) * nanosPerSecond

variable {t : Instant} {total n : Int} {d : Duration}

theorem ofNanos?_eq_some_iff : ofNanos? total = some t ↔ ¬ t.IsLeap ∧ t.sinceEpoch = total := by
  rw [ofNanos?, of?_eq_some_iff]
  simp only [IsLeap, sinceEpoch, nanosPerSecond]
  omega

theorem ofNanos?_eq_none_iff : ofNanos? total = none ↔ ¬ Supported total := by
  rw [ofNanos?, of?, dite_eq_right_iff]
  simp only [reduceCtorEq, imp_false, Valid, Supported, nanosPerSecond]
  omega

/-- Whole minutes less. Only from a leap second does it matter which way the step goes. -/
theorem sub?_minutes (t : Instant) (hd : d.nanos = n * 60 * nanosPerSecond) :
    t.sub? d =
      if t.IsLeap ∧ n = 0 then some t
      else ofNanos?
        ((if t.IsLeap ∧ n < 0 then t.sinceEpoch - nanosPerSecond else t.sinceEpoch) -
          n * 60 * nanosPerSecond) := by
  have hneg : d.neg.nanos = -(n * 60 * nanosPerSecond) := congrArg Neg.neg hd
  have hwhole : d.neg.nanos.tdiv nanosPerSecond = -(n * 60) := by
    rw [hneg, ← Int.neg_mul, Int.mul_tdiv_cancel _ (by decide)]
  have hpart : d.neg.nanos.tmod nanosPerSecond = 0 := by
    rw [hneg, ← Int.neg_mul, Int.mul_tmod_left]
  simp only [sub?, add?, hwhole, hpart]
  by_cases hleap : t.IsLeap
  · rw [if_pos (show nanosPerSecond ≤ t.nanos from hleap)]
    simp only [hleap, true_and, hneg, sinceEpoch]
    rcases lt_trichotomy n 0 with hn | rfl | hn
    · rw [if_pos (by omega), if_neg (by omega), if_pos hn]
      congr 1
      omega
    · rw [if_neg (by omega), if_neg (by omega), if_pos rfl, of?_eq_some_iff]
      exact ⟨rfl, by omega⟩
    · rw [if_neg (by omega), if_pos (by omega), if_neg (by omega), if_neg (by omega)]
      congr 1
      rw [Int.add_mul]
      omega
  · rw [if_neg (show ¬ nanosPerSecond ≤ t.nanos from hleap)]
    simp only [hleap, false_and, if_false, hneg, sinceEpoch]
    rfl

end Instant

namespace Event

variable {e : Event}

/-- The start as the reminder is counted from it, in nanoseconds since the epoch. -/
def remindBase (e : Event) : Int :=
  if e.startDate.IsLeap ∧ e.remindAt.toInt < 0 then e.startDate.sinceEpoch - nanosPerSecond
  else e.startDate.sinceEpoch

/-- The exact time of the reminder, in nanoseconds since the epoch. -/
def remindNanos (e : Event) : Int := e.remindBase - e.remindAt.toInt * 60 * nanosPerSecond

/-- The instant is the exact time of the reminder: the start itself for a reminder at the start, and
otherwise the instant with the exact number of nanoseconds, which is not a leap second. -/
def RemindsAt (e : Event) (t : Instant) : Prop :=
  if e.startDate.IsLeap ∧ e.remindAt.toInt = 0 then t = e.startDate
  else ¬ t.IsLeap ∧ t.sinceEpoch = e.remindNanos

instance (e : Event) (t : Instant) : Decidable (e.RemindsAt t) :=
  inferInstanceAs (Decidable (ite _ _ _))

/-- So many minutes are too long a duration only if no supported instant is that far from another. -/
theorem not_supported_of_minutes (h : Duration.ofMinutes? e.remindAt = none) :
    ¬ (e.startDate.IsLeap ∧ e.remindAt.toInt = 0) ∧ ¬ Instant.Supported e.remindNanos := by
  have hlong : ¬ (-maxDurationNanos ≤ e.remindAt.toInt * 60 * 1000000000 ∧
      e.remindAt.toInt * 60 * 1000000000 ≤ maxDurationNanos) := by
    intro hfits
    rw [Duration.ofMinutes?, Duration.of?, dif_pos hfits] at h
    cases h
  have hmin := e.startDate.valid.1
  have hmax := e.startDate.valid.2.1
  have hnanos := e.startDate.valid.2.2.1
  have hminSeconds : minSeconds = -8334601228800 := by decide
  have hmaxSeconds : maxSeconds = 8210266876799 := by decide
  simp only [Instant.Supported, remindNanos, remindBase, Instant.sinceEpoch, maxDurationNanos,
    nanosPerSecond, hminSeconds, hmaxSeconds] at *
  refine ⟨by omega, ?_⟩
  split <;> omega

theorem remindTime?_eq (e : Event) :
    e.remindTime? =
      if e.startDate.IsLeap ∧ e.remindAt.toInt = 0 then some e.startDate
      else Instant.ofNanos? e.remindNanos := by
  rw [remindTime?]
  cases h : Duration.ofMinutes? e.remindAt with
  | none =>
    obtain ⟨hstart, hfar⟩ := not_supported_of_minutes h
    rw [if_neg hstart, Instant.ofNanos?_eq_none_iff.2 hfar]
    rfl
  | some d =>
    have hd : d.nanos = e.remindAt.toInt * 60 * nanosPerSecond := by
      rw [Duration.ofMinutes?, Duration.of?] at h
      split at h
      · cases h
        rfl
      · cases h
    exact e.startDate.sub?_minutes hd

theorem remindTime?_eq_some_iff {t : Instant} : e.remindTime? = some t ↔ e.RemindsAt t := by
  rw [remindTime?_eq, RemindsAt]
  split
  · rw [Option.some.injEq, eq_comm]
  · exact Instant.ofNanos?_eq_some_iff

theorem remindTime?_eq_none_iff : e.remindTime? = none ↔
    ¬ (e.startDate.IsLeap ∧ e.remindAt.toInt = 0) ∧ ¬ Instant.Supported e.remindNanos := by
  rw [remindTime?_eq]
  split
  · simp [*]
  · rw [Instant.ofNanos?_eq_none_iff]
    simp [*]

theorem isDue_iff {now : Instant} :
    e.IsDue now ↔ e.isSent = false ∧ ∃ t, e.RemindsAt t ∧ t ≤ now := by
  simp only [IsDue, Option.mem_def, remindTime?_eq_some_iff]

/-- **Reminder times.** An event has a reminder time unless the exact one is out of the range of
supported instants, and then it is the exact one. The reminder is due from that time on, until it is sent
or the event gets another start or offset. -/
theorem reminds_exactly (e : Event) :
    (∀ t, e.remindTime? = some t ↔ e.RemindsAt t) ∧
    (e.remindTime? = none ↔
      ¬ (e.startDate.IsLeap ∧ e.remindAt.toInt = 0) ∧ ¬ Instant.Supported e.remindNanos) ∧
    (∀ now, e.IsDue now ↔ e.isSent = false ∧ ∃ t, e.RemindsAt t ∧ t ≤ now) ∧
    ∀ now later, now ≤ later → e.IsDue now →
      ∀ e' : Event, e'.startDate = e.startDate → e'.remindAt = e.remindAt → e'.isSent = false →
        e'.IsDue later := by
  refine ⟨fun t => remindTime?_eq_some_iff, remindTime?_eq_none_iff, fun now => isDue_iff, ?_⟩
  intro now later hle hdue e' hstart hoffset hsent
  obtain ⟨-, t, ht, hnow⟩ := hdue
  refine ⟨hsent, t, ?_, le_trans hnow hle⟩
  rw [remindTime?, hstart, hoffset]
  exact ht

/-- An event that starts a quarter into the leap second of 2016, with a reminder a minute later. -/
def afterLeap : Event :=
  { blank with startDate := ⟨1483228799, 1250000000, by decide⟩, remindAt := -1 }

theorem reminds_exactly_leap :
    afterLeap.remindTime? = some ⟨1483228859, 250000000, by decide⟩ ∧
    { afterLeap with remindAt := 1 }.remindTime? = some ⟨1483228740, 250000000, by decide⟩ ∧
    { afterLeap with remindAt := 0 }.remindTime? = some afterLeap.startDate ∧
    { afterLeap with remindAt := Int64.minValue }.remindTime? = none ∧
    { afterLeap with title := "Visit" }.IsDue ⟨1483315199, 0, by decide⟩ := by
  obtain ⟨hsome, -, hdue, hstays⟩ := reminds_exactly afterLeap
  have htime : afterLeap.RemindsAt ⟨1483228859, 250000000, by decide⟩ := by decide
  refine ⟨(hsome _).2 htime, ?_, ?_, ?_, ?_⟩
  · exact ((reminds_exactly _).1 _).2 (by decide)
  · exact ((reminds_exactly _).1 _).2 (by decide)
  · exact (reminds_exactly _).2.1.2 ⟨by decide, by unfold Instant.Supported; decide⟩
  · have hnow := (hdue ⟨1483228859, 250000000, by decide⟩).2 ⟨rfl, _, htime, le_refl _⟩
    exact hstays _ _ (by decide) hnow { afterLeap with title := "Visit" } rfl rfl rfl

end Event

end Agenda
