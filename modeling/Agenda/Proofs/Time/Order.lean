import Agenda.Proofs.Time.Instant
import Mathlib.Order.Defs.LinearOrder

/-!
# Instants in a line

Of two instants one is the later; what is known of linear orders holds of instants.

* `lt_iff_days`: instants in the order of their days, and of their times within a day.
* `year_le`: years ascend with instants.
* `exists_second_later`: the second after an instant, as far as the next whole seconds go.
-/
namespace Agenda.Instant

theorem lt_def {t u : Instant} :
    t < u ↔ t.seconds < u.seconds ∨ t.seconds = u.seconds ∧ t.nanos < u.nanos := .rfl

theorem le_def {t u : Instant} :
    t ≤ u ↔ t.seconds < u.seconds ∨ t.seconds = u.seconds ∧ t.nanos ≤ u.nanos := .rfl

instance : LinearOrder Instant where
  le_refl t := by rw [le_def]; omega
  le_trans t u v := by simp only [le_def]; omega
  lt_iff_le_not_ge t u := by simp only [lt_def, le_def]; omega
  le_antisymm t u h h' := by
    rw [le_def] at h h'
    exact eq_of_parts (by omega) (by omega)
  le_total t u := by simp only [le_def]; omega
  toDecidableLE t u := inferInstance
  toDecidableLT t u := inferInstance
  toDecidableEq := inferInstance

variable {t u : Instant}

/-- The time of day of `t` comes before that of `u`. -/
def EarlierInDay (t u : Instant) : Prop :=
  t.secondOfDay < u.secondOfDay ∨ t.secondOfDay = u.secondOfDay ∧ t.nanos < u.nanos

instance (t u : Instant) : Decidable (t.EarlierInDay u) :=
  inferInstanceAs (Decidable (_ ∨ _ ∧ _))

/-- Instants of one day come in the order of their times of day. -/
theorem lt_iff_days : t < u ↔ t.days < u.days ∨ t.days = u.days ∧ t.EarlierInDay u := by
  have ht := t.seconds_eq
  have hu := u.seconds_eq
  have ht' := t.secondOfDay_lt
  have hu' := u.secondOfDay_lt
  simp only [lt_def, EarlierInDay, secondsPerDay] at *
  omega

theorem year_le (h : t.seconds ≤ u.seconds) : t.date.year ≤ u.date.year := by
  by_contra hlt
  have hdays := Date.toDays_lt_of_year u.exists_date t.exists_date (Int.not_le.1 hlt)
  exact absurd (lt_of_date hdays) (Int.not_lt.2 h)

theorem year_mono (h : t ≤ u) : t.date.year ≤ u.date.year := by
  rw [le_def] at h
  exact year_le (by omega)

/-- A second after an instant is no later than any whole second that comes after the instant. -/
theorem exists_second_later (h : t < u) (hu : u.nanos = 0) :
    ∃ v : Instant, t.add? .second = some v ∧ v.seconds ≤ u.seconds := by
  have hlater : t.seconds < u.seconds := by
    rw [lt_def] at h
    omega
  have hmin := t.valid.1
  have hnanos := t.valid.2.2.1
  have hmax := u.valid.2.1
  have hwhole : 0 < Duration.second.nanos.tdiv nanosPerSecond := by decide
  have hsecond : Duration.second.nanos = nanosPerSecond := rfl
  have hsome : ∃ v, t.add? .second = some v := by
    simp only [add?, hwhole, true_or, if_true, ofNanos?, of?]
    split <;>
    · refine ⟨_, dif_pos ⟨?_, ?_, ?_, ?_⟩⟩ <;> simp only [hsecond, nanosPerSecond] at * <;> omega
  obtain ⟨v, hv⟩ := hsome
  have hseconds := seconds_add_second hv
  exact ⟨v, hv, by omega⟩

end Agenda.Instant
