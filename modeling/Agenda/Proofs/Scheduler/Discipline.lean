import Agenda.Cron.Crontab
import Agenda.Proofs.Cron.Grammar
import Agenda.Proofs.Scheduler.Steps

/-!
# The discipline of the jobs

The jobs of the scheduler keep the discipline of the loop, whatever they do, however long that takes and
whenever they are cancelled. All that they ask of a schedule is that it tells the first scheduled
instant after any other; every schedule that a text denotes does, if it has no gap in the years to come.

* `Schedule.tells`: what a regular schedule tells.
* `tells_of_parseSchedule`: what the schedule of a text tells.
* `jobs_disciplined`: both jobs, from their start to their end.
-/
namespace Agenda

/-! ## Schedules that tell -/

namespace Cron.Schedule

open Scheduler (Tells)

variable {s : Schedule} {start t u : Instant}

/-- Beyond the last year there is nothing to find. -/
theorem firstFrom?_eq_none (h : ∀ y ∈ s.years, (y : Int) < start.date.year) :
    s.firstFrom? start = none := by
  have hyears : s.years.filter (fun (year : Nat) => start.date.year ≤ year) = [] := by
    refine List.filter_eq_nil_iff.2 fun y hy => ?_
    rw [decide_eq_true_eq]
    exact Int.not_le.2 (h y hy)
  simp only [firstFrom?, hyears, List.zipIdx_nil, List.findSome?_nil, ite_self]

/-- A regular schedule without a gap in the years to come tells the first time after any instant. -/
theorem tells (hs : s.Regular)
    (hyears : ∀ y ∈ s.years, ∀ k : Nat, start.date.year ≤ k → k ≤ y → k ∈ s.years) :
    Tells s.Fires start fun now => (s.next? now).join := by
  intro t ht
  dsimp only
  -- A time after `t` lies a second after `t` or later.
  have hafter (u) (hu : s.Fires u ∧ t < u) : ∃ b : Instant, t.add? .second = some b ∧
      ∃ y ∈ s.years, b.date.year ≤ y := by
    have hlists := (fires_iff hs).1 hu.1
    obtain ⟨y, hy, heq⟩ := hlists.date.year
    obtain ⟨b, hb, hle⟩ := Instant.exists_second_later hu.2 hlists.nanos
    exact ⟨b, hb, y, hy, heq ▸ Instant.year_le hle⟩
  cases hb : t.add? .second with
  | none =>
    have hnone : s.next? t = none := by rw [next?, hb, Option.map_none]
    rw [hnone]
    intro u hu
    obtain ⟨b, hsome, -⟩ := hafter u hu
    rw [hb] at hsome
    cases hsome
  | some b =>
    by_cases hlast : ∃ y ∈ s.years, b.date.year ≤ y
    · obtain ⟨y, hy, hle⟩ := hlast
      have hlater : start.date.year ≤ b.date.year := by
        refine Instant.year_le ?_
        have hseconds := Instant.seconds_add_second hb
        rw [Instant.le_def] at ht
        omega
      have hpositive : 0 ≤ b.date.year := by
        by_contra hneg
        have hzero := hyears y hy 0 (by omega) (Nat.zero_le y)
        exact absurd (bounds_of_mem hs.years hzero).1 (by decide)
      have hmem : b.date.year.toNat ∈ s.years := hyears y hy _ (by omega) (by omega)
      obtain ⟨found, hfound, hearliest⟩ := punctual hs t b hb _ hmem (by omega)
      rw [hfound]
      exact hearliest
    · have hnone : s.next? t = some none := by
        rw [next?, hb, Option.map_some, firstFrom?_eq_none fun y hy =>
          not_le.1 fun hle => hlast ⟨y, hy, hle⟩]
      rw [hnone]
      intro u hu
      obtain ⟨b', hsome, hyear⟩ := hafter u hu
      rw [hb] at hsome
      cases hsome
      exact hlast hyear

end Cron.Schedule

namespace Cron

variable {cs : List Char} {named : NamedSchedule} {start : Instant}

theorem regular_of_parseSchedule (h : parseSchedule cs = some named) : named.schedule.Regular := by
  obtain ⟨s, hs, rfl⟩ := Option.map_eq_some_iff.1 h
  exact regular_of_ofText? hs

/-- The schedule of a text tells the first time after any instant if its years leave no gap. -/
theorem tells_of_parseSchedule (h : parseSchedule cs = some named)
    (hyears : ∀ y ∈ named.schedule.years, ∀ k : Nat, start.date.year ≤ k → k ≤ y →
      k ∈ named.schedule.years) :
    Scheduler.Tells named.schedule.Fires start fun now => (named.schedule.next? now).join :=
  Schedule.tells (regular_of_parseSchedule h) hyears

end Cron

/-! ## The jobs -/

namespace Scheduler

/-- **Discipline.** Let a schedule tell the first scheduled instant after any other, and let the jobs be
cancelled at an instant that is not scheduled, or never. Then a job keeps the discipline all life long;
it can live any time, whatever its runs take; and both jobs of the scheduler live so. -/
theorem jobs_disciplined {Scheduled : Instant → Prop} {upcoming : Instant → Option Instant}
    {start : Instant} {cancel : Option Instant} (htells : Tells Scheduled start upcoming)
    (hcancel : ∀ c ∈ cancel, ¬ Scheduled c) :
    (∀ (ρ : Type) (j : Job ρ), Life upcoming start cancel j →
      Disciplined Scheduled start cancel j) ∧
    (∀ end? : Instant → Option Instant, (∀ b e, end? b = some e → b ≤ e) →
      ∀ t, start ≤ t → HasLife upcoming end? start cancel t) ∧
    ∀ setup s p d, setup.upcoming = upcoming → Reaches setup start cancel s p d →
      BothLive setup start cancel s p d ∧
        Disciplined Scheduled start cancel p ∧ Disciplined Scheduled start cancel d := by
  have hlife {ρ : Type} {j : Job ρ} (h : Life upcoming start cancel j) :
      Disciplined Scheduled start cancel j := (h.sound htells hcancel).disciplined
  refine ⟨fun ρ j => hlife, fun end? hend t => exists_life htells hcancel hend, ?_⟩
  rintro setup s p d rfl h
  have hlive := h.bothLive htells hcancel
  exact ⟨hlive, hlife hlive.purge.life, hlife hlive.dispatch.life⟩

/-! A run that begins at eleven takes longer than an hour, so the next one begins at one o'clock. Ten
minutes later the job is cancelled. -/

/-- 2023-11-14T22:13:20Z. -/
def evening : Instant := ⟨1700000000, 0, by decide⟩

/-- 2023-11-14T23:00:00Z. -/
def eleven : Instant := ⟨1700002800, 0, by decide⟩

/-- 2023-11-15T00:30:00Z. -/
def pastMidnight : Instant := ⟨1700008200, 0, by decide⟩

/-- 2023-11-15T01:00:00Z. -/
def one : Instant := ⟨1700010000, 0, by decide⟩

/-- 2023-11-15T01:10:00Z. -/
def pastOne : Instant := ⟨1700010600, 0, by decide⟩

/-- A run every hour; a message is on its way for a second. -/
def hourly : Setup := ⟨Cron.hourly, .second⟩

theorem parseSchedule_hourly : Cron.parseSchedule "0 * * * *".toList =
    some ⟨"0 0 * * * *".toList, Cron.hourly⟩ := by
  decide +kernel

theorem regular_hourly : Cron.hourly.Regular := Cron.regular_of_parseSchedule parseSchedule_hourly

theorem tells_hourly : Tells Cron.hourly.Fires evening hourly.upcoming := by
  apply Cron.tells_of_parseSchedule parseSchedule_hourly
  intro y hy k hfirst hle
  have hyear : evening.date.year = 2023 := by decide +kernel
  have hlast : y < 2101 := (Cron.Schedule.bounds_of_mem (f := .year) (.refl _) hy).2
  exact List.mem_range'_1.2 ⟨show 1970 ≤ k by omega, show k < 2101 by omega⟩

theorem not_fires_pastOne : ¬ Cron.hourly.Fires pastOne := by
  rw [Cron.Schedule.fires_iff regular_hourly]
  intro h
  exact absurd h.minute (by decide)

/-- The job at ten past one. -/
def interrupted : Job Unit where
  clock := pastOne
  phase := .ended
  runs := [⟨one, none⟩, ⟨eleven, some pastMidnight⟩]
  stopped := some pastOne

theorem life_interrupted : Life hourly.upcoming evening (some pastOne) interrupted := by
  have hpast {t : Instant} (ht : t ≤ pastOne) : ∀ c ∈ some pastOne, t ≤ max evening c := by
    rintro c ⟨⟩
    exact ht.trans (le_max_right evening pastOne)
  have hwait : Life hourly.upcoming evening (some pastOne)
      (⟨evening, .waiting eleven, [], none⟩ : Job Unit) := by
    have hidle : Phase.idle hourly.upcoming evening = (.waiting eleven : Phase Unit) := by
      decide +kernel
    have hstart : Life hourly.upcoming evening (some pastOne)
      (.since evening (.idle hourly.upcoming evening) [] : Job Unit) := .start
    rwa [hidle] at hstart
  have hlate : Life hourly.upcoming evening (some pastOne)
      (⟨pastMidnight, .waiting one, [⟨eleven, some pastMidnight⟩], none⟩ : Job Unit) := by
    have hidle : Phase.idle hourly.upcoming pastMidnight = (.waiting one : Phase Unit) := by
      decide +kernel
    have hrun := (hwait.sleep eleven (by decide) (by rintro w ⟨⟩; decide)
      fun _ => hpast (by decide)).begin (.pausing (some pastMidnight) ())
    have hend := (hrun.sleep pastMidnight (by decide) (by rintro w ⟨⟩; decide)
      fun _ => hpast (by decide)).goOn (by decide) .finished
    rw [Phase.after, hidle] at hend
    exact hend
  have hrun := (hlate.sleep one (by decide) (by rintro w ⟨⟩; decide)
    fun _ => hpast (by decide)).begin (.pausing none ())
  exact (hrun.sleep pastOne (by decide) (by rintro w ⟨⟩) fun _ => hpast (by decide)).cancel rfl rfl
    (by decide)

/-- The scheduler is cancelled at ten past one. -/
def shutDown : State :=
  ((Scheduler.start hourly evening (fun _ => true) (.reliable .empty)).runUntil hourly pastOne).cancel

theorem jobs_disciplined_hourly :
    Disciplined Cron.hourly.Fires evening (some pastOne) interrupted ∧
    HasLife hourly.upcoming some evening (some pastOne) pastOne ∧
    ∃ p d, BothLive hourly evening (some pastOne) shutDown p d ∧
      Disciplined Cron.hourly.Fires evening (some pastOne) p ∧
        Disciplined Cron.hourly.Fires evening (some pastOne) d := by
  have hcancel : ∀ c ∈ some pastOne, ¬ Cron.hourly.Fires c := by
    rintro c ⟨⟩
    exact not_fires_pastOne
  obtain ⟨hlife, hany, hboth⟩ := jobs_disciplined tells_hourly hcancel
  have hwhole (u) (hu : Cron.hourly.Fires u) : u.nanos = 0 :=
    ((Cron.Schedule.fires_iff regular_hourly).1 hu).nanos
  obtain ⟨p, d, hrun⟩ := Reaches.runUntil tells_hourly hcancel hwhole
    (.start (fun _ => true) (.reliable .empty)) (t := pastOne) (by
      rintro c ⟨⟩
      exact le_max_right evening pastOne)
  have hlast := hrun.cancel rfl (le_clock_advance pastOne _)
  refine ⟨hlife Unit interrupted life_interrupted, hany some ?_ pastOne (by decide), _, _,
    hboth hourly shutDown _ _ rfl hlast⟩
  rintro b e ⟨⟩
  exact le_refl b

end Scheduler

end Agenda
