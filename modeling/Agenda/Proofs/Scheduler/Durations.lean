import Agenda.Proofs.Scheduler.Loop

/-!
# Runs of any length

A life leaves open how long the runs of the job take. Whatever that is, there is such a life up to any
time: the loop never gets stuck, and time never has to stop for it.

* `Lasts`: a run takes as long as it should, unless the job is stopped before.
* `exists_life`: the life of a job whose runs take as long as they should, at any time.
-/
namespace Agenda.Scheduler

variable {Scheduled : Instant → Prop} {upcoming end? : Instant → Option Instant}
  {start t u w e : Instant} {cancel : Option Instant} {j : Job Unit} {runs : List Run} {r : Run}

/-! ## How far an instant lies ahead -/

/-- So many instants lie between, one for every nanosecond of every second and leap second. -/
def ticksUntil (t w : Instant) : Nat :=
  ((t.seconds - w.seconds) * (2 * nanosPerSecond) + (t.nanos - w.nanos)).toNat

theorem ticksUntil_lt (hlt : w < u) (hle : u ≤ t) : ticksUntil t u < ticksUntil t w := by
  have hw := w.valid.2.2.1
  have hu := u.valid.2.2.1
  have ht := t.valid.2.2.1
  rw [Instant.lt_def] at hlt
  rw [Instant.le_def] at hle
  simp only [ticksUntil, nanosPerSecond] at *
  omega

/-! ## Runs that take their time -/

/-- The run ends when it should; until then it is on its way, or the job has stopped. -/
def Lasts (end? : Instant → Option Instant) (j : Job Unit) (r : Run) : Prop :=
  match r.ended with
  | some e => end? r.began = some e
  | none => ∀ e, end? r.began = some e → j.clock ≤ e ∨ ∃ t ∈ j.stopped, t ≤ e

/-- All runs take as long as they should, and the one on its way goes on when it should end. -/
structure Timely (end? : Instant → Option Instant) (j : Job Unit) : Prop where
  lasts : ∀ r ∈ j.runs, Lasts end? j r
  wakeUp : ∀ wakeUp rest, j.phase = .running wakeUp rest →
    ∃ r runs, j.runs = r :: runs ∧ wakeUp = end? r.began

/-- A run that has ended took its time, whatever the instant. -/
theorem lasts_of_ended (he : r.ended = some e) : Lasts end? j r ↔ end? r.began = some e := by
  unfold Lasts
  rw [he]

theorem lasts_of_running (he : r.ended = none) :
    Lasts end? j r ↔ ∀ e, end? r.began = some e → j.clock ≤ e ∨ ∃ t ∈ j.stopped, t ≤ e := by
  unfold Lasts
  rw [he]

/-- A job that has stopped waits for nothing. -/
theorem Lasts.of_stopped (hs : Sound Scheduled start cancel j) (hstop : u ∈ j.stopped)
    (h : Lasts end? j r) : Lasts end? { j with clock := t } r := by
  cases he : r.ended with
  | some e => exact (lasts_of_ended he).2 ((lasts_of_ended he).1 h)
  | none =>
    refine (lasts_of_running he).2 fun e hend => .inr ?_
    rcases (lasts_of_running he).1 h e hend with hle | hright
    · exact ⟨u, hstop, (hs.stopped hstop).clock.trans hle⟩
    · exact hright

/-- As long as the job does not go on, its run takes its time. -/
theorem Timely.lasts_until (h : Timely end? j) (hs : Sound Scheduled start cancel j)
    (halive : j.stopped = none) (hwake : ∀ w ∈ j.phase.wakeUp?, t ≤ w) (hr : r ∈ j.runs) :
    Lasts end? { j with clock := t } r := by
  cases he : r.ended with
  | some e => exact (lasts_of_ended he).2 ((lasts_of_ended he).1 (h.lasts r hr))
  | none =>
    refine (lasts_of_running he).2 fun e hend => .inl ?_
    -- Only the run on its way has not ended.
    cases hp : j.phase with
    | waiting due =>
      obtain ⟨idle, hidle, -⟩ := (hs.waiting hp).2.first
      obtain ⟨e', he', -⟩ := hs.served.ended hidle hr
      rw [he] at he'
      cases he'
    | running wakeUp rest =>
      obtain ⟨r₀, runs, hruns, hw⟩ := h.wakeUp wakeUp rest hp
      have hserved := hs.served
      rw [hruns] at hr hserved
      obtain ⟨⟨idle, hidle, -⟩, -, hrest⟩ := hserved
      rcases List.mem_cons.1 hr with rfl | hr
      · exact hwake e (by rw [hp, Phase.wakeUp?, hw, hend]; rfl)
      · obtain ⟨e', he', -⟩ := hrest.ended hidle hr
        rw [he] at he'
        cases he'
    | ended =>
      obtain ⟨t, ht, -⟩ := hs.halted hp
      rw [halive] at ht
      cases ht

/-! ## Lives of such jobs -/

/-- There is a job at this time whose runs take as long as they should. -/
def HasLife (upcoming end? : Instant → Option Instant) (start : Instant) (cancel : Option Instant)
    (t : Instant) : Prop :=
  ∃ j : Job Unit, Life upcoming start cancel j ∧ j.clock = t ∧ ∀ r ∈ j.runs, Lasts end? j r

/-- A job that is cancelled before it goes on. -/
theorem hasLife_of_cancelled {c : Instant} (h : Life upcoming start cancel j)
    (hs : Sound Scheduled start cancel j) (htimely : Timely end? j) (halive : j.stopped = none)
    (hc : c ∈ cancel) (hasleep : ∀ w ∈ j.phase.wakeUp?, max start c ≤ w) (hle : max start c ≤ t) :
    HasLife upcoming end? start cancel t := by
  have hsame : ∀ c' ∈ cancel, max start c ≤ max start c' := by
    intro c' hc'
    rw [Option.mem_unique hc hc']
  have hlast := h.sleep (max start c) (hs.alive halive c hc) hasleep fun _ => hsame
  have hcancelled := hlast.cancel halive hc (le_max_right start c)
  refine ⟨_, hcancelled.sleep t hle (by intro w hw; cases hw) (by intro hn; cases hn), rfl,
    fun r hr => ?_⟩
  have hlasts := htimely.lasts_until hs halive hasleep hr
  cases he : r.ended with
  | some e => exact (lasts_of_ended he).2 ((lasts_of_ended he).1 hlasts)
  | none =>
    refine (lasts_of_running he).2 fun e hend => .inr ?_
    rcases (lasts_of_running he).1 hlasts e hend with hle | ⟨u, hu, -⟩
    · exact ⟨max start c, rfl, hle⟩
    · rw [halive] at hu
      cases hu

/-- A job that does not go on before `t` is asleep, cancelled or ended until then. -/
theorem hasLife_of_asleep (h : Life upcoming start cancel j) (hs : Sound Scheduled start cancel j)
    (htimely : Timely end? j) (hclock : j.clock ≤ t) (hwake : ∀ w ∈ j.phase.wakeUp?, t ≤ w) :
    HasLife upcoming end? start cancel t := by
  cases hstop : j.stopped with
  | some u =>
    refine ⟨_, h.sleep t hclock hwake fun hn => ?_, rfl, fun r hr => ?_⟩
    · rw [hstop] at hn
      cases hn
    · exact (htimely.lasts r hr).of_stopped hs hstop
  | none =>
    by_cases hcancel : ∃ c ∈ cancel, max start c < t
    · obtain ⟨c, hc, hlt⟩ := hcancel
      exact hasLife_of_cancelled h hs htimely hstop hc (fun w hw => hlt.le.trans (hwake w hw)) hlt.le
    · refine ⟨_, h.sleep t hclock hwake fun _ c hc => ?_, rfl, fun r hr => ?_⟩
      · exact not_lt.1 fun hlt => hcancel ⟨c, hc, hlt⟩
      · exact htimely.lasts_until hs hstop hwake hr

/-! ## Going on -/

/-- How far a run has come that should end at `wakeUp`. -/
def progressAt (wakeUp : Option Instant) (now : Instant) : Progress Unit :=
  if wakeUp = some now then .finished else .pausing wakeUp ()

/-- The job after a run has come so far as it should at `now`. -/
def goneOn (upcoming end? : Instant → Option Instant) (now began : Instant) (runs : List Run) :
    Job Unit :=
  .since now (.after upcoming now (progressAt (end? began) now))
    (⟨began, (progressAt (end? began) now).end? now⟩ :: runs)

section
variable {began now : Instant}

theorem idle_ne_running (upcoming : Instant → Option Instant) (now : Instant)
    {wakeUp : Option Instant} {rest : ρ} : Phase.idle upcoming now ≠ .running wakeUp rest := by
  unfold Phase.idle
  cases upcoming now with
  | some due => simp
  | none => simp

theorem timely_goneOn (hruns : ∀ r ∈ runs, ∃ e, r.ended = some e ∧ end? r.began = some e)
    (hend : ∀ e, end? began = some e → now ≤ e) :
    Timely end? (goneOn upcoming end? now began runs) := by
  have hlasts (r) (hr : r ∈ runs) : Lasts end? (goneOn upcoming end? now began runs) r := by
    obtain ⟨e, he, hlast⟩ := hruns r hr
    exact (lasts_of_ended he).2 hlast
  unfold goneOn progressAt at hlasts ⊢
  by_cases hnow : end? began = some now
  · rw [if_pos hnow] at hlasts ⊢
    refine ⟨List.forall_mem_cons.2 ⟨hnow, hlasts⟩, fun wakeUp rest hp => ?_⟩
    exact absurd hp (idle_ne_running upcoming now)
  · rw [if_neg hnow] at hlasts ⊢
    refine ⟨List.forall_mem_cons.2 ⟨fun e he => .inl (hend e he), hlasts⟩,
      fun wakeUp rest hp => ?_⟩
    cases hp
    exact ⟨_, runs, rfl, rfl⟩

theorem lt_wakeUp_goneOn (htells : Tells Scheduled start upcoming) (hstart : start ≤ now)
    (hend : ∀ e, end? began = some e → now ≤ e) :
    ∀ w ∈ (goneOn upcoming end? now began runs).phase.wakeUp?, now < w := by
  intro w hw
  unfold goneOn progressAt at hw
  by_cases hnow : end? began = some now
  · rw [if_pos hnow] at hw
    have hnext := htells now hstart
    unfold Job.since Phase.after Phase.idle at hw
    cases hup : upcoming now with
    | some due =>
      rw [hup] at hw hnext
      cases hw
      exact hnext.1.2
    | none =>
      rw [hup] at hw
      cases hw
  · rw [if_neg hnow] at hw
    have hw : end? began = some w := hw
    exact lt_of_le_of_ne (hend w hw) fun heq => hnow (heq ▸ hw)

end

/-- At its wake-up time the job goes on, and its next wake-up time comes later. -/
theorem exists_goneOn (htells : Tells Scheduled start upcoming)
    (hend : ∀ b e, end? b = some e → b ≤ e) (h : Life upcoming start cancel j)
    (hs : Sound Scheduled start cancel j) (htimely : Timely end? j) (hw : w ∈ j.phase.wakeUp?)
    (hcancel : ∀ c ∈ cancel, w ≤ max start c) :
    ∃ j', Life upcoming start cancel j' ∧ Timely end? j' ∧ j'.clock = w ∧
      ∀ w' ∈ j'.phase.wakeUp?, w < w' := by
  have hasleep : ∀ w' ∈ j.phase.wakeUp?, w ≤ w' := fun w' hw' => (Option.mem_unique hw hw').le
  have hall {runs : List Run} (hruns : ∀ r ∈ runs, Lasts end? j r)
      (hended : ∀ r ∈ runs, ∃ e, r.ended = some e) :
      ∀ r ∈ runs, ∃ e, r.ended = some e ∧ end? r.began = some e := by
    intro r hr
    obtain ⟨e, he⟩ := hended r hr
    exact ⟨e, he, (lasts_of_ended he).1 (hruns r hr)⟩
  obtain ⟨clock, phase, runs, stopped⟩ := j
  cases phase with
  | waiting due =>
    obtain rfl : due = w := Option.some.inj hw
    obtain ⟨halive, hclock, idle, hidle, -⟩ := hs.waiting rfl
    obtain rfl : stopped = none := halive
    have hlast := h.sleep due hclock hasleep fun _ => hcancel
    have hruns := hall htimely.lasts fun r hr => (hs.served.ended hidle hr).imp fun e he => he.1
    exact ⟨_, hlast.begin (progressAt (end? due) due), timely_goneOn hruns (hend due), rfl,
      lt_wakeUp_goneOn htells (hs.start_le.trans hclock) (hend due)⟩
  | running wakeUp rest =>
    obtain ⟨halive, hidle⟩ := hs.running rfl
    obtain rfl : stopped = none := halive
    obtain ⟨⟨began, ended⟩, runs, rfl, rfl⟩ := htimely.wakeUp wakeUp rest rfl
    obtain rfl : ended = none := hidle
    obtain ⟨hhead, htail⟩ := List.forall_mem_cons.1 htimely.lasts
    obtain ⟨⟨idle, hidle, -⟩, -, hserved⟩ := hs.served
    have hw : end? began = some w := hw
    have hclock : clock ≤ w := by
      rcases hhead w hw with hle | ⟨t, ht, -⟩
      · exact hle
      · cases ht
    have hafter : ∀ e, end? began = some e → w ≤ e := fun e he =>
      (Option.some.inj (hw.symm.trans he)).le
    have hlast := h.sleep w hclock hasleep fun _ => hcancel
    rw [show (⟨began, none⟩ : Run).began = began from rfl, hw] at hlast
    have hruns := hall htail fun r hr => (hserved.ended hidle hr).imp fun e he => he.1
    exact ⟨_, hlast.goOn (le_refl w) (progressAt (end? began) w), timely_goneOn hruns hafter, rfl,
      lt_wakeUp_goneOn htells (hs.start_le.trans hclock) hafter⟩
  | ended => cases hw

/-! ## Lives of any length -/

section
variable (htells : Tells Scheduled start upcoming) (hcancel : ∀ c ∈ cancel, ¬ Scheduled c)
  (hend : ∀ b e, end? b = some e → b ≤ e)
include htells hcancel hend

theorem hasLife_of_timely (n : Nat) (h : Life upcoming start cancel j) (htimely : Timely end? j)
    (hclock : j.clock ≤ t) (hticks : ∀ w ∈ j.phase.wakeUp?, w < t → ticksUntil t w < n) :
    HasLife upcoming end? start cancel t := by
  induction n generalizing j with
  | zero =>
    refine hasLife_of_asleep h (h.sound htells hcancel) htimely hclock fun w hw => ?_
    exact not_lt.1 fun hlt => Nat.not_lt_zero _ (hticks w hw hlt)
  | succ n ih =>
    have hs := h.sound htells hcancel
    by_cases hwake : ∃ w ∈ j.phase.wakeUp?, w < t
    · obtain ⟨w, hw, hlt⟩ := hwake
      by_cases hearly : ∃ c ∈ cancel, max start c < w
      · obtain ⟨c, hc, hcw⟩ := hearly
        have halive : j.stopped = none := by
          rw [Option.eq_none_iff_forall_ne_some]
          intro u hu
          rw [hs.ended_iff.2 ⟨u, hu⟩] at hw
          cases hw
        exact hasLife_of_cancelled h hs htimely halive hc
          (fun w' hw' => Option.mem_unique hw hw' ▸ hcw.le) (hcw.trans hlt).le
      · obtain ⟨j', h', htimely', rfl, hlater⟩ := exists_goneOn htells hend h hs htimely hw
          fun c hc => not_lt.1 fun hcw => hearly ⟨c, hc, hcw⟩
        refine ih h' htimely' hlt.le fun w' hw' hlt' => ?_
        have hless := ticksUntil_lt (hlater w' hw') hlt'.le
        have hbound := hticks _ hw hlt
        omega
    · refine hasLife_of_asleep h hs htimely hclock fun w hw => ?_
      exact not_lt.1 fun hlt => hwake ⟨w, hw, hlt⟩

/-- **Durations.** However long the runs of a job take, it has a life with these runs up to any
time. -/
theorem exists_life (ht : start ≤ t) : HasLife upcoming end? start cancel t := by
  have htimely : Timely end? (.since start (.idle upcoming start) [] : Job Unit) := by
    refine ⟨by simp [Job.since], fun wakeUp rest hp => ?_⟩
    exact absurd hp (idle_ne_running upcoming start)
  let n := ((Phase.idle upcoming start : Phase Unit).wakeUp?.map (ticksUntil t)).getD 0 + 1
  refine hasLife_of_timely htells hcancel hend n .start htimely ht fun w hw _ => ?_
  simp only [n]
  rw [show (Phase.idle upcoming start : Phase Unit).wakeUp? = some w from hw]
  exact Nat.lt_succ_self _

end

end Agenda.Scheduler
