import Agenda.Proofs.Retention.Expired
import Agenda.Proofs.Time.Order

/-!
# Purges one after the other

The later a purge, the later its threshold, with one exception. A leap day and the day before it have
the same date a year earlier, so a purge of the 28th of February may have a later threshold than one of
the 29th: it has, if it comes at a later time of day. All other purges leave nothing that an earlier one
deletes, so it does not matter whether there were earlier ones.

* `threshold_lt_iff`: when the later one of two purges has the earlier threshold.
* `purge_reliable`: what a purge leaves of a store that does not fail.
* `purges_as_last`: what several purges leave is what the last one alone leaves, but in the excepted
  case, and what differs in that case.
-/
namespace Agenda

namespace Store

/-- The events that start at the instant or later. -/
def since (s : Store) (t : Instant) : Store :=
  ⟨s.events.filter fun e => t ≤ e.startDate, s.distinct.sublist (List.filter_sublist.map Event.id)⟩

theorem since_since (s : Store) (t u : Instant) : (s.since t).since u = s.since (max t u) := by
  simp only [since, List.filter_filter, mk.injEq]
  refine List.filter_congr fun e _ => ?_
  rw [← Bool.decide_and, decide_eq_decide, max_le_iff, and_comm]

end Store

namespace Retention

variable {s : Store} {now t u : Instant} {e : Event}

/-! ## Thresholds in order -/

/-- The purge at `t` is one of a leap day, and the one at `u` comes the day before at a later time of
day. -/
structure Outruns (u t : Instant) : Prop where
  leapDay : t.date.month = 2 ∧ t.date.day = 29
  dayBefore : u.days + 1 = t.days
  clock : t.EarlierInDay u

theorem Outruns.sameDay (h : Outruns u t) :
    u.date.yearEarlier.toDays = t.date.yearEarlier.toDays := by
  have hdays := h.dayBefore
  rw [← Instant.toDays_date, ← Instant.toDays_date] at hdays
  exact (Date.yearEarlier_eq_iff u.exists_date t.exists_date (by omega)).2 ⟨h.leapDay, hdays⟩

/-- There is no leap day in the first supported year. -/
theorem Outruns.firstYear_lt (h : Outruns u t) : Date.firstYear < u.date.year := by
  have hsame : u.date.yearEarlier = t.date.yearEarlier := by
    rw [← Date.ofDays_toDays (Date.exists_yearEarlier u.exists_date), h.sameDay,
      Date.ofDays_toDays (Date.exists_yearEarlier t.exists_date)]
  have hyear : u.date.year - 1 = t.date.year - 1 := congrArg Date.year hsame
  have hmin := t.days_bounds.1
  rw [← Instant.toDays_date, Date.minDays_le_iff t.exists_date] at hmin
  obtain ⟨-, -, -, hday⟩ := t.exists_date
  rw [h.leapDay.1, h.leapDay.2] at hday
  by_contra hn
  have hfirst : t.date.year = Date.firstYear := by omega
  rw [hfirst] at hday
  exact absurd hday (by decide)

/-- Thresholds a year back lie as the dates a year earlier do, and within a day as the clocks do. -/
theorem threshold_lt_iff_of_yearBefore (hu : YearBefore u (threshold u))
    (ht : YearBefore t (threshold t)) : threshold t < threshold u ↔
      t.date.yearEarlier.toDays < u.date.yearEarlier.toDays ∨
      t.date.yearEarlier.toDays = u.date.yearEarlier.toDays ∧ t.EarlierInDay u := by
  rw [Instant.lt_iff_days, ← Instant.toDays_date, ← Instant.toDays_date, ht.date, hu.date]
  simp only [Instant.EarlierInDay, ht.secondOfDay, ht.nanos, hu.secondOfDay, hu.nanos]

/-- **Thresholds.** Of two purges the later one has the earlier threshold only if it is one of a leap
day, and the other comes the day before at a later time of day. -/
theorem threshold_lt_iff (h : u ≤ t) : threshold t < threshold u ↔ Outruns u t := by
  have hspec := threshold_spec u
  have hspec' := threshold_spec t
  by_cases hy : Date.firstYear < u.date.year
  · rw [if_pos hy] at hspec
    rw [if_pos (lt_of_lt_of_le hy (Instant.year_mono h))] at hspec'
    rw [threshold_lt_iff_of_yearBefore hspec hspec']
    constructor
    · intro hlt
      have hdays := u.toDays_date
      have hdays' := t.toDays_date
      rw [← not_lt, Instant.lt_iff_days] at h
      rcases lt_or_ge u.days t.days with hlater | hsame
      · -- A year earlier is 365 or 366 days earlier, so later days do not come earlier.
        have hspan := Date.toDays_yearEarlier u.exists_date
        have hspan' := Date.toDays_yearEarlier t.exists_date
        obtain hlt | ⟨heq, hclock⟩ := hlt
        · omega
        · obtain ⟨hleap, hnext⟩ :=
            (Date.yearEarlier_eq_iff u.exists_date t.exists_date (by omega)).1 heq.symm
          exact ⟨hleap, by omega, hclock⟩
      · have hday : t.days = u.days := by omega
        rw [Instant.date_eq_iff.2 hday] at hlt
        obtain hlt | ⟨-, hclock⟩ := hlt
        · omega
        · exact absurd (.inr ⟨hday, hclock⟩) h
    · intro ho
      exact .inr ⟨ho.sameDay.symm, ho.clock⟩
  · -- No threshold is earlier than that of the first year.
    rw [if_neg hy] at hspec
    rw [hspec]
    exact iff_of_false (not_lt_first _) fun ho => hy ho.firstYear_lt

/-! ## What is left -/

theorem remove_events (p : Nat × Backend) (e : Event) (hf : p.2.fault (.delete e.id) = none) :
    (remove p e).2.store.events = p.2.store.events.filter fun x => x.id ≠ e.id := by
  unfold remove
  cases hd : p.2.delete e.id with
  | ok b => exact (Store.delete_ok (Backend.change_ok hd).2.1).2
  | error err =>
    -- Nothing is stored under the id, so nothing is taken away.
    have hn := not_holds_of_error hd hf
    rw [eq_comm, List.filter_eq_self]
    intro x hx
    rw [decide_eq_true_eq]
    exact fun hid => hn (hid ▸ List.mem_map_of_mem hx)

theorem foldl_remove_events (es : List Event) (p : Nat × Backend)
    (hf : ∀ id, p.2.fault (.delete id) = none) :
    (es.foldl remove p).2.store.events =
      p.2.store.events.filter fun x => x.id ∉ es.map Event.id := by
  induction es generalizing p with
  | nil => simp
  | cons e es ih =>
    rw [List.foldl_cons, ih _ fun id => by rw [remove_fault, hf], remove_events p e (hf e.id),
      List.filter_filter]
    refine List.filter_congr fun x _ => ?_
    rw [← Bool.decide_and, decide_eq_decide, List.map_cons, List.mem_cons, not_or, and_comm]

/-- **Purges.** Of a store that does not fail, a purge leaves what starts at its threshold or later. -/
theorem purge_reliable (now : Instant) (s : Store) : ∃ n,
    purge now (.reliable s) = .ok (n, .reliable (s.since (threshold now))) := by
  refine ⟨(sweep now (.reliable s) s.events).1, ?_⟩
  have hevents : (sweep now (.reliable s) s.events).2.store.events =
      s.events.filter fun e => threshold now ≤ e.startDate := by
    rw [sweep, foldl_remove_events _ _ fun _ => rfl]
    refine List.filter_congr fun e he => ?_
    have hid : e.id ∈ (expired now s.events).map Event.id ↔ e.startDate < threshold now :=
      mem_ids_expired (b := .reliable s) (.refl _) he
    rw [decide_eq_decide, hid, not_lt]
  have hfault : (sweep now (.reliable s) s.events).2.fault = fun _ => none :=
    foldl_remove_fault ..
  have hstore : (sweep now (.reliable s) s.events).2 = .reliable (s.since (threshold now)) := by
    generalize sweep now (.reliable s) s.events = p at hevents hfault
    obtain ⟨n, ⟨⟨es, hn⟩, fault⟩⟩ := p
    cases hevents
    cases hfault
    rfl
  rw [purge_of_no_fault now rfl, ← hstore]
  rfl

/-- A purge of the store at that time deletes the event. -/
def Deletes (now : Instant) (s : Store) (e : Event) : Prop :=
  ∃ p, purge now (.reliable s) = .ok p ∧ e ∈ s.events ∧ e ∉ p.2.store.events

theorem deletes_iff : Deletes now s e ↔ e ∈ s.events ∧ e.startDate < threshold now := by
  obtain ⟨n, hp⟩ := purge_reliable now s
  have hleft : e ∈ (s.since (threshold now)).events ↔
      e ∈ s.events ∧ threshold now ≤ e.startDate := by
    rw [Store.since, List.mem_filter, decide_eq_true_eq]
  constructor
  · rintro ⟨p, hp', he, hgone⟩
    rw [hp, Except.ok.injEq] at hp'
    rw [← hp'] at hgone
    exact ⟨he, not_le.1 fun hle => hgone (hleft.2 ⟨he, hle⟩)⟩
  · rintro ⟨he, hlt⟩
    exact ⟨_, hp, he, fun hkept => absurd hlt (not_lt.2 (hleft.1 hkept).2)⟩

/-! ## Several purges -/

/-- Purges at several times, one after the other. -/
def purgeEach (times : List Instant) (b : Backend) : Except StoreError Backend :=
  times.foldlM (fun b now => (purge now b).map Prod.snd) b

theorem purgeEach_cons (now : Instant) (times : List Instant) (s : Store) :
    purgeEach (now :: times) (.reliable s) =
      purgeEach times (.reliable (s.since (threshold now))) := by
  obtain ⟨n, hp⟩ := purge_reliable now s
  rw [purgeEach, List.foldlM_cons, hp]
  rfl

/-- Purges whose thresholds are no later than that of the last one leave what the last one leaves. -/
theorem purgeEach_concat (earlier : List Instant) (s : Store)
    (h : ∀ u ∈ earlier, threshold u ≤ threshold t) :
    purgeEach (earlier ++ [t]) (.reliable s) = .ok (.reliable (s.since (threshold t))) := by
  induction earlier generalizing s with
  | nil =>
    rw [List.nil_append, purgeEach_cons]
    rfl
  | cons u earlier ih =>
    obtain ⟨hu, hrest⟩ := List.forall_mem_cons.1 h
    rw [List.cons_append, purgeEach_cons, ih _ hrest, Store.since_since, max_eq_right hu]

/-- The instant lies a year before the leap day of `t`, no earlier in the day than `t` and earlier than
`u`. -/
structure Between (u t start : Instant) : Prop where
  date : start.date = t.date.yearEarlier
  notBefore : ¬ start.EarlierInDay t
  before : start.EarlierInDay u

/-- A purge and one that it outruns have thresholds on the same date, and differ in what lies between
the two times of day. -/
theorem Outruns.between_iff (h : Outruns u t) (hle : u ≤ t) (start : Instant) :
    start < threshold u ∧ ¬ start < threshold t ↔ Between u t start := by
  have hspec := threshold_spec u
  have hspec' := threshold_spec t
  rw [if_pos h.firstYear_lt] at hspec
  rw [if_pos (lt_of_lt_of_le h.firstYear_lt (Instant.year_mono hle))] at hspec'
  have hdays : (threshold u).days = (threshold t).days := by
    rw [← Instant.toDays_date, ← Instant.toDays_date, hspec.date, hspec'.date, h.sameDay]
  have hdate : start.date = t.date.yearEarlier ↔ start.days = (threshold t).days := by
    rw [← hspec'.date, Instant.date_eq_iff]
  have hclock : start.EarlierInDay (threshold u) ↔ start.EarlierInDay u := by
    simp only [Instant.EarlierInDay, hspec.secondOfDay, hspec.nanos]
  have hclock' : start.EarlierInDay (threshold t) ↔ start.EarlierInDay t := by
    simp only [Instant.EarlierInDay, hspec'.secondOfDay, hspec'.nanos]
  rw [Instant.lt_iff_days, Instant.lt_iff_days, hdays, hclock, hclock']
  constructor
  · rintro ⟨hlt | ⟨hday, hbefore⟩, hnot⟩
    · exact absurd (.inl hlt) hnot
    · exact ⟨hdate.2 hday, fun hc => hnot (.inr ⟨hday, hc⟩), hbefore⟩
  · rintro ⟨hd, hnot, hbefore⟩
    have hday := hdate.1 hd
    refine ⟨.inr ⟨hday, hbefore⟩, ?_⟩
    rintro (hlt | ⟨-, hc⟩)
    · omega
    · exact hnot hc

/-- **Purges one after the other.** A later purge deletes what an earlier one would delete, and what
several purges leave is what the last one alone leaves. The exception is a last purge of a leap day with
one of the day before at a later time of day: it keeps the events that start a year earlier, between the
two times of day, and no others of those that the earlier one deletes. -/
theorem purges_as_last (s : Store) (t : Instant) :
    (∀ u ≤ t, ¬ Outruns u t → ∀ e, Deletes u s e → Deletes t s e) ∧
    (∃ kept, purgeEach [t] (.reliable s) = .ok (.reliable kept) ∧
      ∀ earlier : List Instant, (∀ u ∈ earlier, u ≤ t ∧ ¬ Outruns u t) →
        purgeEach (earlier ++ [t]) (.reliable s) = .ok (.reliable kept)) ∧
    ∀ u ≤ t, Outruns u t → ∀ e,
      Deletes u s e ∧ ¬ Deletes t s e ↔ e ∈ s.events ∧ Between u t e.startDate := by
  have hle {u : Instant} (hu : u ≤ t) (h : ¬ Outruns u t) : threshold u ≤ threshold t := by
    rw [← not_lt, threshold_lt_iff hu]
    exact h
  refine ⟨fun u hu h e he => ?_, ⟨s.since (threshold t), ?_, fun earlier hearlier => ?_⟩,
    fun u hu h e => ?_⟩
  · rw [deletes_iff] at *
    exact ⟨he.1, lt_of_lt_of_le he.2 (hle hu h)⟩
  · exact purgeEach_concat [] s (List.forall_mem_nil _)
  · exact purgeEach_concat earlier s fun u hu => hle (hearlier u hu).1 (hearlier u hu).2
  · rw [deletes_iff, deletes_iff, ← h.between_iff hu]
    tauto

/-- Six in the evening of the day before the leap day. -/
def leapEve : Instant := ⟨1835373600, 0, by decide⟩

/-- An event of three in the afternoon, a year before the leap day. -/
def afternoon : Event := { lastYear with id := "afternoon", startDate := ⟨1803826800, 0, by decide⟩ }

/-- A store of one event. -/
def single (e : Event) : Store := ⟨[e], List.nodup_singleton e.id⟩

theorem purges_as_last_leap_day :
    Outruns leapEve leapNoon ∧ ¬ Outruns leapNoon leapNoon ∧
    (Deletes leapEve (single afternoon) afternoon ∧ ¬ Deletes leapNoon (single afternoon) afternoon) ∧
    purgeEach [leapNoon, leapNoon] (.reliable (single afternoon)) =
      purgeEach [leapNoon] (.reliable (single afternoon)) := by
  obtain ⟨-, ⟨kept, hkept, hsame⟩, hbetween⟩ := purges_as_last (single afternoon) leapNoon
  have hout : Outruns leapEve leapNoon := ⟨by decide, by decide, by decide⟩
  have hnot : ¬ Outruns leapNoon leapNoon := fun h => absurd h.dayBefore (by decide)
  refine ⟨hout, hnot, ?_, ?_⟩
  · exact (hbetween leapEve (by decide) hout afternoon).2
      ⟨List.mem_singleton_self _, by decide, by decide, by decide⟩
  · rw [hkept]
    refine hsame [leapNoon] fun u hu => ?_
    obtain rfl := List.mem_singleton.1 hu
    exact ⟨le_rfl, hnot⟩

/-- The purge of the evening deletes the event, the one of the next noon keeps it. -/
theorem later_purge_keeps : ∃ u t s e, u ≤ t ∧ Deletes u s e ∧ ¬ Deletes t s e ∧
    purgeEach [u, t] (.reliable s) ≠ purgeEach [t] (.reliable s) := by
  refine ⟨leapEve, leapNoon, single afternoon, afternoon, by decide, ?_, ?_, ?_⟩
  · rw [deletes_iff]
    decide
  · rw [deletes_iff]
    decide
  · rw [purgeEach_cons, purgeEach_cons, purgeEach_cons]
    intro h
    have hevents : ((single afternoon).since (threshold leapEve)).since (threshold leapNoon) =
        (single afternoon).since (threshold leapNoon) := by
      simpa [purgeEach, pure, Except.pure, Backend.reliable] using h
    exact absurd (congrArg Store.events hevents) (by decide)

end Retention

end Agenda
