import Agenda.Proofs.Calendar
import Agenda.Proofs.Windows
import Mathlib.Data.List.Forall2

/-!
# What the views show

A view shows the events of an owner that start in its window. The window holds whole days, so cutting
a start to microseconds does not move an event to another view, and the days of a week or of a month
show the same events as the week or the month.

* `shown_iff_shares`: an accepted event is shown in exactly its own day, week and month.
* `view_perm_days`: a view is the views of its days put together, and these have no event in common.
-/
namespace Agenda

variable {s : Store} {e : Event} {v : View} {owner : String} {now t : Instant} {w : Window}
  {first stop : Int}

/-! ## Events of a window -/

theorem Store.mem_period {start stop : Instant} : e ∈ s.period owner start stop ↔
    e ∈ s.events ∧ e.owner = owner ∧ start ≤ e.startDate ∧ e.startDate < stop := by
  simp [Store.period]

theorem Store.sublist_period (s : Store) (owner : String) (start stop : Instant) :
    (s.period owner start stop).Sublist s.events := List.filter_sublist

/-- A view of a store in memory is answered whenever it has a window. -/
theorem Calendar.view?_reliable (s : Store) (owner : String) (h : v.window? now = some w) :
    Calendar.view? v owner now (.reliable s) = some (.ok (s.period owner w.start w.stop)) := by
  rw [view?, h]
  rfl

/-! ## An accepted event -/

/-- A client's call has accepted the event `e` and keeps it as `f`. -/
def Calendar.Accepts (b : Backend) (e f : Event) (b' : Backend) : Prop :=
  (∃ fresh, create fresh e b = .ok (f, b')) ∨ update e b = .ok (f, b')

theorem Event.accepted_owner (fresh : String) (e : Event) : (e.accepted fresh).owner = e.owner := by
  unfold accepted withId
  split <;> rfl

theorem Event.accepted_days (fresh : String) (e : Event) :
    (e.accepted fresh).startDate.days = e.startDate.days := by
  unfold accepted withId
  split <;> rfl

/-- What is kept belongs to the owner of what was submitted, starts on the same date, and is stored. -/
theorem Calendar.Accepts.kept {b b' : Backend} {f : Event} (h : Accepts b e f b') :
    f.owner = e.owner ∧ f.startDate.date = e.startDate.date ∧ b'.store.find? f.id = some f := by
  obtain ⟨fresh, h⟩ | h := h
  · obtain ⟨-, rfl, hc⟩ := create_eq_ok.1 h
    have hf := congrFun (Backend.create_ok hc).1 (e.accepted fresh).id
    exact ⟨e.accepted_owner fresh, Instant.date_eq_iff.2 (e.accepted_days fresh),
      hf.trans (Function.update_self ..)⟩
  · obtain ⟨-, -, rfl, hc⟩ := update_eq_ok.1 h
    have hf := congrFun (Backend.update_ok hc).1 e.rearmed.id
    exact ⟨rfl, Instant.date_eq_iff.2 rfl, hf.trans (Function.update_self ..)⟩

/-- **Views.** As long as an accepted event is stored as it was accepted, up to the mark that it was
sent, the day, the week and the month of an instant show it iff it is the owner's and starts in the
same one. The window of the last month ends with the last midnight, and only events of the last date
are shown in no month. No view shows an event twice. -/
theorem shown_iff_shares {b b' : Backend} {f : Event} (h : Calendar.Accepts b e f b') :
    b'.store.find? f.id = some f ∧
    ∀ (s : Store) (g : Event), s.find? f.id = some g → { g with isSent := false } = f →
      ∀ (v : View) (owner : String) (now : Instant) (w : Window), v.window? now = some w →
        ∃ es, Calendar.view? v owner now (.reliable s) = some (.ok es) ∧
          (g ∈ es ↔ owner = e.owner ∧ v.Shares e.startDate now ∧
            (v = .month → e.startDate.date ≠ .last)) ∧
          (v = .month → now.date.year = Date.last.year → now.date.month = Date.last.month →
            Date.last.midnight? = some w.stop) ∧
          (es.map Event.id).Nodup := by
  obtain ⟨howner, hdate, hstored⟩ := h.kept
  refine ⟨hstored, fun s g hg hgf v owner now w hw => ?_⟩
  subst hgf
  refine ⟨_, Calendar.view?_reliable s owner hw, ?_, ?_, ?_⟩
  · rw [Store.mem_period, View.contains_iff hw, View.shares_congr hdate]
    have hmem : g ∈ s.events := Store.mem_of_find? hg
    simp only [hmem, true_and]
    rw [show g.owner = e.owner from howner, show g.startDate.date = e.startDate.date from hdate,
      eq_comm]
  · rintro rfl hy hm
    exact monthWindow?_stop hw hy hm
  · exact s.distinct.sublist ((s.sublist_period owner _ _).map Event.id)

/-- An event that starts in the leap second at the end of 2016, which was a Saturday. -/
def newYearsEve : Event :=
  { Event.blank with
    id := "eve", title := "Eve", owner := "ada", duration := .second,
    startDate := ⟨1483228799, 1999999999, by decide⟩ }

/-- The Monday of that week. -/
def eveMonday : Instant := ⟨1482710400, 0, by decide⟩

def eveWeek : Window := ⟨eveMonday, ⟨1483315200, 0, by decide⟩⟩

theorem shown_iff_shares_eve : ∃ b', Calendar.Accepts (.reliable .empty) newYearsEve
      newYearsEve.rearmed b' ∧ View.week.window? eveMonday = some eveWeek ∧
    ∃ es, Calendar.view? .week "ada" eveMonday
        (.reliable ⟨[{ newYearsEve.rearmed with isSent := true }], by decide⟩) = some (.ok es) ∧
      { newYearsEve.rearmed with isSent := true } ∈ es := by
  have ha : Calendar.Accepts (.reliable .empty) newYearsEve newYearsEve.rearmed
      (.reliable ⟨[newYearsEve.rearmed], by decide⟩) := .inl ⟨"", by rfl⟩
  have hw : View.week.window? eveMonday = some eveWeek := by decide
  obtain ⟨-, hshown⟩ := shown_iff_shares ha
  obtain ⟨es, hes, hmem, -⟩ := hshown ⟨[{ newYearsEve.rearmed with isSent := true }], by decide⟩
    { newYearsEve.rearmed with isSent := true } (by decide) (by decide) .week "ada" eveMonday
    eveWeek hw
  have hshares : View.week.Shares newYearsEve.startDate eveMonday :=
    show newYearsEve.startDate.date.monday = eveMonday.date.monday by decide
  exact ⟨_, ha, hw, es, hes, hmem.2 ⟨rfl, hshares, nofun⟩⟩

/-! ## The days of a view -/

/-- The midnights of a window, in order. -/
def Window.midnights (w : Window) : List Instant :=
  (List.range (w.stop.days - w.start.days).toNat).filterMap fun i : Nat =>
    (Date.ofDays (w.start.days + i)).midnight?

theorem Window.Covers.mem_midnights (h : w.Covers first stop) {d : Instant} :
    d ∈ w.midnights ↔ d.IsMidnight ∧ first ≤ d.days ∧ d.days < stop := by
  rw [midnights, h.start_days, h.stop_days, List.mem_filterMap]
  constructor
  · rintro ⟨i, hi, hd⟩
    obtain ⟨hmid, hdays⟩ := Instant.midnight?_eq_some_iff.1 hd
    rw [Date.toDays_ofDays] at hdays
    rw [List.mem_range] at hi
    exact ⟨hmid, by omega, by omega⟩
  · rintro ⟨hmid, hfirst, hstop⟩
    refine ⟨(d.days - first).toNat, List.mem_range.2 (by omega), ?_⟩
    rw [Instant.midnight?_eq_some_iff, Date.toDays_ofDays]
    exact ⟨hmid, by omega⟩

/-- The midnights of a window come in order, a day after another. -/
theorem Window.Covers.map_midnights (h : w.Covers first stop) : w.midnights.map Instant.days =
    (List.range (stop - first).toNat).map fun i : Nat => first + i := by
  rw [midnights, h.start_days, h.stop_days, List.map_filterMap, ← List.filterMap_eq_map]
  apply List.filterMap_congr
  intro i hi
  rw [List.mem_range] at hi
  have hmin := w.start.days_bounds.1
  have hmax := w.stop.days_bounds.2
  rw [h.start_days] at hmin
  rw [h.stop_days] at hmax
  obtain ⟨m, hm, hd⟩ := Instant.exists_midnight (k := first + i) (by omega) (by omega)
  have hmid : (Date.ofDays (first + i)).midnight? = some m := by
    rw [Instant.midnight?_eq_some_iff, Date.toDays_ofDays]
    exact ⟨hm, hd⟩
  rw [hmid, Option.map_some, hd]
  rfl

theorem Window.Covers.days_midnights (h : w.Covers first stop) :
    w.midnights.Pairwise fun d d' => d.days < d'.days := by
  rw [← List.pairwise_map (f := Instant.days), h.map_midnights, List.pairwise_map]
  exact List.pairwise_lt_range.imp fun hlt => by omega

theorem Window.Covers.pairwise_midnights (h : w.Covers first stop) :
    w.midnights.Pairwise (· < ·) :=
  h.days_midnights.imp_of_mem fun _ hd hlt => (h.mem_midnights.1 hd).1.lt_iff.2 hlt

theorem Window.Covers.length_midnights (h : w.Covers first stop) :
    w.midnights.length = (stop - first).toNat := by
  have hlen := congrArg List.length h.map_midnights
  simpa using hlen

/-! ### Views by days -/

/-- The events of an owner that start on the days from `first` on that lie before `stop`. -/
def Store.onDays (s : Store) (owner : String) (first stop : Int) : List Event :=
  s.events.filter fun e =>
    e.owner = owner ∧ first ≤ e.startDate.days ∧ e.startDate.days < stop

theorem Store.mem_onDays : e ∈ s.onDays owner first stop ↔
    e ∈ s.events ∧ e.owner = owner ∧ first ≤ e.startDate.days ∧ e.startDate.days < stop := by
  simp [onDays]

theorem Store.nodup_onDays (s : Store) (owner : String) (first stop : Int) :
    (s.onDays owner first stop).Nodup :=
  (s.distinct.of_map _).filter _

/-- The events of an owner on each of the days. -/
def Store.byDay (s : Store) (owner : String) (ds : List Instant) : List (List Event) :=
  ds.map fun d => s.onDays owner d.days (d.days + 1)

theorem Store.period_eq_onDays (s : Store) (owner : String) (h : w.Covers first stop) :
    s.period owner w.start w.stop = s.onDays owner first stop := by
  simp only [period, onDays, h.contains_iff]

/-- Every date but the last has a day to show. -/
theorem Calendar.view?_day (s : Store) (owner : String) {d : Instant}
    (hmax : d.days < Date.maxDays) : Calendar.view? .day owner d (.reliable s) =
      some (.ok (s.onDays owner d.days (d.days + 1))) := by
  obtain ⟨hmin, -⟩ := d.days_bounds
  obtain ⟨w, hw⟩ : ∃ w : Window, w.Covers d.days (d.days + 1) :=
    exists_covers hmin hmax.le (by omega) (by omega)
  have hday : View.day.window? d = some w := dayWindow?_eq_some_iff.2 hw
  rw [view?_reliable s owner hday, s.period_eq_onDays owner hw]

/-- The view of an owner is, up to the order, what the days of its window show, one after the other;
no event is shown on two of them. -/
def Store.SplitsByDay (s : Store) (owner : String) (v : View) (now : Instant) (w : Window) : Prop :=
  ∃ (es : List Event) (days : List (List Event)),
    Calendar.view? v owner now (.reliable s) = some (.ok es) ∧
    List.Forall₂ (fun d day => Calendar.view? .day owner d (.reliable s) = some (.ok day))
      w.midnights days ∧
    es.Perm days.flatten ∧
    days.Pairwise fun day day' => ∀ e ∈ day, ∀ e' ∈ day', e.id ≠ e'.id

/-- Different days have different events. -/
theorem Store.pairwise_byDay (s : Store) (owner : String) {ds : List Instant}
    (h : ds.Pairwise fun d d' => d.days < d'.days) :
    (s.byDay owner ds).Pairwise fun day day' => ∀ e ∈ day, ∀ e' ∈ day', e.id ≠ e'.id := by
  rw [byDay, List.pairwise_map]
  refine h.imp fun hlt e he e' he' hid => ?_
  rw [mem_onDays] at he he'
  obtain rfl := List.inj_on_of_nodup_map s.distinct he.1 he'.1 hid
  omega

theorem Store.onDays_perm (s : Store) (owner : String) (h : w.Covers first stop) :
    (s.onDays owner first stop).Perm (s.byDay owner w.midnights).flatten := by
  have hnodup : (s.byDay owner w.midnights).flatten.Nodup := by
    rw [List.nodup_flatten]
    refine ⟨?_, (s.pairwise_byDay owner h.days_midnights).imp ?_⟩
    · intro day hday
      obtain ⟨d, -, rfl⟩ := List.mem_map.1 hday
      exact s.nodup_onDays owner _ _
    · intro day day' hne e he he'
      exact hne e he e he' rfl
  rw [List.perm_ext_iff_of_nodup (s.nodup_onDays owner _ _) hnodup]
  intro e
  simp only [byDay, List.mem_flatten, List.mem_map, exists_exists_and_eq_and, mem_onDays,
    h.mem_midnights]
  constructor
  · rintro ⟨he, ho, hfirst, hstop⟩
    obtain ⟨d, hd, hdays⟩ := Instant.exists_midnight e.startDate.days_bounds.1
      e.startDate.days_bounds.2
    exact ⟨d, ⟨hd, by omega, by omega⟩, he, ho, by omega, by omega⟩
  · rintro ⟨d, ⟨-, hfirst, hstop⟩, he, ho, hle, hlt⟩
    exact ⟨he, ho, by omega, by omega⟩

/-- **Days of a view.** The window of a view has its midnights in order, seven of them for a week. Each
has a day to show, and the view is what these days show, put together; a month always has a window. -/
theorem view_perm_days (s : Store) (owner : String) (now : Instant) :
    (∃ w, View.month.window? now = some w) ∧
    ∀ (v : View) (w : Window), v.window? now = some w →
      (∀ d, d ∈ w.midnights ↔ d.IsMidnight ∧ w.start ≤ d ∧ d < w.stop) ∧
      w.midnights.Pairwise (· < ·) ∧ (v = .week → w.midnights.length = 7) ∧
      s.SplitsByDay owner v now w := by
  refine ⟨exists_monthWindow now, fun v w hw => ?_⟩
  obtain ⟨first, stop, hc⟩ := View.exists_covers hw
  refine ⟨fun d => ?_, hc.pairwise_midnights, ?_, ?_⟩
  · rw [hc.mem_midnights, hc.contains_iff]
  · rintro rfl
    rw [(weekWindow?_eq_some_iff.1 hw).length_midnights]
    omega
  · refine ⟨_, s.byDay owner w.midnights, Calendar.view?_reliable s owner hw, ?_, ?_, ?_⟩
    · rw [Store.byDay, List.forall₂_map_right_iff, List.forall₂_same]
      intro d hd
      have hstop := (hc.mem_midnights.1 hd).2.2
      have hmax := w.stop.days_bounds.2
      rw [hc.stop_days] at hmax
      exact Calendar.view?_day s owner (by omega)
    · rw [s.period_eq_onDays owner hc]
      exact s.onDays_perm owner hc
    · exact s.pairwise_byDay owner hc.days_midnights

theorem view_perm_days_eve : View.week.window? eveMonday = some eveWeek ∧
    eveWeek.midnights.length = 7 ∧
    Store.SplitsByDay ⟨[newYearsEve.rearmed], by decide⟩ "ada" .week eveMonday eveWeek := by
  have hw : View.week.window? eveMonday = some eveWeek := by decide
  obtain ⟨-, hview⟩ := view_perm_days ⟨[newYearsEve.rearmed], by decide⟩ "ada" eveMonday
  obtain ⟨-, -, hseven, hsplits⟩ := hview .week eveWeek hw
  exact ⟨hw, hseven rfl, hsplits⟩

end Agenda
