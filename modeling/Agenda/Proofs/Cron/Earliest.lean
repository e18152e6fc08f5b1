import Agenda.Proofs.Cron.Next

/-!
# The next time is the earliest

The parts of an instant, from the year down to the second, are looked at in ascending order, and
instants ascend with each part as long as the larger ones are the same. So what is found first under
the first value is the earliest. The bound of the search works part by part too: below a value that
lies beyond the start's there is no bound, because every instant there comes after the start.

* `Earliest`: what a search should find.
* `earliest_of_parts`: one level of the search, whatever the part.
* `Schedule.fires_iff`: a regular schedule fires at the instants that it lists, and at no other.
* `Schedule.punctual`: the next time is the earliest later one at which a regular schedule fires.
-/
namespace Agenda.Cron

/-- It is the earliest of the instants with the property, or nothing if there are none. -/
def Earliest (P : Instant → Prop) : Option Instant → Prop
  | some t => P t ∧ ∀ u, P u → t ≤ u
  | none => ∀ u, ¬ P u

theorem Earliest.congr {P Q : Instant → Prop} {o : Option Instant} (h : Earliest P o)
    (hiff : ∀ t, P t ↔ Q t) : Earliest Q o := by
  cases o with
  | none => exact fun u hu => h u ((hiff u).2 hu)
  | some t => exact ⟨(hiff t).1 h.1, fun u hu => h.2 u ((hiff u).2 hu)⟩

/-- The instant is not before the start, if that is a bound. -/
def NotBefore (bounded : Bool) (start t : Instant) : Prop :=
  bounded = true → start.seconds ≤ t.seconds

variable {α : Type} {values : List Nat} {start : Instant} {bounded : Bool} {last : Nat}

/-! ## One level -/

theorem earliest_findSome? {P : α → Instant → Prop} {f : α → Option Instant} {xs : List α}
    (h : ∀ x ∈ xs, Earliest (P x) (f x))
    (hxs : xs.Pairwise fun x y => ∀ t u, P x t → P y u → t ≤ u) :
    Earliest (fun t => ∃ x ∈ xs, P x t) (xs.findSome? f) := by
  induction xs with
  | nil =>
    rintro u ⟨x, hx, -⟩
    cases hx
  | cons x xs ih =>
    obtain ⟨hhead, htail⟩ := List.pairwise_cons.1 hxs
    have hx := h x List.mem_cons_self
    rw [List.findSome?_cons]
    cases hf : f x with
    | none =>
      rw [hf] at hx
      refine (ih (fun y hy => h y (List.mem_cons_of_mem x hy)) htail).congr fun t => ?_
      simp only [List.mem_cons, exists_eq_or_imp, iff_or_self]
      exact fun ht => absurd ht (hx t)
    | some t =>
      rw [hf] at hx
      refine ⟨⟨x, List.mem_cons_self, hx.1⟩, ?_⟩
      rintro u ⟨y, hy, hu⟩
      rcases List.mem_cons.1 hy with rfl | hy
      · exact hx.2 u hu
      · exact hhead y hy t u hx.1 hu

/-- One level of the search: `Q` says that the larger parts are those that are looked at, and instants
for which they are ascend with the part. If the start is one of them, then it bounds the search. -/
theorem earliest_of_parts (part : Instant → Nat) (Q : Instant → Prop) {P : Instant → Prop}
    {f : Nat → Option Instant} (hvalues : values.Pairwise (· < ·))
    (hlt : ∀ t u, Q t → Q u → part t < part u → t.seconds < u.seconds)
    (hP : ∀ t, P t → Q t) (hstart : bounded = true → Q start)
    (hlow : ∀ v ∈ values, bounded = true → part start ≤ v)
    (hmem : ∀ t, P t → (bounded = true → part start ≤ part t) → part t ∈ values)
    (h : ∀ v ∈ values, Earliest (fun t => (P t ∧ part t = v) ∧
      NotBefore (bounded && decide (v = part start)) start t) (f v)) :
    Earliest (fun t => P t ∧ NotBefore bounded start t) (values.findSome? f) := by
  have hxs : values.Pairwise fun v w => ∀ t u,
      ((P t ∧ part t = v) ∧ NotBefore (bounded && decide (v = part start)) start t) →
      ((P u ∧ part u = w) ∧ NotBefore (bounded && decide (w = part start)) start u) → t ≤ u := by
    refine hvalues.imp ?_
    rintro v w hvw t u ⟨⟨ht, rfl⟩, -⟩ ⟨⟨hu, rfl⟩, -⟩
    exact .inl (hlt t u (hP t ht) (hP u hu) hvw)
  refine (earliest_findSome? h hxs).congr fun t => ?_
  constructor
  · rintro ⟨v, hv, ⟨ht, rfl⟩, hfrom⟩
    refine ⟨ht, fun hb => ?_⟩
    -- Beyond the start's value there is no bound, and none is needed.
    by_cases he : part t = part start
    · exact hfrom (by simp [hb, he])
    · have hbelow : part start < part t := Nat.lt_of_le_of_ne (hlow _ hv hb) (Ne.symm he)
      exact (hlt start t (hstart hb) (hP t ht) hbelow).le
  · rintro ⟨ht, hfrom⟩
    have hle : bounded = true → part start ≤ part t := by
      intro hb
      by_contra hn
      have hbefore := hlt t start (hP t ht) (hstart hb) (Nat.lt_of_not_le hn)
      have hafter := hfrom hb
      omega
    refine ⟨part t, hmem t ht hle, ⟨ht, rfl⟩, fun hb => hfrom ?_⟩
    exact (Bool.and_eq_true_iff.1 hb).1

/-- What is searched under the start's value is bounded, because the start's value is then one of those
that are looked at. -/
theorem search_earliest (part : Instant → Nat) (Q : Instant → Prop) {P : Instant → Prop}
    {under : Bool → Nat → Option Instant} (hvalues : values.Pairwise (· < ·))
    (hlt : ∀ t u, Q t → Q u → part t < part u → t.seconds < u.seconds)
    (hlast : ∀ t, Q t → part t ≤ last)
    (hP : ∀ t, P t → Q t ∧ part t ∈ values) (hstart : bounded = true → Q start)
    (h : ∀ v ∈ values, v ≤ last → Earliest (fun t => (P t ∧ part t = v) ∧
      NotBefore (bounded && decide (v = part start)) start t)
      (under (bounded && decide (v = part start)) v)) :
    Earliest (fun t => P t ∧ NotBefore bounded start t)
      (search values last (bound? bounded (part start)) under) := by
  cases bounded with
  | false =>
    have hsearch : search values last (bound? false (part start)) under =
        (values.filter (· ≤ last)).findSome? (under false) := rfl
    rw [hsearch]
    refine earliest_of_parts part Q (hvalues.filter _) hlt (fun t ht => (hP t ht).1) hstart ?_ ?_ ?_
    · intro v _ hb
      cases hb
    · intro t ht _
      exact List.mem_filter.2 ⟨(hP t ht).2, decide_eq_true (hlast t (hP t ht).1)⟩
    · intro v hv
      obtain ⟨hv, hle⟩ := List.mem_filter.1 hv
      exact h v hv (of_decide_eq_true hle)
  | true =>
    have hmin : min (part start) last = part start := Nat.min_eq_left (hlast _ (hstart rfl))
    have hsearch : search values last (bound? true (part start)) under =
        (values.filter fun v => part start ≤ v ∧ v ≤ last).findSome? fun v =>
          under (v = part start && values.contains (part start)) v := by
      simp only [search, bound?, if_true, hmin]
    rw [hsearch]
    refine earliest_of_parts part Q (hvalues.filter _) hlt (fun t ht => (hP t ht).1) hstart ?_ ?_ ?_
    · intro v hv _
      exact (of_decide_eq_true (List.mem_filter.1 hv).2).1
    · intro t ht hle
      exact List.mem_filter.2 ⟨(hP t ht).2, decide_eq_true ⟨hle rfl, hlast t (hP t ht).1⟩⟩
    · intro v hv
      obtain ⟨hv, hle⟩ := List.mem_filter.1 hv
      have hflag : (decide (v = part start) && values.contains (part start)) =
          (true && decide (v = part start)) := by
        by_cases he : v = part start
        · simp [← he, hv]
        · simp [he]
      rw [hflag]
      exact h v hv (of_decide_eq_true hle).2

namespace Schedule

variable {s : Schedule} {d : Date}

/-! ## The time of a day -/

theorem at?_earliest {hour minute second : Nat} (hexists : d.Exists) (hlists : s.ListsDate d)
    (hh : hour ∈ s.hours ∧ hour ≤ 23) (hm : minute ∈ s.minutes ∧ minute ≤ 59)
    (hs : second ∈ s.seconds ∧ second ≤ 59)
    (hstart : bounded = true →
      start.date = d ∧ start.hour = hour ∧ start.minute = minute ∧ start.second = second) :
    Earliest (fun t => ((((s.Lists t ∧ t.date = d) ∧ t.hour = hour) ∧ t.minute = minute) ∧
      t.second = second) ∧ NotBefore bounded start t)
      (Instant.at? d (hour * 3600 + minute * 60 + second) 0) := by
  have hiff (t : Instant) := at?_eq_some_iff_lists (t := t) hexists hlists hh hm hs
  cases hat : Instant.at? d (hour * 3600 + minute * 60 + second) 0 with
  | none =>
    rintro u ⟨hu, -⟩
    rw [← hiff, hat] at hu
    cases hu
  | some t =>
    have ht := (hiff t).1 hat
    refine ⟨⟨ht, fun hb => ?_⟩, ?_⟩
    · obtain ⟨⟨⟨⟨-, rfl⟩, rfl⟩, rfl⟩, rfl⟩ := ht
      obtain ⟨hd, hh, hm, hs⟩ := hstart hb
      exact (Instant.seconds_eq_of_parts hd hh hm hs).le
    · rintro u ⟨hu, -⟩
      rw [← hiff, hat] at hu
      cases hu
      exact .inr ⟨rfl, Nat.le_refl _⟩

theorem timeOf?_earliest (hs : s.Regular) (hexists : d.Exists) (hlists : s.ListsDate d)
    (hstart : bounded = true → start.date = d) :
    Earliest (fun t => (s.Lists t ∧ t.date = d) ∧ NotBefore bounded start t)
      (s.timeOf? start bounded d) := by
  refine search_earliest Instant.hour (fun t => t.date = d) (pairwise_of_sublist hs.hours)
    (fun t u ht hu => Instant.lt_of_hour (ht.trans hu.symm)) (fun t _ => t.hour_le)
    (fun t ht => ⟨ht.2, ht.1.hour⟩) hstart fun hour hhour hhour' => ?_
  refine search_earliest Instant.minute (fun t => t.date = d ∧ t.hour = hour)
    (pairwise_of_sublist hs.minutes)
    (fun t u ht hu => Instant.lt_of_minute (ht.1.trans hu.1.symm) (ht.2.trans hu.2.symm))
    (fun t _ => t.minute_le) (fun t ht => ⟨⟨ht.1.2, ht.2⟩, ht.1.1.minute⟩) ?_
    fun minute hminute hminute' => ?_
  · intro hb
    simp only [Bool.and_eq_true, decide_eq_true_eq] at hb
    exact ⟨hstart hb.1, hb.2.symm⟩
  refine search_earliest Instant.second
    (fun t => t.date = d ∧ t.hour = hour ∧ t.minute = minute)
    (pairwise_of_sublist hs.seconds)
    (fun t u ht hu => Instant.lt_of_second (ht.1.trans hu.1.symm) (ht.2.1.trans hu.2.1.symm)
      (ht.2.2.trans hu.2.2.symm))
    (fun t _ => t.second_le)
    (fun t ht => ⟨⟨ht.1.1.2, ht.1.2, ht.2⟩, ht.1.1.1.second⟩) ?_
    fun second hsecond hsecond' => ?_
  · intro hb
    simp only [Bool.and_eq_true, decide_eq_true_eq] at hb
    exact ⟨hstart hb.1.1, hb.1.2.symm, hb.2.symm⟩
  refine at?_earliest hexists hlists ⟨hhour, hhour'⟩ ⟨hminute, hminute'⟩ ⟨hsecond, hsecond'⟩ ?_
  intro hb
  simp only [Bool.and_eq_true, decide_eq_true_eq] at hb
  exact ⟨hstart hb.1.1.1, hb.1.1.2.symm, hb.1.2.symm, hb.2.symm⟩

/-! ## The time of a year -/

/-- The first time of a year; it is not before the start if the year is the start's. -/
def timeOfYear? (s : Schedule) (start : Instant) (bounded : Bool) (year : Nat) : Option Instant :=
  search s.months 12 (bound? bounded start.date.month) fun bounded month =>
    search s.daysOfMonth (Date.daysInMonth year month) (bound? bounded start.date.day)
      fun bounded day =>
        let d : Date := ⟨year, month, day⟩
        if s.weekdays.contains d.weekdayFromSunday then s.timeOf? start bounded d else none

theorem timeOfYear?_earliest {year : Nat} (hs : s.Regular) (hyear : year ∈ s.years)
    (hstart : bounded = true → start.date.year = year) :
    Earliest (fun t => (s.Lists t ∧ t.date.year = year) ∧ NotBefore bounded start t)
      (s.timeOfYear? start bounded year) := by
  refine search_earliest (fun t => t.date.month) (fun t => t.date.year = year)
    (pairwise_of_sublist hs.months)
    (fun t u ht hu h => Instant.lt_of_date (Date.toDays_lt_of_month t.exists_date u.exists_date
      (ht.trans hu.symm) h))
    (fun t _ => t.exists_date.2.1) (fun t ht => ⟨ht.2, ht.1.date.month⟩) hstart
    fun month hmonth hmonth' => ?_
  refine search_earliest (fun t => t.date.day) (fun t => t.date.year = year ∧ t.date.month = month)
    (pairwise_of_sublist hs.daysOfMonth)
    (fun t u ht hu h => Instant.lt_of_date (Date.toDays_lt_of_day (ht.1.trans hu.1.symm)
      (ht.2.trans hu.2.symm) h)) ?_ (fun t ht => ⟨⟨ht.1.2, ht.2⟩, ht.1.1.date.day⟩) ?_
    fun day hday hday' => ?_
  · rintro t ⟨hy, hm⟩
    have hle := t.exists_date.2.2.2
    rwa [hy, hm] at hle
  · intro hb
    simp only [Bool.and_eq_true, decide_eq_true_eq] at hb
    exact ⟨hstart hb.1, hb.2.symm⟩
  have hexists : Date.Exists ⟨year, month, day⟩ :=
    ⟨(bounds_of_mem hs.months hmonth).1, hmonth', (bounds_of_mem hs.daysOfMonth hday).1, hday'⟩
  have hdate (t : Instant) : t.date = ⟨year, month, day⟩ ↔
      t.date.year = year ∧ t.date.month = month ∧ t.date.day = day := by
    cases t.date
    simp
  by_cases hweekday : s.weekdays.contains (⟨year, month, day⟩ : Date).weekdayFromSunday
  · have hlists : s.ListsDate ⟨year, month, day⟩ :=
      ⟨hday, hmonth, List.contains_iff_mem.1 hweekday, ⟨year, hyear, rfl⟩⟩
    simp only [hweekday, if_true]
    refine (timeOf?_earliest hs hexists hlists ?_).congr fun t => ?_
    · intro hb
      simp only [Bool.and_eq_true, decide_eq_true_eq] at hb
      exact (hdate start).2 ⟨hstart hb.1.1, hb.1.2.symm, hb.2.symm⟩
    · simp only [hdate, and_assoc]
  · simp only [hweekday]
    rintro u ⟨⟨⟨⟨hu, hy⟩, hm⟩, hd⟩, -⟩
    have hlisted := hu.date.weekday
    rw [(hdate u).2 ⟨hy, hm, hd⟩] at hlisted
    exact hweekday (List.contains_iff_mem.2 hlisted)

/-! ## The first time -/

theorem filter_eq_cons {v : Nat} {p : Nat → Bool} (hs : values.Pairwise (· < ·)) (hv : v ∈ values)
    (hp : p v) (hlt : ∀ x < v, p x = false) : ∃ r, values.filter p = v :: r := by
  induction values with
  | nil => cases hv
  | cons x xs ih =>
    obtain ⟨hx, hxs⟩ := List.pairwise_cons.1 hs
    rcases List.mem_cons.1 hv with rfl | hv
    · exact ⟨_, List.filter_cons_of_pos hp⟩
    · rw [List.filter_cons_of_neg (by simp [hlt x (hx v hv)])]
      exact ih hxs hv

theorem findSome?_zipIdx_succ {f : Bool → Nat → Option α} {first : Nat} (k : Nat)
    (h : ∀ v ∈ values, v ≠ first) :
    ((values.zipIdx (k + 1)).findSome? fun (v, index) => f (index = 0) v) =
      values.findSome? fun v => f (v = first) v := by
  induction values generalizing k with
  | nil => rfl
  | cons v values ih =>
    obtain ⟨hv, htail⟩ := List.forall_mem_cons.1 h
    rw [List.zipIdx_cons, List.findSome?_cons, List.findSome?_cons, ih (k + 1) htail]
    simp only [hv, Nat.succ_ne_zero]

/-- If the year of the start is listed, what is found is the earliest time that is listed, from the
start on. -/
theorem firstFrom?_earliest {year : Nat} (hs : s.Regular) (hyear : year ∈ s.years)
    (hstart : start.date.year = year) :
    Earliest (fun t => s.Lists t ∧ start.seconds ≤ t.seconds) (s.firstFrom? start) := by
  obtain ⟨later, hlater⟩ := filter_eq_cons (p := fun y => decide (start.date.year ≤ (y : Int)))
    (pairwise_of_sublist hs.years) hyear (by simp [hstart]) (fun x hx => by simp [hstart]; omega)
  have hascend : (year :: later).Pairwise (· < ·) :=
    hlater ▸ (pairwise_of_sublist hs.years).filter _
  have hnot : ¬ start.date.year < 0 := by omega
  have hfirst : s.firstFrom? start =
      (year :: later).findSome? fun y => s.timeOfYear? start (y = year) y := by
    have hlt := (List.pairwise_cons.1 hascend).1
    have hne : ∀ y ∈ later, y ≠ year := fun y hy => (hlt y hy).ne'
    rw [List.findSome?_cons, ← findSome?_zipIdx_succ 0 hne]
    simp only [firstFrom?, if_neg hnot, hlater, List.zipIdx_cons, List.findSome?_cons]
    simp only [timeOfYear?]
  have hmem (y : Nat) : y ∈ year :: later ↔ y ∈ s.years ∧ start.date.year ≤ y := by
    rw [← hlater, List.mem_filter, decide_eq_true_eq]
  have htoNat : start.date.year.toNat = year := by omega
  have hall : Earliest (fun t => s.Lists t ∧ NotBefore true start t)
      ((year :: later).findSome? fun y => s.timeOfYear? start (y = year) y) := by
    refine earliest_of_parts (fun t => t.date.year.toNat) (fun _ => True) hascend ?_
      (fun _ _ => trivial) (fun _ => trivial) ?_ ?_ ?_
    · intro t u _ _ h
      have hlt : t.date.year < u.date.year := by omega
      exact Instant.lt_of_date (Date.toDays_lt_of_year t.exists_date u.exists_date hlt)
    · intro y hy _
      have hle := ((hmem y).1 hy).2
      omega
    · intro t ht hle
      obtain ⟨y, hy, he⟩ := ht.date.year
      have hle := hle rfl
      rw [he, Int.toNat_natCast] at hle ⊢
      exact (hmem y).2 ⟨hy, by omega⟩
    · intro y hy
      have hb : decide (y = year) = true → start.date.year = y := by
        intro hb
        rw [hstart, of_decide_eq_true hb]
      refine (timeOfYear?_earliest hs ((hmem y).1 hy).1 hb).congr fun t => ?_
      rw [htoNat, Bool.true_and]
      refine and_congr_left fun _ => and_congr_right fun ht => ?_
      obtain ⟨z, -, he⟩ := ht.date.year
      omega
  rw [hfirst]
  exact hall.congr fun t => by simp only [NotBefore, forall_const]

/-! ## When a schedule fires -/

/-- **Firing.** A regular schedule fires at the instants that it lists, and at no other. -/
theorem fires_iff {t : Instant} (hs : s.Regular) : s.Fires t ↔ s.Lists t := by
  constructor
  · rintro ⟨after, h⟩
    obtain ⟨start, -, h⟩ := Option.map_eq_some_iff.1 h
    exact lists_of_firstFrom? hs h
  · intro h
    obtain ⟨year, hyear, hy⟩ := h.date.year
    have hlater : minSeconds < t.seconds := by
      by_contra hge
      -- The first supported instant lies in a year before year 0.
      have hdays : t.days = Date.minDays := by
        have := t.valid.1
        simp only [Instant.days, minSeconds, secondsPerDay] at *
        omega
      have hfirst : t.date.year = -262143 := by
        rw [Instant.date, hdays]
        decide
      omega
    obtain ⟨before, hbefore⟩ := Instant.exists_add_second h.nanos hlater
    -- The search starts at the instant itself, and there is none that is earlier.
    have hearliest := firstFrom?_earliest hs hyear hy
    refine ⟨before, Option.map_eq_some_iff.2 ⟨t, hbefore, ?_⟩⟩
    cases hf : s.firstFrom? t with
    | none =>
      rw [hf] at hearliest
      exact absurd ⟨h, Int.le_refl _⟩ (hearliest t)
    | some u =>
      rw [hf] at hearliest
      obtain ⟨⟨hu, hle⟩, hfirst⟩ := hearliest
      have hseconds : u.seconds = t.seconds := by
        rcases hfirst t ⟨h, Int.le_refl _⟩ with hlt | ⟨heq, -⟩ <;> omega
      rw [Option.some.injEq]
      exact Instant.eq_of_parts hseconds (hu.nanos.trans h.nanos.symm)

/-- No time is passed over: after an instant whose next second lies in a year of the schedule, the
next time is the earliest later one at which the schedule fires. -/
def Punctual (s : Schedule) : Prop :=
  ∀ after start : Instant, after.add? .second = some start →
    ∀ year ∈ s.years, start.date.year = year →
      ∃ found, s.next? after = some found ∧ Earliest (fun t => s.Fires t ∧ after < t) found

/-- **The next time.** A regular schedule passes over no time. -/
theorem punctual (hs : s.Regular) : s.Punctual := by
  intro after start hstart year hyear heq
  refine ⟨s.firstFrom? start, by rw [next?, hstart, Option.map_some], ?_⟩
  refine (firstFrom?_earliest hs hyear heq).congr fun t => ?_
  rw [fires_iff hs]
  refine and_congr_right fun ht => ?_
  have hseconds := Instant.seconds_add_second hstart
  have hnanos := ht.nanos
  constructor
  · intro hle
    exact .inl (by omega)
  · rintro (hlt | ⟨-, hlt⟩) <;> omega

end Schedule

end Agenda.Cron
