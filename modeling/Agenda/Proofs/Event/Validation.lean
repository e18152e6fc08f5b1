import Agenda.Event.Validation
import Agenda.Proofs.Time.Text

/-!
# Which events are valid

Validity is about the owner, the title, the duration and the start. Each of the four has a rule; the
checks that fail are those of the rules that are violated, so the one that is reported is of the first of
these. Cutting the start to microseconds happens after the rules are checked, so it may break the last
one.

* `Rule`: the four rules, and when each is violated.
* `Event.fails_key_iff`: a check fails exactly if its rule is violated.
* `Event.first_violated_reported`: which events are valid, and what is reported of the others.
* `Event.violation?_kept_iff`: what is kept of a valid event is valid unless its start is cut to the
  zero date.
-/
namespace Agenda

theorem Instant.toText_inj {t u : Instant} : t.toText = u.toText ↔ t = u := by
  constructor
  · intro h
    have ht := ofText_toText t
    rw [h, ofText_toText u] at ht
    cases ht
    rfl
  · rintro rfl
    rfl

theorem Instant.truncateToMicros_eq_zeroDate_iff {t : Instant} :
    t.truncateToMicros = zeroDate ↔ t.seconds = zeroDate.seconds ∧ t.nanos < 1000 := by
  have hn : t.nanos - t.nanos % 1000 = 0 ↔ t.nanos < 1000 := by omega
  rw [← hn]
  constructor
  · intro h
    have hs : t.truncateToMicros.seconds = zeroDate.seconds := by rw [h]
    have hz : t.truncateToMicros.nanos = zeroDate.nanos := by rw [h]
    exact ⟨hs, hz⟩
  · rintro ⟨hs, hz⟩
    cases t
    simp only [truncateToMicros, zeroDate, Instant.mk.injEq]
    exact ⟨hs, hz⟩

theorem Duration.eq_zero_iff {d : Duration} : d = .zero ↔ d.nanos = 0 := by
  cases d
  simp [zero]

/-! ## Texts -/

namespace Violation

variable {v : Violation} {field value : String}

theorem missing_eq_iff : missing field = v ↔
    v.field = field ∧ v.reason = field ++ " is required" := by
  obtain ⟨f, m⟩ := v
  rw [missing, mk.injEq]
  exact and_congr eq_comm eq_comm

theorem tooLong_eq_iff : tooLong field = v ↔
    v.field = field ∧ v.reason = field ++ " length can't be greater than 256" := by
  have htext : tooLong field = ⟨field, field ++ (" length can't be greater than " ++ "256")⟩ :=
    congrArg (Violation.mk field) (String.append_assoc ..)
  obtain ⟨f, m⟩ := v
  rw [htext, mk.injEq]
  exact and_congr eq_comm eq_comm

/-- A text is said to be required exactly if it is empty. -/
theorem ofLength_eq_iff (h : value.length = 0 ∨ 256 < value.length) : ofLength field value = v ↔
    v.field = field ∧ (v.reason = field ++ " is required" ∧ value.length = 0 ∨
      v.reason = field ++ " length can't be greater than 256" ∧ 256 < value.length) := by
  have hempty : value.isEmpty = true ↔ value.length = 0 := by simp
  by_cases hz : value.length = 0
  · have hlong : ¬ 256 < value.length := by omega
    rw [ofLength, if_pos (hempty.2 hz), missing_eq_iff]
    simp [hz]
  · have hlong := h.resolve_left hz
    rw [ofLength, if_neg (mt hempty.1 hz), tooLong_eq_iff]
    simp [hz, hlong]

end Violation

/-! ## The rules -/

/-- What has to be right about an event. -/
inductive Rule where
  | owner
  | title
  | duration
  | start
  deriving DecidableEq, Repr

namespace Rule

/-- The place of the rule in the order in which violations are reported. -/
def rank : Rule → Nat
  | owner => 0
  | title => 1
  | duration => 2
  | start => 3

/-- The field as clients know it. -/
def field : Rule → String
  | owner => "owner"
  | title => "title"
  | duration => "duration"
  | start => "startDate"

/-- The field as the failed checks name it. -/
def key : Rule → String
  | start => "start_date"
  | r => r.field

/-- The field is not given: it is empty, zero or the zero date. -/
def Missing (e : Event) : Rule → Prop
  | owner => e.owner.length = 0
  | title => e.title.length = 0
  | duration => e.duration.nanos = 0
  | start => e.startDate.toText = "0001-01-01T00:00:00Z".toList

/-- The field is a text of too many characters. -/
def TooLong (e : Event) : Rule → Prop
  | owner => 256 < e.owner.length
  | title => 256 < e.title.length
  | duration | start => False

/-- The event violates the rule. -/
def Violated (e : Event) (r : Rule) : Prop := r.Missing e ∨ r.TooLong e

/-- The event violates the rule and none that comes before. -/
def First (e : Event) (r : Rule) : Prop :=
  r.Violated e ∧ ∀ r' : Rule, r'.rank < r.rank → ¬ r'.Violated e

/-- The text says what is wrong with the field: that it is required exactly if it is not given. -/
def Explains (e : Event) (r : Rule) (reason : String) : Prop :=
  reason = r.field ++ " is required" ∧ r.Missing e ∨
    reason = r.field ++ " length can't be greater than 256" ∧ r.TooLong e

/-- What is reported of the rule. -/
def report (e : Event) : Rule → Violation
  | owner => .ofLength "owner" e.owner
  | title => .ofLength "title" e.title
  | duration => .missing "duration"
  | start => .missing "startDate"

variable {e : Event} {r : Rule} {v : Violation}

/-- An event that violates a rule violates one of them first. -/
theorem exists_first (h : r.Violated e) : ∃ r : Rule, r.First e := by
  by_contra hn
  have hnone (n : Nat) : ∀ r : Rule, r.rank = n → ¬ r.Violated e := by
    induction n using Nat.strongRecOn with
    | ind n ih =>
      rintro r rfl hr
      exact hn ⟨r, hr, fun r' hlt => ih r'.rank hlt r' rfl⟩
  exact hnone r.rank r rfl h

theorem report_eq_iff (h : r.Violated e) :
    r.report e = v ↔ v.field = r.field ∧ r.Explains e v.reason := by
  cases r with
  | owner => exact Violation.ofLength_eq_iff h
  | title => exact Violation.ofLength_eq_iff h
  | duration => simp [report, Violation.missing_eq_iff, Explains, TooLong, field, h.resolve_right not_false]
  | start => simp [report, Violation.missing_eq_iff, Explains, TooLong, field, h.resolve_right not_false]

end Rule

namespace Event

variable {e : Event} {describe : List FieldError → String} {r : Rule} {v : Violation}

/-! ## Failed checks -/

theorem mem_lengthErrors {err : FieldError} {field value : String} :
    err ∈ lengthErrors field value ↔
      err = ⟨field, "length"⟩ ∧ (value.length = 0 ∨ 256 < value.length) := by
  unfold lengthErrors maxFieldLength
  split
  · rename_i h
    simp only [List.not_mem_nil, false_iff, not_and]
    omega
  · rename_i h
    have hlength : value.length = 0 ∨ 256 < value.length := by omega
    rw [List.mem_singleton, and_iff_left hlength]

theorem mem_requiredErrors {err : FieldError} {field : String} {missing : Prop}
    [Decidable missing] :
    err ∈ requiredErrors field missing ↔ err = ⟨field, "required"⟩ ∧ missing := by
  by_cases h : missing <;> simp [requiredErrors, h]

theorem startDate_eq_zeroDate_iff :
    e.startDate = zeroDate ↔ e.startDate.toText = "0001-01-01T00:00:00Z".toList := by
  have hzero : zeroDate.toText = "0001-01-01T00:00:00Z".toList := by decide
  rw [← hzero, Instant.toText_inj]

/-- The checks that fail are those of the rules that are violated. -/
theorem exists_mem_fieldErrors {P : String → Prop} :
    (∃ err ∈ e.fieldErrors, P err.field) ↔ ∃ r : Rule, P r.key ∧ r.Violated e := by
  simp only [fieldErrors, List.mem_append, mem_lengthErrors, mem_requiredErrors,
    Duration.eq_zero_iff, startDate_eq_zeroDate_iff]
  constructor
  · rintro ⟨_, (((⟨rfl, h⟩ | ⟨rfl, h⟩) | ⟨rfl, h⟩) | ⟨rfl, h⟩), hp⟩
    · exact ⟨.title, hp, h⟩
    · exact ⟨.start, hp, .inl h⟩
    · exact ⟨.duration, hp, .inl h⟩
    · exact ⟨.owner, hp, h⟩
  · rintro ⟨r, hp, h⟩
    cases r with
    | owner => exact ⟨_, .inr ⟨rfl, h⟩, hp⟩
    | title => exact ⟨_, .inl (.inl (.inl ⟨rfl, h⟩)), hp⟩
    | duration => exact ⟨_, .inl (.inr ⟨rfl, h.resolve_right not_false⟩), hp⟩
    | start => exact ⟨_, .inl (.inl (.inr ⟨rfl, h.resolve_right not_false⟩)), hp⟩

theorem fieldErrors_isEmpty_iff : e.fieldErrors.isEmpty = true ↔ ∀ r : Rule, ¬ r.Violated e := by
  have h := exists_mem_fieldErrors (e := e) (P := fun _ => True)
  simp only [and_true, true_and] at h
  rw [List.isEmpty_iff, List.eq_nil_iff_forall_not_mem, ← not_exists, ← not_exists, h]

/-- **Checks.** The check of a field fails exactly if its rule is violated. -/
theorem fails_key_iff : e.fails r.key = true ↔ r.Violated e := by
  have h := exists_mem_fieldErrors (e := e) (P := fun field => field = r.key)
  rw [fails, List.any_eq_true]
  simp only [decide_eq_true_eq, h]
  constructor
  · rintro ⟨r', hkey, hr⟩
    cases r <;> cases r' <;> first | exact hr | exact absurd hkey (by decide)
  · exact fun hr => ⟨r, rfl, hr⟩

/-! ## Violations -/

/-- The rule that is violated first is the one that is reported. -/
theorem violationBy?_of_first (h : r.First e) : e.violationBy? describe = some (r.report e) := by
  obtain ⟨hr, hbefore⟩ := h
  have hne : ¬ e.fieldErrors.isEmpty = true := fun hn => fieldErrors_isEmpty_iff.1 hn r hr
  have hfails (r : Rule) (hv : r.Violated e) : e.fails r.key = true := fails_key_iff.2 hv
  have hpasses (r' : Rule) (hlt : r'.rank < r.rank) : ¬ e.fails r'.key = true :=
    mt fails_key_iff.1 (hbefore r' hlt)
  rw [violationBy?, if_neg hne]
  cases r with
  | owner => exact if_pos (hfails .owner hr)
  | title =>
    refine (if_neg (hpasses .owner (by decide))).trans ?_
    exact if_pos (hfails .title hr)
  | duration =>
    refine (if_neg (hpasses .owner (by decide))).trans ?_
    refine (if_neg (hpasses .title (by decide))).trans ?_
    exact if_pos (hfails .duration hr)
  | start =>
    refine (if_neg (hpasses .owner (by decide))).trans ?_
    refine (if_neg (hpasses .title (by decide))).trans ?_
    refine (if_neg (hpasses .duration (by decide))).trans ?_
    exact if_pos (hfails .start hr)

theorem violationBy?_eq_none_iff :
    e.violationBy? describe = none ↔ ∀ r : Rule, ¬ r.Violated e := by
  constructor
  · intro h r hr
    obtain ⟨r', hr'⟩ := Rule.exists_first hr
    rw [violationBy?_of_first hr'] at h
    cases h
  · intro h
    exact if_pos (fieldErrors_isEmpty_iff.2 h)

theorem violationBy?_eq_some_iff :
    e.violationBy? describe = some v ↔ ∃ r : Rule, r.First e ∧ r.report e = v := by
  constructor
  · intro h
    by_cases hn : ∀ r : Rule, ¬ r.Violated e
    · rw [violationBy?_eq_none_iff.2 hn] at h
      cases h
    · obtain ⟨r, hr⟩ := not_forall_not.1 hn
      obtain ⟨r', hr'⟩ := Rule.exists_first hr
      rw [violationBy?_of_first hr', Option.some.injEq] at h
      exact ⟨r', hr', h⟩
  · rintro ⟨r, hr, rfl⟩
    exact violationBy?_of_first hr

theorem violation?_eq_none_iff : e.violation? = none ↔ ∀ r : Rule, ¬ r.Violated e :=
  violationBy?_eq_none_iff

theorem violation?_eq_some_iff :
    e.violation? = some v ↔ ∃ r : Rule, r.First e ∧ r.report e = v :=
  violationBy?_eq_some_iff

/-- An event violates no rule exactly if all four fields are as they have to be. -/
theorem forall_not_violated_iff : (∀ r : Rule, ¬ r.Violated e) ↔
    (1 ≤ e.owner.length ∧ e.owner.length ≤ 256) ∧ (1 ≤ e.title.length ∧ e.title.length ≤ 256) ∧
      e.duration.nanos ≠ 0 ∧ e.startDate.toText ≠ "0001-01-01T00:00:00Z".toList := by
  have hall : (∀ r : Rule, ¬ r.Violated e) ↔ ¬ Rule.owner.Violated e ∧ ¬ Rule.title.Violated e ∧
      ¬ Rule.duration.Violated e ∧ ¬ Rule.start.Violated e :=
    ⟨fun h => ⟨h .owner, h .title, h .duration, h .start⟩, fun ⟨ho, ht, hd, hs⟩ r => by
      cases r <;> assumption⟩
  rw [hall]
  simp only [Rule.Violated, Rule.Missing, Rule.TooLong, or_false, not_or, Nat.not_lt]
  refine and_congr ?_ (and_congr ?_ .rfl)
  · omega
  · omega

/-- **Rules.** An event is valid exactly if its owner and its title have between 1 and 256 characters,
its duration is not zero and its start is not the zero date. Of any other the violation of the first
rule is reported, and it is said that the field is required exactly if it is not given. Neither the
other fields matter nor how errors of other fields would be described: there are none. -/
theorem first_violated_reported (describe : List FieldError → String) (e : Event) :
    (e.violationBy? describe = none ↔
      (1 ≤ e.owner.length ∧ e.owner.length ≤ 256) ∧ (1 ≤ e.title.length ∧ e.title.length ≤ 256) ∧
        e.duration.nanos ≠ 0 ∧ e.startDate.toText ≠ "0001-01-01T00:00:00Z".toList) ∧
    (∀ v, e.violationBy? describe = some v ↔
      ∃ r : Rule, r.First e ∧ v.field = r.field ∧ r.Explains e v.reason) ∧
    (∀ reason, e.violationBy? describe ≠ some ⟨"event", reason⟩) ∧
    (∀ id description remindAt isSent,
      ({ e with id, description, remindAt, isSent } : Event).violationBy? describe =
        e.violationBy? describe) ∧
    e.violation? = e.violationBy? describe := by
  have hsome (v : Violation) : e.violationBy? describe = some v ↔
      ∃ r : Rule, r.First e ∧ v.field = r.field ∧ r.Explains e v.reason := by
    rw [violationBy?_eq_some_iff]
    exact exists_congr fun r => and_congr_right fun hr => Rule.report_eq_iff hr.1
  refine ⟨violationBy?_eq_none_iff.trans forall_not_violated_iff, hsome, fun reason h => ?_,
    fun _ _ _ _ => rfl, ?_⟩
  · obtain ⟨r, -, hfield, -⟩ := (hsome _).1 h
    have hnever : ∀ r : Rule, "event" ≠ r.field := by
      rintro (_ | _ | _ | _) <;> decide
    exact hnever r hfield
  · refine Option.ext fun v => ?_
    rw [violation?_eq_some_iff, violationBy?_eq_some_iff]

example : ({ blank with owner := "ada", startDate := .first } : Event).violation? =
    some ⟨"title", "title is required"⟩ := by decide

/-! ## What is kept -/

/-- The start is given, less than a microsecond after the zero date or on it. -/
def StartsAtZero (e : Event) : Prop :=
  e.startDate.seconds = zeroDate.seconds ∧ e.startDate.nanos < 1000

/-- **What is kept.** It is valid unless the start is cut to the zero date. -/
theorem violation?_kept_iff (hv : e.violation? = none) (sent : Bool) :
    ({ e.truncated with isSent := sent } : Event).violation? = none ↔ ¬ e.StartsAtZero := by
  obtain ⟨ho, ht, hd, -⟩ := forall_not_violated_iff.1 (violation?_eq_none_iff.1 hv)
  rw [violation?_eq_none_iff, forall_not_violated_iff, ← startDate_eq_zeroDate_iff.ne, StartsAtZero,
    ← Instant.truncateToMicros_eq_zeroDate_iff]
  exact ⟨fun h => h.2.2.2, fun h => ⟨ho, ht, hd, h⟩⟩

end Event

end Agenda
