import Agenda.Intake
import Agenda.Proofs.Store.View

/-!
# What the entry points do

The calendar and the intake check an event before they store it. These lemmas say when an entry point
succeeds and when it refuses an event as invalid; nothing below opens them again.

* `Calendar.create_eq_ok`, `Calendar.update_eq_ok`, `Calendar.delete_eq_ok`,
  `Intake.consume_eq_created`: what has happened when an entry point succeeds.
* `Event.acceptable_iff`: they refuse exactly the invalid events as invalid.
-/
namespace Agenda

variable {b b' : Backend} {e f : Event} {fresh : String} {v : Violation}

namespace Calendar

/-! ## The calendar -/

theorem storing_eq_ok {r : Except StoreError α} {a : α} : storing r = .ok a ↔ r = .ok a := by
  cases r with
  | ok b =>
    constructor
    · intro h; cases h; rfl
    · intro h; cases h; rfl
  | error err =>
    constructor
    · intro h; cases h
    · intro h; cases h

theorem map_storing_eq_ok {r : Except StoreError Backend} :
    (storing r).map (e, ·) = .ok (f, b') ↔ f = e ∧ r = .ok b' := by
  cases r with
  | ok b =>
    constructor
    · intro h; cases h; exact ⟨rfl, rfl⟩
    · rintro ⟨rfl, h⟩; cases h; rfl
  | error err =>
    constructor
    · intro h; cases h
    · rintro ⟨-, h⟩; cases h

theorem map_storing_ne_invalid {r : Except StoreError Backend} :
    (storing r).map (e, ·) ≠ .error (.invalid v) := by
  intro h
  cases r with
  | ok b => cases h
  | error err => cases h

theorem create_eq_ok : create fresh e b = .ok (f, b') ↔
    e.violation? = none ∧ f = e.accepted fresh ∧ b.create (e.accepted fresh) = .ok b' := by
  unfold create
  cases hv : e.violation? with
  | none => simp only [map_storing_eq_ok, true_and]
  | some v => simp

theorem create_eq_invalid : create fresh e b = .error (.invalid v) ↔ e.violation? = some v := by
  unfold create
  cases hv : e.violation? with
  | none => simp [map_storing_ne_invalid]
  | some v => simp

theorem update_eq_ok : update e b = .ok (f, b') ↔
    e.id.isEmpty = false ∧ e.violation? = none ∧ f = e.rearmed ∧ b.update e.rearmed = .ok b' := by
  unfold update
  cases hi : e.id.isEmpty with
  | true => simp
  | false =>
    cases hv : e.violation? with
    | none => simp [map_storing_eq_ok]
    | some v => simp

theorem update_eq_invalid :
    update e b = .error (.invalid v) ↔ e.id.isEmpty = false ∧ e.violation? = some v := by
  unfold update
  cases hi : e.id.isEmpty with
  | true => simp
  | false =>
    cases hv : e.violation? with
    | none => simp [map_storing_ne_invalid]
    | some v => simp

theorem delete_eq_ok {id : String} : delete id b = .ok b' ↔ b.delete id = .ok b' := storing_eq_ok

end Calendar

/-! ## The intake -/

/-- What the intake creates is the event of the message. -/
theorem Intake.consume_eq_created {id : String} {payload : Option (List UInt8)}
    (h : consume fresh payload b = .ok (.created id, b')) :
    ∃ bytes e, payload = some bytes ∧ Event.ofJson bytes = .ok e ∧ e.violation? = none ∧
      id = (e.accepted fresh).id ∧ b.create (e.accepted fresh) = .ok b' := by
  unfold consume at h
  split at h
  · cases h
  · cases h
  · rename_i bytes _
    split at h
    · cases h
    · rename_i e he
      split at h
      · cases h
      · rename_i hv
        split at h
        · rename_i b₁ hc
          cases h
          exact ⟨bytes, e, rfl, he, hv, rfl, hc⟩
        · cases h
        · cases h

/-- A duplicate changes nothing. -/
theorem Intake.consume_eq_duplicate {id : String} {payload : Option (List UInt8)}
    (h : consume fresh payload b = .ok (.duplicate id, b')) : b' = b := by
  unfold consume at h
  split at h
  · cases h
  · cases h
  · split at h
    · cases h
    · split at h
      · cases h
      · split at h
        · cases h
        · cases h
          rfl
        · cases h

/-- The intake refuses as invalid only an event of its message that is invalid. -/
theorem Intake.consume_eq_invalid {bytes : List UInt8} (hj : Event.ofJson bytes = .ok e)
    (h : consume fresh (some bytes) b = .error (.service (.invalid v))) : e.violation? = some v := by
  unfold consume at h
  split at h
  · cases h
  · cases h
  · rename_i bytes' _ hb
    cases hb
    rw [hj] at h
    dsimp only at h
    split at h
    · rename_i w hv
      cases h
      exact hv
    · split at h
      · cases h
      · cases h
      · cases h

/-! ## Acceptable events -/

/-- No entry point refuses the event as invalid, whether as it is or as a message shows it. -/
structure Event.Acceptable (e : Event) : Prop where
  create : ∀ fresh b v, Calendar.create fresh e b ≠ .error (.invalid v)
  update : ∀ b v, Calendar.update e b ≠ .error (.invalid v)
  consume : ∀ sent fresh bytes b v, Event.ofJson bytes = .ok { e with isSent := sent } →
    Intake.consume fresh (some bytes) b ≠ .error (.service (.invalid v))

/-- **Entry points.** They refuse as invalid what violates a rule, and nothing else. -/
theorem Event.acceptable_iff : e.Acceptable ↔ e.violation? = none := by
  constructor
  · intro h
    cases hv : e.violation? with
    | none => rfl
    | some v => exact absurd (Calendar.create_eq_invalid.2 hv) (h.create "" (.reliable .empty) v)
  · intro hv
    refine ⟨?_, ?_, ?_⟩
    · intro fresh b v h
      rw [Calendar.create_eq_invalid, hv] at h
      cases h
    · intro b v h
      rw [Calendar.update_eq_invalid, hv] at h
      cases h.2
    · intro sent fresh bytes b v hj h
      -- Whether it is sent plays no role in whether it is valid.
      have hv' : ({ e with isSent := sent } : Event).violation? = none := hv
      rw [Intake.consume_eq_invalid hj h] at hv'
      cases hv'

end Agenda
