/-!
# Computations that may fail

A computation that may fail succeeds when each of its steps does. Where only the value counts and not
the error, `toOption` forgets the error.

* `map_eq_ok`, `bind_eq_ok`: what has succeeded if a step after it has.
* `toOption_map`, `toOption_bind`: the same steps without the errors.
-/
namespace Agenda

variable {ε α β : Type}

theorem bind_eq_ok {x : Except ε α} {f : α → Except ε β} {y : β} :
    (x >>= f) = .ok y ↔ ∃ a, x = .ok a ∧ f a = .ok y := by
  cases x <;> simp [bind, Except.bind]

theorem map_eq_ok {x : Except ε α} {f : α → β} {y : β} :
    x.map f = .ok y ↔ ∃ a, x = .ok a ∧ f a = y := by
  cases x <;> simp [Except.map]

/-! ## Without the error -/

theorem toOption_eq_some {r : Except ε α} {a : α} : r.toOption = some a ↔ r = .ok a := by
  cases r with
  | ok b =>
    constructor
    · intro h; cases h; rfl
    · intro h; cases h; rfl
  | error err =>
    constructor
    · intro h; cases h
    · intro h; cases h

theorem exists_eq_ok {r : Except ε α} (h : r.toOption.isSome) : ∃ a, r = .ok a :=
  (Option.isSome_iff_exists.1 h).imp fun _ => toOption_eq_some.1

theorem toOption_map (x : Except ε α) (f : α → β) : (x.map f).toOption = x.toOption.map f := by
  cases x <;> rfl

theorem toOption_bind (x : Except ε α) (f : α → Except ε β) :
    (x.bind f).toOption = x.toOption.bind fun a => (f a).toOption := by
  cases x <;> rfl

end Agenda
