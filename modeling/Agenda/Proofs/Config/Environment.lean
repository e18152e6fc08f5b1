import Agenda.Proofs.Config.Settings

/-!
# Settings in variables

A variable has an effect of its own on a setting, and what an environment does is what its variables
do, one after the other.

* `Setting.effect_variable`: the variable of a setting sets it to the value of its text.
* `Setting.effect_environment`: so does an environment in which no other variable concerns it.
-/
namespace Agenda.Config

open Toml (Scalar)

namespace Setting

theorem effect_append (k : Setting) (es es' : Entries) :
    k.effect (es ++ es') = (k.effect es).andThen (k.effect es') := by
  rw [effect, sourceEffect, List.map_append, Effect.total_append]
  rfl

/-- The path of the key of a setting is its section and its name. -/
theorem ofKey_key (k : Setting) : Path.ofKey k.key = [.key k.group.key, .key k.name] := by
  cases k <;> decide +kernel

theorem variableKey?_variableName (k : Setting) : variableKey? k.variableName = some k.key := by
  cases k <;> decide +kernel

/-- A single value under the key of a setting sets it. -/
theorem effect_key (k : Setting) (origin : Option String) (x : Scalar) :
    k.effect [(k.key, .scalar origin x)] = .sets x := by
  simp only [effect, sourceEffect, List.map_cons, List.map_nil, ofKey_key, pathEffect, ne_eq,
    not_true_eq_false, or_self, if_false]
  rfl

/-- The variable of a setting sets it to the value of its text. -/
theorem effect_variable (k : Setting) (v : String) :
    k.effect (environment [(k.variableName, v)]) = .sets (variableValue v) := by
  simp only [environment, List.filterMap_cons, List.filterMap_nil, variableKey?_variableName,
    Option.map_some]
  exact k.effect_key _ _

theorem effect_environment_eq (k : Setting) (vars : List (String × String)) :
    k.effect (environment vars) = .total (vars.map fun x => k.effect (environment [x])) := by
  induction vars with
  | nil => rfl
  | cons x vars ih =>
    have hcons : environment (x :: vars) = environment [x] ++ environment vars := by
      rw [environment, environment, environment, ← List.filterMap_append]
      rfl
    rw [hcons, effect_append, List.map_cons, Effect.total, ih]

/-- An environment in which no other variable concerns a setting sets it to the value of its text. -/
theorem effect_environment {k : Setting} {vars : List (String × String)} {v : String}
    (hv : (k.variableName, v) ∈ vars)
    (hvars : ∀ x ∈ vars, x = (k.variableName, v) ∨ k.effect (environment [x]) = .keeps) :
    k.effect (environment vars) = .sets (variableValue v) := by
  rw [effect_environment_eq]
  refine Effect.total_eq_sets (List.mem_map.2 ⟨_, hv, k.effect_variable v⟩) fun e he => ?_
  obtain ⟨x, hx, rfl⟩ := List.mem_map.1 he
  rcases hvars x hx with rfl | hkeeps
  · exact .inl (k.effect_variable v)
  · exact .inr hkeeps

/-- An environment in which no variable concerns a setting leaves it alone. -/
theorem effect_environment_eq_keeps {k : Setting} {vars : List (String × String)}
    (hvars : ∀ x ∈ vars, k.effect (environment [x]) = .keeps) :
    k.effect (environment vars) = .keeps := by
  rw [effect_environment_eq]
  refine Effect.total_eq_keeps fun e he => ?_
  obtain ⟨x, hx, rfl⟩ := List.mem_map.1 he
  exact hvars x hx

end Setting

end Agenda.Config
