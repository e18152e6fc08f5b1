import Agenda.Proofs.Config.Environment

/-!
# Texts from the environment

The value of a variable is taken for a truth value or a number where its text reads as one, before it
is known that a text is wanted, and is written out again when it is. A text that reads as neither
arrives as it was given, and so does the one form in which a value is written; every other spelling
is replaced by that form.

* `Setting.arrives_verbatim_iff`: a text setting is the text of its variable exactly when the text is
  `Verbatim`.
* `password_altered`: the password `007` becomes `7`.
-/
namespace Agenda.Config

open Toml (Scalar)

/-- How a value is written where a text is wanted. -/
def shown : Scalar → String
  | .bool b => toString b
  | .integer n => String.ofList (Decimal.signedDigits n)
  | .float x => String.ofList x.plainText
  | .text s => s

theorem ofScalar?_text (x : Scalar) : Kind.text.ofScalar? x = some (.text (shown x)) := by
  cases x <;> rfl

/-- If the text reads as a value that is no text, it is the form in which this value is written: as a
truth value in any case, else as a whole number of 64 bits, else as a floating-point number. -/
structure Verbatim (v : String) : Prop where
  flag : ∀ b : Bool, Text.lowered v = toString b → v = toString b
  whole : ∀ n ∈ Path.integer? v.toList, v = String.ofList (Decimal.signedDigits n)
  number : Path.integer? v.toList = none →
    ∀ x ∈ Binary64.parse? v.toList, v = String.ofList x.plainText

instance (v : String) : Decidable (Verbatim v) :=
  decidable_of_iff
    ((∀ b : Bool, Text.lowered v = toString b → v = toString b) ∧
      (∀ n ∈ Path.integer? v.toList, v = String.ofList (Decimal.signedDigits n)) ∧
      (Path.integer? v.toList = none →
        ∀ x ∈ Binary64.parse? v.toList, v = String.ofList x.plainText))
    ⟨fun h => ⟨h.1, h.2.1, h.2.2⟩, fun h => ⟨h.flag, h.whole, h.number⟩⟩

example : Verbatim "hunter2" ∧ Verbatim "-12" ∧ ¬ Verbatim "1e3" ∧ ¬ Verbatim "TRUE" := by
  decide +kernel

theorem verbatim_toString (b : Bool) : Verbatim (toString b) := by
  cases b <;> decide +kernel

theorem verbatim_of_whole {v : String} {n : Int} (hflag : ∀ b : Bool, Text.lowered v ≠ toString b)
    (hn : Path.integer? v.toList = some n) (h : v = String.ofList (Decimal.signedDigits n)) :
    Verbatim v where
  flag b hb := absurd hb (hflag b)
  whole m hm := by
    rw [hn] at hm
    cases hm
    exact h
  number hnone := by
    rw [hn] at hnone
    cases hnone

theorem verbatim_of_number {v : String} (hflag : ∀ b : Bool, Text.lowered v ≠ toString b)
    (hnone : Path.integer? v.toList = none)
    (h : ∀ x ∈ Binary64.parse? v.toList, v = String.ofList x.plainText) : Verbatim v where
  flag b hb := absurd hb (hflag b)
  whole n hn := by
    rw [hnone] at hn
    cases hn
  number _ := h

/-- The value of a text is written as the text exactly when the text is verbatim. -/
theorem shown_variableValue_iff (v : String) : shown (variableValue v) = v ↔ Verbatim v := by
  by_cases htrue : Text.lowered v = "true"
  · rw [variableValue, if_pos htrue]
    constructor
    · rintro rfl
      exact verbatim_toString true
    · exact fun h => (h.flag true htrue).symm
  · by_cases hfalse : Text.lowered v = "false"
    · rw [variableValue, if_neg htrue, if_pos hfalse]
      constructor
      · rintro rfl
        exact verbatim_toString false
      · exact fun h => (h.flag false hfalse).symm
    · have hflag : ∀ b : Bool, Text.lowered v ≠ toString b := by
        intro b
        cases b
        · exact hfalse
        · exact htrue
      simp only [variableValue, if_neg htrue, if_neg hfalse]
      cases hwhole : Path.integer? v.toList with
      | some n =>
        exact ⟨fun h => verbatim_of_whole hflag hwhole h.symm, fun h => (h.whole n hwhole).symm⟩
      | none =>
        cases hnumber : Binary64.parse? v.toList with
        | some x =>
          refine ⟨fun h => verbatim_of_number hflag hwhole fun y hy => ?_,
            fun h => (h.number hwhole x hnumber).symm⟩
          rw [hnumber] at hy
          cases hy
          exact h.symm
        | none =>
          refine ⟨fun _ => verbatim_of_number hflag hwhole fun y hy => ?_, fun _ => rfl⟩
          rw [hnumber] at hy
          cases hy

/-- A text setting is the text of its variable exactly when the text is verbatim, whatever the file
contains and whatever variables are set for other settings. -/
theorem Setting.arrives_verbatim_iff {k : Setting} (hk : k.kind = .text) {file : String}
    {text : Option (List Char)} {vars : List (String × String)} {v : String} {s : Settings}
    (hv : (k.variableName, v) ∈ vars)
    (hvars : ∀ x ∈ vars, x = (k.variableName, v) ∨ k.effect (environment [x]) = .keeps)
    (hload : Settings.load file text vars = .ok s) : s.get k = .text v ↔ Verbatim v := by
  obtain ⟨es, -, hfile, -, -⟩ := field_of_load hload
  have heffect : k.effect (es ++ environment vars) = .sets (variableValue v) := by
    rw [effect_append, effect_environment hv hvars]
    rfl
  have hget : k.kind.ofScalar? (variableValue v) = some (s.get k) :=
    k.ofScalar?_of_load hload hfile (by rw [heffect, settled?])
  rw [hk, ofScalar?_text, Option.some.injEq] at hget
  rw [← hget, Scalar.text.injEq, shown_variableValue_iff]

/-- The password is the text of its variable or not, over one in the file and beside other
variables. -/
theorem arrives_verbatim_iff_password :
    ∃ s, Settings.load "config.toml" (some "[database]\npassword = 'file'".toList)
        [("HOME", "/"), ("CALENDAR__HTTP__PORT", "80"), ("CALENDAR__DATABASE__PASSWORD", "1_000")] =
        .ok s ∧
      (s.get .databasePassword = .text "1_000" ↔ Verbatim "1_000") := by
  obtain ⟨s, hload⟩ := exists_eq_ok (show (Settings.load "config.toml"
    (some "[database]\npassword = 'file'".toList)
    [("HOME", "/"), ("CALENDAR__HTTP__PORT", "80"),
      ("CALENDAR__DATABASE__PASSWORD", "1_000")]).toOption.isSome by decide +kernel)
  exact ⟨s, hload, Setting.arrives_verbatim_iff rfl (by decide +kernel) (by decide +kernel) hload⟩

/-- The zeros in front of a password are lost. -/
theorem password_altered :
    (Settings.load "config.toml" none [("CALENDAR__DATABASE__PASSWORD", "007")]).toOption.map
      (·.database.password) = some "7" := by
  decide +kernel

end Agenda.Config
