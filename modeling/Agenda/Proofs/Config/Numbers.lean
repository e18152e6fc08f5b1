import Agenda.Proofs.Config.Environment
import Agenda.Proofs.Decimal.Binary64
import Agenda.Proofs.Toml.Integer
import Mathlib.Algebra.Group.Int.Defs

/-!
# Whole numbers in settings

A whole number in the file is read exactly or refused. One in a variable is read as a whole number of
64 bits with a sign if it fits, and else as a floating-point number, which is rounded, and cut to the
range of natural numbers of 64 bits (`Kept`).

* `variableValue_numeral`: the value of a whole number in a variable.
* `Setting.number_kept_iff`: when a number setting is the whole number that was assigned to it.
* `timeout_altered`: the timeout 9223372036854775809 becomes 9223372036854775808.
-/
namespace Agenda.Config

open Decimal
open Toml (Scalar)

/-! ## Numerals -/

/-- The texts of whole numbers in variables: digits with an optional sign. -/
inductive Numeral : List Char → Int → Prop where
  | plain {ds : List Char} (hne : ds ≠ []) (hds : ∀ c ∈ ds, c.isDigit) : Numeral ds (ofDigits ds)
  | plus {ds : List Char} (hne : ds ≠ []) (hds : ∀ c ∈ ds, c.isDigit) :
    Numeral ('+' :: ds) (ofDigits ds)
  | minus {ds : List Char} (hne : ds ≠ []) (hds : ∀ c ∈ ds, c.isDigit) :
    Numeral ('-' :: ds) (-(ofDigits ds : Int))

/-- A whole number that a variable gives unchanged: one of 64 bits with a sign, or a greater one of 64
bits that is a floating-point number or the greatest of all. -/
def Kept (n : Int) : Prop :=
  -2 ^ 63 ≤ n ∧ n < 2 ^ 63 ∨ 0 ≤ n ∧ n < 2 ^ 64 ∧ 2048 ∣ n ∨ n = 2 ^ 64 - 1

instance (n : Int) : Decidable (Kept n) := inferInstanceAs (Decidable (_ ∨ _))

example : Kept 9223372036854777856 ∧ ¬ Kept 9223372036854775809 := by decide

section Digits

variable {cs ds : List Char} {n : Int}

theorem isSmall_of_isDigit {c : Char} (h : c.isDigit) : Text.isSmall c := by
  have hrange : 48 ≤ c.toNat ∧ c.toNat ≤ 57 := Char.isDigit_iff_toNat.1 h
  rw [← Char.ofNat_toNat c]
  exact Text.isSmall_ascii _ (by omega) (by omega)

/-- A numeral begins with a digit or a sign and goes on with digits. -/
theorem Numeral.cases_head (h : Numeral cs n) :
    ∃ c t, cs = c :: t ∧ (c.isDigit ∨ c = '+' ∨ c = '-') ∧ ∀ d ∈ t, d.isDigit := by
  cases h with
  | plain hne hds =>
    obtain ⟨c, t, rfl⟩ := List.exists_cons_of_ne_nil hne
    exact ⟨c, t, rfl, .inl (hds c List.mem_cons_self), fun d hd => hds d (List.mem_cons_of_mem c hd)⟩
  | plus hne hds => exact ⟨_, _, rfl, .inr (.inl rfl), hds⟩
  | minus hne hds => exact ⟨_, _, rfl, .inr (.inr rfl), hds⟩

theorem Numeral.lowered_eq_self {v : String} (h : Numeral v.toList n) : Text.lowered v = v := by
  obtain ⟨c, t, hv, hc, ht⟩ := h.cases_head
  refine Text.lowered_eq_self fun d hd => ?_
  rw [hv] at hd
  rcases List.mem_cons.1 hd with rfl | hd
  · rcases hc with hc | rfl | rfl
    · exact isSmall_of_isDigit hc
    · decide
    · decide
  · exact isSmall_of_isDigit (ht d hd)

/-- A numeral is no other word. -/
theorem Numeral.lowered_ne {v word : String} {c : Char} {t : List Char} (h : Numeral v.toList n)
    (hword : word.toList = c :: t) (hc : c.isDigit = false ∧ c ≠ '+' ∧ c ≠ '-') :
    Text.lowered v ≠ word := by
  rw [h.lowered_eq_self]
  rintro rfl
  obtain ⟨d, u, hv, hd, -⟩ := h.cases_head
  rw [hv] at hword
  obtain ⟨rfl, -⟩ := List.cons.inj hword
  rcases hd with hd | hd | hd
  · exact absurd hd (Bool.eq_false_iff.1 hc.1)
  · exact hc.2.1 hd
  · exact hc.2.2 hd

theorem notDigits_eq_false (hne : ds ≠ []) (hds : ∀ c ∈ ds, c.isDigit) :
    (ds.isEmpty || !ds.all Char.isDigit) = false := by
  simpa [hne] using hds

theorem int64_iff (m : Int) :
    (Int64.minValue.toInt ≤ m ∧ m ≤ Int64.maxValue.toInt) ↔ -2 ^ 63 ≤ m ∧ m < 2 ^ 63 := by
  have hmin : Int64.minValue.toInt = -2 ^ 63 := by decide
  have hmax : Int64.maxValue.toInt = 2 ^ 63 - 1 := by decide
  omega

/-- A numeral is a whole number if it has 64 bits with a sign. -/
theorem integer?_numeral (h : Numeral cs n) :
    Path.integer? cs = if -2 ^ 63 ≤ n ∧ n < 2 ^ 63 then some n else none := by
  cases h with
  | plain hne hds =>
    unfold Path.integer?
    split
    next heq =>
    split at heq
    · exact absurd (hds '-' List.mem_cons_self) (by decide)
    · exact absurd (hds '+' List.mem_cons_self) (by decide)
    · cases heq
      simp only [notDigits_eq_false hne hds, int64_iff, Bool.false_eq_true, if_false]
  | plus hne hds =>
    simp only [Path.integer?, notDigits_eq_false hne hds, int64_iff, Bool.false_eq_true, if_false]
  | minus hne hds =>
    simp only [Path.integer?, notDigits_eq_false hne hds, int64_iff, Bool.false_eq_true, if_false,
      if_true]

theorem toLower_of_isDigit {c : Char} (h : c.isDigit) : c.toLower = c := by
  have hrange : 48 ≤ c.toNat ∧ c.toNat ≤ 57 := Char.isDigit_iff_toNat.1 h
  refine dif_neg ?_
  rintro ⟨hlow, -⟩
  have hle : 65 ≤ c.toNat := UInt32.le_iff_toNat_le.1 hlow
  omega

/-- Digits are not the name of an infinity or of no number. -/
theorem named_digits (negative : Bool) (hne : ds ≠ []) (hds : ∀ c ∈ ds, c.isDigit) :
    (let name := String.ofList (ds.map Char.toLower)
      if name = "inf" ∨ name = "infinity" then some (.infinite negative)
      else if name = "nan" then some .nan
      else Binary64.unsigned? negative ds) = some (.ofDecimal negative (ofDigits ds) 0) := by
  have hname : ∀ (word : String) (c : Char) (t : List Char), word.toList = c :: t →
      c.isDigit = false → String.ofList (ds.map Char.toLower) ≠ word := by
    rintro word c t hword hc rfl
    obtain ⟨d, u, rfl⟩ := List.exists_cons_of_ne_nil hne
    have hd := hds d List.mem_cons_self
    rw [String.toList_ofList, List.map_cons, toLower_of_isDigit hd] at hword
    obtain ⟨rfl, -⟩ := List.cons.inj hword
    exact absurd hd (Bool.eq_false_iff.1 hc)
  dsimp only
  rw [if_neg (not_or.2 ⟨hname _ _ _ rfl rfl, hname _ _ _ rfl rfl⟩), if_neg (hname _ _ _ rfl rfl)]
  simp [Binary64.unsigned?, List.takeWhile_eq_self_iff.2 hds, List.dropWhile_eq_nil_iff.2 hds, hne]

/-- A numeral is a decimal. -/
theorem parse?_numeral (h : Numeral cs n) :
    ∃ negative, Binary64.parse? cs = some (.ofDecimal negative n.natAbs 0) ∧
      (n < 0 → negative = true) ∧ (0 < n → negative = false) := by
  cases h with
  | plain hne hds =>
    refine ⟨false, ?_, fun h => by omega, fun _ => rfl⟩
    rw [Int.natAbs_natCast, ← named_digits false hne hds]
    unfold Binary64.parse?
    split
    next heq =>
    split at heq
    · exact absurd (hds '-' List.mem_cons_self) (by decide)
    · exact absurd (hds '+' List.mem_cons_self) (by decide)
    · cases heq
      rfl
  | plus hne hds =>
    refine ⟨false, ?_, fun h => by omega, fun _ => rfl⟩
    rw [Int.natAbs_natCast, ← named_digits false hne hds]
    rfl
  | minus hne hds =>
    refine ⟨true, ?_, fun _ => rfl, fun h => by omega⟩
    rw [Int.natAbs_neg, Int.natAbs_natCast, ← named_digits true hne hds]
    rfl

end Digits

/-- The value of a whole number in a variable. -/
theorem variableValue_numeral {v : String} {n : Int} (h : Numeral v.toList n) :
    -2 ^ 63 ≤ n ∧ n < 2 ^ 63 ∧ variableValue v = .integer n ∨
    n < -2 ^ 63 ∧ variableValue v = .float (.ofDecimal true n.natAbs 0) ∨
    2 ^ 63 ≤ n ∧ variableValue v = .float (.ofDecimal false n.natAbs 0) := by
  have htrue : Text.lowered v ≠ "true" := h.lowered_ne rfl (by decide)
  have hfalse : Text.lowered v ≠ "false" := h.lowered_ne rfl (by decide)
  by_cases hfits : -2 ^ 63 ≤ n ∧ n < 2 ^ 63
  · refine .inl ⟨hfits.1, hfits.2, ?_⟩
    simp only [variableValue, if_neg htrue, if_neg hfalse, integer?_numeral h, if_pos hfits]
  · obtain ⟨negative, hparse, hneg, hpos⟩ := parse?_numeral h
    have hvalue : variableValue v = .float (.ofDecimal negative n.natAbs 0) := by
      simp only [variableValue, if_neg htrue, if_neg hfalse, integer?_numeral h, if_neg hfits, hparse]
    by_cases hlow : n < 0
    · rw [hneg hlow] at hvalue
      exact .inr (.inl ⟨by omega, hvalue⟩)
    · rw [hpos (by omega)] at hvalue
      exact .inr (.inr ⟨by omega, hvalue⟩)

/-! ## Numbers -/

theorem Kind.ofScalar?_integer {bits : Nat} {n : Int} {y : Scalar}
    (h : (Kind.number bits).ofScalar? (.integer n) = some y) : y = .integer n := by
  rw [ofScalar?, toOption_eq_some] at h
  obtain ⟨m, hm, rfl⟩ := map_eq_ok.1 h
  have hword := (readNatural_eq_ok.1 hm).1
  simp only [readWord] at hword
  split at hword
  · cases hword
  · cases hword
    rw [Int.toNat_of_nonneg (by omega)]

theorem Kind.ofScalar?_float {bits : Nat} {x : Binary64} {y : Scalar}
    (h : (Kind.number bits).ofScalar? (.float x) = some y) :
    y = .integer (x.roundToNat maxWord) := by
  rw [ofScalar?, toOption_eq_some] at h
  obtain ⟨m, hm, rfl⟩ := map_eq_ok.1 h
  have hword := (readNatural_eq_ok.1 hm).1
  cases hword
  rfl

/-- A large number that is rounded and cut is unchanged if it fits and is a multiple of its unit, or is
the limit. -/
theorem min_nearest_eq_iff {m : Nat} (hm : 2 ^ 63 ≤ m) :
    min maxWord (Binary64.nearest m) = m ↔ m < 2 ^ 64 ∧ 2048 ∣ m ∨ m = maxWord := by
  have hmax : maxWord = 2 ^ 64 - 1 := rfl
  by_cases hlt : m < 2 ^ 64
  · have hlog : m.log2 = 63 := (Nat.log2_eq_iff (by omega)).2 ⟨hm, hlt⟩
    have hunit : Binary64.unit m = 2048 :=
      calc Binary64.unit m = 2 ^ (63 - 52) := by rw [Binary64.unit, hlog]
        _ = 2048 := by decide
    have hiff := Binary64.nearest_eq_self_iff m
    rw [hunit] at hiff
    -- The greatest number of 64 bits is rounded up out of range and cut back to itself.
    by_cases hlast : m = maxWord
    · have hnearest : maxWord ≤ Binary64.nearest maxWord := by decide +kernel
      rw [hlast, min_eq_left hnearest]
      exact ⟨.inr, fun _ => rfl⟩
    · omega
  · have hlarge : 2 ^ 64 ≤ Binary64.nearest m :=
      Binary64.two_pow_le_nearest (by decide) (Nat.not_lt.1 hlt)
    omega

/-- What becomes of a whole number in a variable is the number itself exactly when it is kept. -/
theorem ofScalar?_numeral_iff {v : String} {n : Int} {bits : Nat} {y : Scalar}
    (h : Numeral v.toList n) (hy : (Kind.number bits).ofScalar? (variableValue v) = some y) :
    y = .integer n ↔ Kept n := by
  rcases variableValue_numeral h with ⟨hlow, hhigh, hvalue⟩ | ⟨hlow, hvalue⟩ | ⟨hhigh, hvalue⟩
  · rw [hvalue] at hy
    exact ⟨fun _ => .inl ⟨hlow, hhigh⟩, fun _ => Kind.ofScalar?_integer hy⟩
  · rw [hvalue] at hy
    rw [Kind.ofScalar?_float hy, Binary64.roundToNat_ofDecimal_true, Scalar.integer.injEq, Kept]
    omega
  · rw [hvalue] at hy
    have hlarge : 2 ^ 63 ≤ n.natAbs := by omega
    have hmax : (maxWord : Int) = 2 ^ 64 - 1 := rfl
    have hiff := min_nearest_eq_iff hlarge
    rw [Kind.ofScalar?_float hy,
      Binary64.roundToNat_ofDecimal_false ((by decide : 2 ^ 52 ≤ 2 ^ 63).trans hlarge) (by decide),
      Scalar.integer.injEq, Kept]
    omega

/-- A number setting is the whole number in its variable exactly when the number is kept. It always is
the whole number that the file assigns to it if no variable concerns it, and the file is read exactly:
an assignment of the text of a whole number to a key assigns that number or is refused. -/
theorem Setting.number_kept_iff {k : Setting} {bits : Nat} (hk : k.kind = .number bits)
    {file : String} {text : Option (List Char)} {vars : List (String × String)} {s : Settings}
    (hload : Settings.load file text vars = .ok s) :
    (∀ v n, Numeral v.toList n → (k.variableName, v) ∈ vars →
      (∀ x ∈ vars, x = (k.variableName, v) ∨ k.effect (environment [x]) = .keeps) →
      (s.get k = .integer n ↔ Kept n)) ∧
    (∀ es n, readFile file text = .ok es → k.effect es = .sets (.integer n) →
      (∀ x ∈ vars, k.effect (environment [x]) = .keeps) → s.get k = .integer n) ∧
    (∀ depth cs key blanks ns n rest,
      Toml.readKey cs = some (key, '=' :: (blanks ++ (ns ++ rest))) →
      (∀ c ∈ blanks, Toml.isBlank c) → Toml.IntegerText ns n → Toml.ValueEnds rest →
      Toml.readPair (Toml.readValue depth) cs = (Toml.fitted? n).map fun n =>
        ((key, .scalar (.integer n)), Toml.skipBlanks rest)) := by
  obtain ⟨es, -, hfile, -, -⟩ := field_of_load hload
  refine ⟨fun v n hn hv hvars => ?_, fun es' n hes hset hvars => ?_,
    fun depth _ _ _ _ _ _ hkey hblanks hn hrest =>
      Toml.readPair_integer depth hkey hblanks hn hrest⟩
  · have heffect : k.effect (es ++ environment vars) = .sets (variableValue v) := by
      rw [effect_append, effect_environment hv hvars]
      rfl
    have hget := k.ofScalar?_of_load hload hfile (by rw [heffect, settled?])
    rw [hk] at hget
    exact ofScalar?_numeral_iff hn hget
  · have heffect : k.effect (es' ++ environment vars) = .sets (.integer n) := by
      rw [effect_append, effect_environment_eq_keeps hvars, hset]
      rfl
    have hget := k.ofScalar?_of_load hload hes (by rw [heffect, settled?])
    rw [hk] at hget
    exact Kind.ofScalar?_integer hget

/-- The timeout of a variable, the port of the file, and how the line of the port is read. -/
theorem number_kept_iff_timeout :
    ∃ s, Settings.load "config.toml" (some "[http]\nport = 8_081".toList)
        [("CALENDAR__HTTP__SHUTDOWN_TIMEOUT_SECS", "+9223372036854777856")] = .ok s ∧
      (s.get .httpShutdownTimeout = .integer 9223372036854777856 ↔ Kept 9223372036854777856) ∧
      s.get .httpPort = .integer 8081 ∧
      Toml.readPair (Toml.readValue 79) "port = 8_081".toList =
        (Toml.fitted? (ofDigits ['8', '0', '8', '1'])).map fun n =>
          ((⟨[], "port"⟩, .scalar (.integer n)), []) := by
  obtain ⟨s, hload⟩ := exists_eq_ok (show (Settings.load "config.toml"
    (some "[http]\nport = 8_081".toList)
    [("CALENDAR__HTTP__SHUTDOWN_TIMEOUT_SECS", "+9223372036854777856")]).toOption.isSome by
      decide +kernel)
  obtain ⟨es, hfile⟩ := exists_eq_ok (show (readFile "config.toml"
    (some "[http]\nport = 8_081".toList)).toOption.isSome by decide +kernel)
  have hset : (readFile "config.toml" (some "[http]\nport = 8_081".toList)).toOption.map
      Setting.httpPort.effect = some (.sets (.integer 8081)) := by
    decide +kernel
  rw [hfile] at hset
  have hn : Numeral "+9223372036854777856".toList (ofDigits "9223372036854777856".toList) :=
    .plus (by decide) (by decide)
  rw [show (ofDigits "9223372036854777856".toList : Int) = 9223372036854777856 by decide +kernel]
    at hn
  have hport : Toml.IntegerText ['8', '_', '0', '8', '1'] (ofDigits ['8', '0', '8', '1']) :=
    .plain (.inr ⟨.underscore (by decide)
      (.digit (by decide) (.digit (by decide) (.last (by decide)))), by decide⟩)
  refine ⟨s, hload, ?_, ?_, ?_⟩
  · exact (Setting.number_kept_iff (k := .httpShutdownTimeout) rfl hload).1 _ _ hn
      (by decide +kernel) (by decide +kernel)
  · exact (Setting.number_kept_iff (k := .httpPort) rfl hload).2.1 es 8081 hfile
      (Option.some.inj hset) (by decide +kernel)
  · exact (Setting.number_kept_iff (k := .httpPort) rfl hload).2.2 79 _ ⟨[], "port"⟩ [' '] _ _ []
      (by decide +kernel) (by decide) hport nofun

/-- A timeout of 64 bits becomes another one, and a number below all of 64 bits becomes a port. -/
theorem timeout_altered :
    (Settings.load "config.toml" none
      [("CALENDAR__HTTP__SHUTDOWN_TIMEOUT_SECS", "9223372036854775809")]).toOption.map
      (·.http.shutdownTimeoutSecs) = some 9223372036854775808 ∧
    (Settings.load "config.toml" none
      [("CALENDAR__HTTP__PORT", "-9223372036854775809")]).toOption.map (·.http.port) = some 0 := by
  decide +kernel

end Agenda.Config
