import Agenda.Decimal.Binary64
import Mathlib.Algebra.Group.Nat.Defs
import Mathlib.Data.Nat.Log

/-!
# Whole numbers as floating-point numbers

A whole number from 2 ^ 52 on keeps its first 53 binary digits: it becomes the nearest multiple of its
`unit`, the power of two in the place of the last of them.

* `roundToNat_ofDecimal_true`: a negative number gives 0.
* `roundToNat_ofDecimal_false`: a large number gives the nearest multiple of its unit, or the limit.
-/
namespace Agenda.Binary64

open Decimal

/-! ## Nearest multiples -/

theorem le_roundHalfEven (num den : Nat) : num / den ≤ roundHalfEven num den := by
  simp only [roundHalfEven]
  split_ifs <;> omega

theorem roundHalfEven_of_dvd {num den : Nat} (h : den ∣ num) (hden : 0 < den) :
    roundHalfEven num den = num / den := by
  simp only [roundHalfEven, Nat.mod_eq_zero_of_dvd h]
  rw [if_pos hden]

/-- The power of two in the place of the last of 53 binary digits of a number. -/
def unit (m : Nat) : Nat := 2 ^ (m.log2 - 52)

/-- The multiple of its unit that is nearest to a number. -/
def nearest (m : Nat) : Nat := roundHalfEven m (unit m) * unit m

theorem unit_pos (m : Nat) : 0 < unit m := Nat.two_pow_pos _

theorem nearest_eq_self_iff (m : Nat) : nearest m = m ↔ unit m ∣ m := by
  constructor
  · intro h
    exact ⟨roundHalfEven m (unit m), by rw [Nat.mul_comm]; exact h.symm⟩
  · intro h
    rw [nearest, roundHalfEven_of_dvd h (unit_pos m), Nat.div_mul_cancel h]

theorem two_pow_le_div_unit {m : Nat} (hm : 2 ^ 52 ≤ m) : 2 ^ 52 ≤ m / unit m := by
  have hne : m ≠ 0 := by omega
  have hlog : 52 ≤ m.log2 := (Nat.le_log2 hne).2 hm
  rw [Nat.le_div_iff_mul_le (unit_pos m), unit, ← Nat.pow_add,
    Nat.add_sub_cancel' hlog]
  exact Nat.log2_self_le hne

/-- The nearest multiple is not below a power of two that the number is not below. -/
theorem two_pow_le_nearest {m k : Nat} (hk : 52 ≤ k) (hm : 2 ^ k ≤ m) : 2 ^ k ≤ nearest m := by
  have hm' : 2 ^ 52 ≤ m := (Nat.pow_le_pow_right (by decide) hk).trans hm
  have hlog : k ≤ m.log2 := (Nat.le_log2 (by omega)).2 hm
  calc 2 ^ k ≤ 2 ^ (52 + (m.log2 - 52)) := Nat.pow_le_pow_right (by decide) (by omega)
    _ = 2 ^ 52 * unit m := Nat.pow_add 2 _ _
    _ ≤ nearest m :=
      Nat.mul_le_mul_right _ ((two_pow_le_div_unit hm').trans (le_roundHalfEven _ _))

/-! ## Whole numbers -/

theorem roundHalfUp_one (n : Nat) : roundHalfUp n 1 = n := by
  simp only [roundHalfUp]
  omega

theorem roundToNat_finite (limit n e : Nat) :
    (finite false n e).roundToNat limit = min limit (n * 2 ^ e) := by
  simp [roundToNat, ratio, scaled, roundHalfUp_one, twoTo]

theorem roundToNat_bounded {limit m e : Nat} (h : e ≤ 900 ∨ limit ≤ m * 2 ^ e) :
    (bounded false m e).roundToNat limit = min limit (m * 2 ^ e) := by
  rw [bounded]
  split_ifs with hmax
  · have hle : limit ≤ m * 2 ^ e := h.resolve_left fun hlt => by
      simp only [maxExponent] at hmax
      omega
    exact (min_eq_left hle).symm
  · exact roundToNat_finite limit m e

theorem roundToNat_ofUnits {limit m e : Nat} (h : e < 900 ∨ limit ≤ m * 2 ^ e) :
    (ofUnits false m e).roundToNat limit = min limit (m * 2 ^ e) := by
  rw [ofUnits]
  split_ifs with hcarry
  · have hdouble : leastNormal * 2 ^ (e + 1) = m * 2 ^ e := by
      rw [hcarry, Nat.pow_succ, ← Nat.mul_assoc, Nat.mul_right_comm, Nat.mul_comm 2 leastNormal]
    rw [← hdouble, ← Int.natCast_succ]
    exact roundToNat_bounded (h.imp id fun hle => by rwa [hdouble])
  · exact roundToNat_bounded (h.imp_left Nat.le_of_lt)

theorem scaled_one (m e : Nat) : scaled m 1 (-(e : Int)) = (m, 2 ^ e) := by
  rw [scaled]
  split_ifs with h
  · have hzero : e = 0 := by omega
    simp [hzero, twoTo]
  · simp [twoTo]

theorem roundingExponent_one {m : Nat} (hm : 2 ^ 52 ≤ m) :
    roundingExponent m 1 = (m.log2 - 52 : Nat) := by
  have hlog : 52 ≤ m.log2 := (Nat.le_log2 (by omega)).2 hm
  have hguess : (m.log2 : Int) - Nat.log2 1 - 52 = (m.log2 - 52 : Nat) := by
    have : Nat.log2 1 = 0 := by decide
    omega
  have hfull : unit m * leastNormal ≤ m := by
    have hdiv := two_pow_le_div_unit hm
    rw [Nat.le_div_iff_mul_le (unit_pos m)] at hdiv
    rwa [Nat.mul_comm]
  simp only [roundingExponent, hguess, scaled_one]
  rw [← unit, if_neg (Nat.not_lt.2 hfull)]
  exact max_eq_right (by simp only [minExponent]; omega)

/-- A large whole number gives the nearest multiple of its unit, or the limit. -/
theorem roundToNat_ofRatio_one {limit m : Nat} (hm : 2 ^ 52 ≤ m) (hlimit : limit ≤ 2 ^ 64) :
    (ofRatio false m 1).roundToNat limit = min limit (nearest m) := by
  have hne : m ≠ 0 := by omega
  have hratio : ofRatio false m 1 = ofUnits false (roundHalfEven m (unit m)) (m.log2 - 52 : Nat) := by
    rw [ofRatio, if_neg (by omega), roundingExponent_one hm]
    simp only [scaled_one, unit]
  rw [hratio]
  refine roundToNat_ofUnits ?_
  -- Where the exponent may be out of range, the number is far beyond the limit.
  by_cases hsmall : m.log2 - 52 < 900
  · exact .inl hsmall
  · have hlarge : 2 ^ 64 ≤ m :=
      (Nat.pow_le_pow_right (by decide) (by omega)).trans (Nat.log2_self_le hne)
    exact .inr (hlimit.trans (two_pow_le_nearest (by decide) hlarge))

/-! ## Whole decimals -/

theorem roundToNat_ofUnits_true (limit m : Nat) (e : Int) :
    (ofUnits true m e).roundToNat limit = 0 := by
  rw [ofUnits, bounded, bounded]
  split_ifs <;> rfl

theorem roundToNat_ofRatio_true (limit num den : Nat) :
    (ofRatio true num den).roundToNat limit = 0 := by
  rw [ofRatio]
  split_ifs
  · rfl
  · exact roundToNat_ofUnits_true _ _ _

/-- A negative number gives 0. -/
theorem roundToNat_ofDecimal_true (limit m : Nat) (e : Int) :
    (ofDecimal true m e).roundToNat limit = 0 := by
  simp only [ofDecimal]
  split_ifs
  · rfl
  · rfl
  · exact roundToNat_ofRatio_true _ _ _
  · exact roundToNat_ofRatio_true _ _ _

/-- A large whole number gives the nearest multiple of its unit, or the limit. -/
theorem roundToNat_ofDecimal_false {limit m : Nat} (hm : 2 ^ 52 ≤ m) (hlimit : limit ≤ 2 ^ 64) :
    (ofDecimal false m 0).roundToNat limit = min limit (nearest m) := by
  simp only [ofDecimal]
  split_ifs with hzero hsize
  · omega
  · have hlarge : 2 ^ 64 ≤ m := by
      have hlength : ¬ m < 10 ^ 20 := fun hlt => by
        have := (Nat.length_toDigits_le_iff (by decide) (by decide)).2 hlt
        simp only [digits] at hsize
        omega
      omega
    exact (min_eq_left (hlimit.trans (two_pow_le_nearest (by decide) hlarge))).symm
  · have hone : m * tenTo (0 : Int).toNat = m := Nat.mul_one m
    rw [hone]
    exact roundToNat_ofRatio_one hm hlimit
  · omega

end Agenda.Binary64
