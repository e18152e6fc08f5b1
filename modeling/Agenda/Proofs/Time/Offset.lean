import Agenda.Proofs.Time.Text

/-!
# Instants in any offset

The same instant has as many texts as there are offsets: the date and time of day are those of the
offset, so they may lie in another month or year, and the fraction may be spelled with more digits than
it needs. All of them are read as the instant.

* `LocalText`: the texts of an instant in the local times of all offsets.
* `OffsetText.read`: an offset of less than a day is read back.
* `ofText_local`: an instant is read from any of its texts.
-/
namespace Agenda

open Decimal Text

namespace Decimal

theorem ofDigitChars_lt {ds : List Char} (n : Nat) (hd : ∀ c ∈ ds, c.isDigit) :
    Nat.ofDigitChars 10 ds n < (n + 1) * 10 ^ ds.length := by
  induction ds generalizing n with
  | nil => simp
  | cons c ds ih =>
    obtain ⟨hc, hds⟩ := List.forall_mem_cons.1 hd
    have hvalue : digitValue c < 10 := by
      have h48 : 48 ≤ c.toNat ∧ c.toNat ≤ 57 := Char.isDigit_iff_toNat.1 hc
      have hzero : '0'.toNat = 48 := rfl
      rw [digitValue]
      omega
    have hstep : (10 * n + digitValue c + 1) * 10 ^ ds.length ≤
        (10 * n + 10) * 10 ^ ds.length := Nat.mul_le_mul_right _ (by omega)
    have hten : (n + 1) * 10 = 10 * n + 10 := by omega
    have hpow : (n + 1) * 10 ^ (ds.length + 1) = (10 * n + 10) * 10 ^ ds.length := by
      rw [Nat.pow_succ, Nat.mul_comm (10 ^ ds.length), ← Nat.mul_assoc, hten]
    rw [ofDigitChars_cons, List.length_cons, hpow]
    exact Nat.lt_of_lt_of_le (ih _ hds) hstep

theorem ofDigits_lt {ds : List Char} (hd : ∀ c ∈ ds, c.isDigit) :
    ofDigits ds < 10 ^ ds.length := by
  rw [ofDigits_eq]
  have h := ofDigitChars_lt 0 hd
  rwa [Nat.zero_add, Nat.one_mul] at h

end Decimal

namespace Instant

/-! ## Texts -/

/-- The text is one to nine digits after a point that spell the nanoseconds, or nothing if there are
none. -/
inductive FractionText : Nat → List Char → Prop
  | none : FractionText 0 []
  | digits {n : Nat} (ds : List Char) (hd : ∀ c ∈ ds, c.isDigit) (hne : ds ≠ []) (hl : ds.length ≤ 9)
      (hn : n = ofDigits ds * tenTo (9 - ds.length)) : FractionText n ('.' :: ds)

/-- So many minutes as hours and minutes. -/
def hoursMinutes (n : Nat) : List Char := padded 2 (n / 60) ++ ':' :: padded 2 (n % 60)

/-- The text is an offset of so many minutes. No offset has either sign. -/
inductive OffsetText : Int → List Char → Prop
  | ahead (n : Nat) : OffsetText n ('+' :: hoursMinutes n)
  | behind (n : Nat) : OffsetText (-n) ('-' :: hoursMinutes n)

/-- The text is one of the instant in the local time of an offset of less than a day: what the clock
shows there, to the nanosecond, and the offset. -/
inductive LocalText (t : Instant) : List Char → Prop
  | intro (clock : Instant) (o : Int) (fraction offset : List Char) (ho : o.natAbs < 24 * 60)
      (hseconds : clock.seconds = t.seconds + o * 60) (hnanos : clock.nanos = t.nanos)
      (hfraction : FractionText clock.reading.nanos fraction) (hoffset : OffsetText o offset) :
      LocalText t (clock.reading.secondsText ++ (fraction ++ offset))

/-! ## Reading -/

variable {n : Nat} {o : Int} {cs rest : List Char} {t clock : Instant}

theorem readTwo_padded {isFirst : Char → Bool} (hn : n < 100)
    (h : isFirst (n / 10).digitChar = true) (rest : List Char) :
    readTwo isFirst (padded 2 n ++ rest) = .ok (n, rest) := by
  have hdigits : ∀ n < 100, padded 2 n = [(n / 10).digitChar, (n % 10).digitChar] ∧
      (n % 10).digitChar.isDigit ∧
      10 * digitValue (n / 10).digitChar + digitValue (n % 10).digitChar = n := by decide
  obtain ⟨hpadded, hlast, hvalue⟩ := hdigits n hn
  rw [hpadded, List.cons_append, List.cons_append, List.nil_append, readTwo, h, hlast,
    Bool.and_self, if_pos rfl, hvalue]

theorem readHoursMinutes_hoursMinutes (hn : n < 24 * 60) :
    readHoursMinutes (hoursMinutes n) = .ok (n, []) := by
  have hhours : ∀ h < 24, (h / 10).digitChar.isDigit := by decide
  have hminutes : ∀ m < 60, (decide ('0' ≤ (m / 10).digitChar) && decide ((m / 10).digitChar ≤ '5')) =
      true := by decide
  have hcolon : (':' :: padded 2 (n % 60)).dropWhile (fun c => c = ':' || isBlank c) =
      padded 2 (n % 60) ++ [] := by
    have hnot : ∀ m < 60, (padded 2 m).dropWhile (fun c => c = ':' || isBlank c) = padded 2 m := by
      decide
    rw [List.append_nil, List.dropWhile_cons, if_pos (by decide)]
    exact hnot _ (Nat.mod_lt _ (by decide))
  rw [hoursMinutes, readHoursMinutes, readTwo_padded (by omega) (hhours (n / 60) (by omega))]
  simp only [bind, Except.bind, hcolon]
  rw [readTwo_padded (by omega) (hminutes (n % 60) (by omega))]
  simp only [pure, Except.pure]
  congr
  omega

theorem OffsetText.read (h : OffsetText o cs) (ho : o.natAbs < 24 * 60) :
    readOffset cs = .ok (o, []) := by
  cases h with
  | ahead n =>
    rw [readOffset, readHoursMinutes_hoursMinutes (by omega)]
    rfl
  | behind n =>
    rw [readOffset, readHoursMinutes_hoursMinutes (by omega)]
    rfl

/-- An offset begins with its sign. -/
theorem OffsetText.starts (h : OffsetText o cs) :
    DigitsEnd cs ∧ (∀ c ∈ cs.head?, c ≠ '.') ∧ trimStart cs = cs := by
  cases h <;> exact ⟨digitsEnd_cons rfl, by simp, trimStart_cons rfl⟩

theorem FractionText.read (h : FractionText n cs) (he : DigitsEnd rest)
    (hp : ∀ c ∈ rest.head?, c ≠ '.') : readFraction (cs ++ rest) = .ok (n, rest) := by
  cases h with
  | none => exact readFraction_none hp
  | digits ds hd hne hl hn =>
    subst hn
    have hmax : ofDigits ds ≤ maxNumber := by
      have hlt := ofDigits_lt hd
      have h9 : 10 ^ ds.length ≤ 10 ^ 9 := Nat.pow_le_pow_right (by decide) hl
      rw [maxNumber]
      omega
    exact readFraction_point hd hne hl he hmax

/-- **Offsets.** An instant is read from its text in the local time of any offset. -/
theorem ofText_local (h : LocalText t cs) : ofText cs = .ok t := by
  obtain ⟨clock, o, fraction, offset, ho, hseconds, hnanos, hfraction, hoffset⟩ := h
  obtain ⟨hdigits, hpoint, htrim⟩ := hoffset.starts
  have hsound : { clock.reading with offset := o }.Sound := { clock.reading_sound with }
  have hparts : readParts (clock.reading.secondsText ++ (fraction ++ offset)) =
      .ok { clock.reading with offset := o } := by
    have hread : readOffset (trimStart offset) = .ok (o, []) := by rw [htrim, hoffset.read ho]
    exact readParts_written hsound (hfraction.read hdigits hpoint) hread rfl
  rw [ofText, hparts]
  exact toInstant_local ho hseconds hnanos

end Instant

end Agenda
