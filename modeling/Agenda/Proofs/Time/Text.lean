import Agenda.Time.Text
import Agenda.Proofs.Time.Instant

/-!
# Instants are read back

What an instant is written as is read as that instant. Each part is read back on its own, whatever
follows, because what parts have between them is no digit; then the parts make the instant again.

* `readParts_written`: the parts of a date and time of day with an offset are read back.
* `ofText_toText`: an instant is read back from its text.
-/
namespace Agenda.Instant

open Decimal Text

/-! ## Digits -/

variable {ds rest : List Char}

theorem readDigits_of_end {limit : Nat} (n : Nat) (h : limit = 0 ∨ DigitsEnd rest) :
    readDigits limit n rest = .ok (n, rest) := by
  cases rest with
  | nil => rw [readDigits]
  | cons c cs =>
    cases limit with
    | zero => rw [readDigits]
    | succ limit =>
      have hc : c.isDigit = false := (h.resolve_left (by omega)) c rfl
      rw [readDigits, hc]
      rfl

theorem readDigits_append {limit n : Nat} (hd : ∀ c ∈ ds, c.isDigit) (hl : ds.length ≤ limit)
    (he : ds.length = limit ∨ DigitsEnd rest) (hv : Nat.ofDigitChars 10 ds n ≤ maxNumber) :
    readDigits limit n (ds ++ rest) = .ok (Nat.ofDigitChars 10 ds n, rest) := by
  induction ds generalizing limit n with
  | nil => exact readDigits_of_end n (he.imp_left Eq.symm)
  | cons c ds ih =>
    cases limit with
    | zero => cases hl
    | succ limit =>
      have hc : c.isDigit = true := hd c List.mem_cons_self
      rw [ofDigitChars_cons] at hv ⊢
      have hle : ¬ maxNumber < 10 * n + digitValue c :=
        Nat.not_lt_of_le (Nat.le_trans (le_ofDigitChars _ ds) hv)
      rw [List.cons_append, readDigits, if_pos hc]
      simp only [if_neg hle]
      apply ih
      · exact fun x hx => hd x (List.mem_cons_of_mem c hx)
      · exact Nat.le_of_succ_le_succ hl
      · exact he.imp_left Nat.succ.inj
      · exact hv

/-- Digits are read back, as many as there may be or up to something else. -/
theorem readNumber_append {limit : Nat} (hd : ∀ c ∈ ds, c.isDigit) (hne : ds ≠ [])
    (hl : ds.length ≤ limit) (he : ds.length = limit ∨ DigitsEnd rest)
    (hv : ofDigits ds ≤ maxNumber) : readNumber limit (ds ++ rest) = .ok (ofDigits ds, rest) := by
  cases ds with
  | nil => exact absurd rfl hne
  | cons c ds =>
    have hc : c.isDigit = true := hd c List.mem_cons_self
    rw [List.length_cons] at hl he
    rw [ofDigits_eq, ofDigitChars_cons, Nat.mul_zero, Nat.zero_add] at hv ⊢
    rw [List.cons_append, readNumber, if_pos hc]
    apply readDigits_append
    · exact fun x hx => hd x (List.mem_cons_of_mem c hx)
    · omega
    · exact he.imp_left (by omega)
    · exact hv

theorem isDigit_of_append_eq {c : Char} {cs : List Char} (hd : ∀ c ∈ ds, c.isDigit) (hne : ds ≠ [])
    (h : ds ++ rest = c :: cs) : c.isDigit := by
  cases ds with
  | nil => exact absurd rfl hne
  | cons d ds =>
    obtain ⟨rfl, -⟩ := List.cons.inj h
    exact hd d List.mem_cons_self

/-! ## Blanks -/

theorem trimStart_cons {c : Char} (h : isBlank c = false) : trimStart (c :: rest) = c :: rest := by
  rw [trimStart, List.dropWhile_cons, h]
  rfl

/-- Digits have no blanks before them. -/
theorem trimStart_digits (hd : ∀ c ∈ ds, c.isDigit) (hne : ds ≠ []) :
    trimStart (ds ++ rest) = ds ++ rest := by
  cases ds with
  | nil => exact absurd rfl hne
  | cons c ds => exact trimStart_cons (not_blank_of_isDigit (hd c List.mem_cons_self))

theorem readSeparator_cons {c : Char} (h : isBlank c = false) :
    readSeparator c (c :: rest) = .ok rest := by
  rw [readSeparator, trimStart_cons h]
  exact if_pos rfl

/-! ## The parts of a text -/

theorem readNumber_padded {limit width n : Nat} (hn : n ≤ maxNumber)
    (hl : (padded width n).length ≤ limit)
    (he : (padded width n).length = limit ∨ DigitsEnd rest) :
    readNumber limit (padded width n ++ rest) = .ok (n, rest) := by
  rw [readNumber_append (fun _ => isDigit_of_mem_padded) (padded_ne_nil width n) hl he,
    ofDigits_padded]
  rw [ofDigits_padded]
  exact hn

theorem readField_padded {low high n : Nat} (h₁ : low ≤ n) (h₂ : n ≤ high) (h : n < 100) :
    readField low high (padded 2 n ++ rest) = .ok (n, rest) := by
  have hl : (padded 2 n).length = 2 := length_padded (by decide) h
  have hn : readNumber 2 (padded 2 n ++ rest) = .ok (n, rest) := by
    refine readNumber_padded ?_ (Nat.le_of_eq hl) (.inl hl)
    rw [maxNumber]
    omega
  rw [readField, trimStart_digits (fun _ => isDigit_of_mem_padded) (padded_ne_nil 2 n), hn]
  exact if_pos ⟨h₁, h₂⟩

theorem readYear_minus {n : Nat} {cs : List Char}
    (h : readNumber cs.length cs = .ok (n, rest)) (hn : n ≤ 2147483648) :
    readYear ('-' :: cs) = .ok (-n, rest) := by
  rw [readYear, trimStart_cons rfl]
  simp only [h]
  exact if_pos hn

theorem readYear_plus {n : Nat} {cs : List Char}
    (h : readNumber cs.length cs = .ok (n, rest)) (hn : n ≤ 2147483647) :
    readYear ('+' :: cs) = .ok (n, rest) := by
  rw [readYear, trimStart_cons rfl]
  simp only [h]
  exact if_pos hn

theorem readYear_digits {n : Nat} (h : n < 10000) :
    readYear (padded 4 n ++ rest) = .ok (n, rest) := by
  have hl : (padded 4 n).length = 4 := length_padded (by decide) h
  have hn : readNumber 4 (padded 4 n ++ rest) = .ok (n, rest) := by
    refine readNumber_padded ?_ (Nat.le_of_eq hl) (.inl hl)
    rw [maxNumber]
    omega
  have hd : ∀ c ∈ padded 4 n, c.isDigit := fun _ => isDigit_of_mem_padded
  have hne : padded 4 n ≠ [] := padded_ne_nil 4 n
  rw [readYear, trimStart_digits hd hne]
  split
  · rename_i heq
    exact absurd (isDigit_of_append_eq hd hne heq) (by decide)
  · rename_i heq
    exact absurd (isDigit_of_append_eq hd hne heq) (by decide)
  · rw [hn]
    rfl

/-- A year is read back if no digit follows it. -/
theorem readYear_yearText {y : Int} (hy : y.natAbs ≤ 2147483647) (he : DigitsEnd rest) :
    readYear (yearText y ++ rest) = .ok (y, rest) := by
  have hmax : y.natAbs ≤ maxNumber := by
    rw [maxNumber]
    omega
  have hsigned : readNumber (padded 4 y.natAbs ++ rest).length (padded 4 y.natAbs ++ rest) =
      .ok (y.natAbs, rest) :=
    readNumber_padded hmax (by simp) (.inr he)
  unfold yearText
  split
  · rw [List.cons_append, readYear_minus hsigned (by omega)]
    congr
    omega
  · split
    · rw [List.cons_append, readYear_plus hsigned hy]
      congr
      omega
    · rw [readYear_digits (by omega)]
      congr
      omega

/-- The digits of a fraction, at most nine, are read as nanoseconds. -/
theorem readFraction_point (hd : ∀ c ∈ ds, c.isDigit) (hne : ds ≠ []) (hl : ds.length ≤ 9)
    (he : DigitsEnd rest) (hv : ofDigits ds ≤ maxNumber) :
    readFraction ('.' :: (ds ++ rest)) = .ok (ofDigits ds * tenTo (9 - ds.length), rest) := by
  have hw : rest.dropWhile Char.isDigit = rest := by
    cases rest with
    | nil => rfl
    | cons c cs => rw [List.dropWhile_cons, he c rfl]; rfl
  have hlen : (ds ++ rest).length - rest.length = ds.length := by
    rw [List.length_append]
    omega
  simp only [readFraction, readNumber_append hd hne hl (.inr he) hv, bind, Except.bind, pure,
    Except.pure, hlen, hw]

/-- A fraction is read back from as many digits as it is written with. -/
theorem readFraction_padded {width n : Nat} (hw : 0 < width) (hw' : width ≤ 9) (hn : n < 10 ^ width)
    (he : DigitsEnd rest) :
    readFraction ('.' :: (padded width n ++ rest)) = .ok (n * tenTo (9 - width), rest) := by
  have hl : (padded width n).length = width := length_padded hw hn
  have hmax : n ≤ maxNumber := by
    have h9 : 10 ^ width ≤ 10 ^ 9 := Nat.pow_le_pow_right (by decide) hw'
    rw [maxNumber]
    omega
  rw [readFraction_point (fun _ => isDigit_of_mem_padded) (padded_ne_nil width n) (by omega) he,
    ofDigits_padded, hl]
  rw [ofDigits_padded]
  exact hmax

theorem readFraction_none (hp : ∀ c ∈ rest.head?, c ≠ '.') : readFraction rest = .ok (0, rest) := by
  unfold readFraction
  split
  · exact absurd rfl (hp '.' rfl)
  · rfl

theorem readFraction_fractionText {nanos : Nat} (hn : nanos < nanosPerSecond) (he : DigitsEnd rest)
    (hp : ∀ c ∈ rest.head?, c ≠ '.') :
    readFraction (fractionText nanos ++ rest) = .ok (nanos, rest) := by
  simp only [nanosPerSecond] at hn
  unfold fractionText
  split
  · rename_i h0
    rw [h0]
    exact readFraction_none hp
  · split
    · have hv : nanos / 1000000 * tenTo (9 - 3) = nanos := by
        rw [show tenTo (9 - 3) = 1000000 from rfl]
        omega
      rw [List.cons_append, readFraction_padded (by decide) (by decide) (by omega) he, hv]
    · split
      · have hv : nanos / 1000 * tenTo (9 - 6) = nanos := by
          rw [show tenTo (9 - 6) = 1000 from rfl]
          omega
        rw [List.cons_append, readFraction_padded (by decide) (by decide) (by omega) he, hv]
      · have hv : nanos * tenTo (9 - 9) = nanos := Nat.mul_one nanos
        rw [List.cons_append, readFraction_padded (by decide) (by decide) (by omega) he, hv]

/-! ## All parts -/

/-- The parts of a date and time of day, of which each lies in its own range. -/
structure Reading.Sound (r : Reading) : Prop where
  year : r.year.natAbs ≤ 2147483647
  month : 1 ≤ r.month ∧ r.month ≤ 12
  day : 1 ≤ r.day ∧ r.day ≤ 31
  hour : r.hour ≤ 23
  minute : r.minute ≤ 59
  second : r.second ≤ 60

/-- The date and time of day, up to the second. -/
def Reading.secondsText (r : Reading) : List Char :=
  yearText r.year ++ ('-' :: padded 2 r.month) ++ ('-' :: padded 2 r.day) ++
    ('T' :: padded 2 r.hour) ++ (':' :: padded 2 r.minute) ++ (':' :: padded 2 r.second)

/-- The parts are read back. What follows the seconds is a fraction, an offset and blanks. -/
theorem readParts_written {r : Reading} {afterFraction afterOffset : List Char} (h : r.Sound)
    (hf : readFraction rest = .ok (r.nanos, afterFraction))
    (ho : readOffset (trimStart afterFraction) = .ok (r.offset, afterOffset))
    (hb : trimStart afterOffset = []) : readParts (r.secondsText ++ rest) = .ok r := by
  have hy (cs : List Char) : readYear (yearText r.year ++ '-' :: cs) = .ok (r.year, '-' :: cs) :=
    readYear_yearText h.year (digitsEnd_cons rfl)
  have hdiv (cs : List Char) : readDivider ('T' :: cs) = .ok cs := rfl
  have hdash (cs : List Char) : readSeparator '-' ('-' :: cs) = .ok cs := readSeparator_cons rfl
  have hcolon (cs : List Char) : readSeparator ':' (':' :: cs) = .ok cs := readSeparator_cons rfl
  obtain ⟨-, hmo, hd, hh, hmi, hs⟩ := h
  have hfield {low high n : Nat} (cs : List Char) (h₁ : low ≤ n) (h₂ : n ≤ high) (h : high < 100) :
      readField low high (padded 2 n ++ cs) = .ok (n, cs) :=
    readField_padded h₁ h₂ (by omega)
  simp only [readParts, Reading.secondsText, List.append_assoc, List.cons_append, hy, hdiv, hdash,
    hcolon, hfield _ hmo.1 hmo.2 (by decide), hfield _ hd.1 hd.2 (by decide),
    hfield _ (Nat.zero_le _) hh (by decide), hfield _ (Nat.zero_le _) hmi (by decide),
    hfield _ (Nat.zero_le _) hs (by decide), hf, ho, hb, bind, Except.bind]
  rfl

/-! ## Instants -/

variable (t : Instant)

/-- What is written of an instant. -/
def reading : Reading where
  year := t.date.year
  month := t.date.month
  day := t.date.day
  hour := t.hour
  minute := t.minute
  second := if nanosPerSecond ≤ t.nanos then t.second + 1 else t.second
  nanos := if nanosPerSecond ≤ t.nanos then t.nanos - nanosPerSecond else t.nanos
  offset := 0

theorem toText_eq :
    t.toText = t.reading.secondsText ++ (fractionText t.reading.nanos ++ ['Z']) := by
  rw [← List.append_assoc]
  rfl

theorem reading_nanos_lt : t.reading.nanos < nanosPerSecond := by
  have := t.valid.2.2.1
  simp only [reading]
  split <;> omega

theorem reading_sound : t.reading.Sound where
  year := by
    obtain ⟨h₁, h₂⟩ := t.days_bounds
    have := Date.natAbs_year_ofDays_le h₁ h₂
    simp only [reading, date]
    omega
  month := by
    obtain ⟨h₁, h₂, -, -⟩ := t.exists_date
    exact ⟨h₁, h₂⟩
  day := by
    obtain ⟨-, -, h₁, h₂⟩ := t.exists_date
    exact ⟨h₁, Nat.le_trans h₂ (Date.daysInMonth_le _ _)⟩
  hour := t.hour_le
  minute := t.minute_le
  second := by
    have := t.second_le
    simp only [reading]
    split <;> omega

/-- What a clock shows that is so many minutes ahead makes the instant. -/
theorem toInstant_local {t clock : Instant} {o : Int} (ho : o.natAbs < 24 * 60)
    (hseconds : clock.seconds = t.seconds + o * 60) (hnanos : clock.nanos = t.nanos) :
    { clock.reading with offset := o }.toInstant = .ok t := by
  obtain ⟨h₁, h₂⟩ := clock.days_bounds
  have hd : Date.of? clock.date.year clock.date.month clock.date.day = some clock.date :=
    Date.of?_ofDays h₁ h₂
  have hdays := clock.toDays_date
  have hclock := clock.seconds_eq
  have hday := clock.secondOfDay_eq
  have hvalid : of? t.seconds clock.nanos = some t := hnanos ▸ dif_pos t.valid
  have hle := clock.second_le
  simp only [Reading.toInstant, reading, hd, hdays, if_pos ho]
  by_cases hleap : nanosPerSecond ≤ clock.nanos
  · have h59 := clock.second_of_leap hleap
    have h60 : clock.second + 1 = 60 := by omega
    have hs : clock.days * secondsPerDay + ((clock.hour * 3600 + clock.minute * 60 : Nat) : Int) +
        ((59 : Nat) : Int) - o * 60 = t.seconds := by omega
    have hn : clock.nanos - nanosPerSecond + nanosPerSecond = clock.nanos := by omega
    simp only [if_pos hleap, h60, if_true, hs, hn, hvalid]
  · have h60 : ¬ clock.second = 60 := by omega
    have hs : clock.days * secondsPerDay + ((clock.hour * 3600 + clock.minute * 60 : Nat) : Int) +
        (clock.second : Int) - o * 60 = t.seconds := by omega
    simp only [if_neg hleap, h60, if_false, hs, hvalid]

/-- The parts make the instant again. -/
theorem toInstant_reading : t.reading.toInstant = .ok t :=
  toInstant_local (by decide) (by omega) rfl

/-- **Instants.** An instant is read back from its text. -/
theorem ofText_toText : ofText t.toText = .ok t := by
  have hf : readFraction (fractionText t.reading.nanos ++ ['Z']) = .ok (t.reading.nanos, ['Z']) :=
    readFraction_fractionText t.reading_nanos_lt (digitsEnd_cons rfl) (by simp)
  have hp : readParts t.toText = .ok t.reading := by
    rw [toText_eq]
    exact readParts_written t.reading_sound hf rfl rfl
  rw [ofText, hp]
  exact t.toInstant_reading

end Agenda.Instant
