import Agenda.Proofs.Cron.Next
import Mathlib.Data.List.DropRight

/-!
# Fields are read as they are written

A field without pads is read as the list of terms that its text is made of, and it is read the same
wherever it stands: what follows it, after a blank, cannot be taken for a part of it. So fields that are
accepted one by one are accepted in a row.

* `SpanText`, `TermText`, `ListText`: the texts of spans, of terms and of lists of terms.
* `readTerms_written`, `readTerms_sound`: a list of terms is read from its text, and from no other.
* `FieldText`: a field with the set that it denotes; `fieldText_of_readField`: every field that is
  accepted on its own is one.
* `longhand?_of_fields`: fields in a row.
-/
namespace Agenda.Cron

open Decimal

/-! ## Texts -/

/-- The text is a number that may be written. -/
structure IsNumber (cs : List Char) (n : Nat) : Prop where
  ne_nil : cs ≠ []
  digits : ∀ c ∈ cs, c.isDigit
  value : ofDigits cs = n
  fits : n ≤ maxNumber

structure IsName (cs : List Char) : Prop where
  ne_nil : cs ≠ []
  letters : ∀ c ∈ cs, c.isAlpha

inductive SpanText (mayBeOpen : Bool) : Span → List Char → Prop where
  | question (h : mayBeOpen) : SpanText mayBeOpen .all ['?']
  | star : SpanText mayBeOpen .all ['*']
  | range {a b : List Char} {m n : Nat} (ha : IsNumber a m) (hb : IsNumber b n) :
    SpanText mayBeOpen (.range m n) (a ++ '-' :: b)
  | point {a : List Char} {n : Nat} (ha : IsNumber a n) : SpanText mayBeOpen (.point n) a
  | names {a b : List Char} (ha : IsName a) (hb : IsName b) :
    SpanText mayBeOpen (.names a b) (a ++ '-' :: b)

inductive TermText (mayBeOpen : Bool) : Term → List Char → Prop where
  | every {s : Span} {w k : List Char} {n : Nat} (hs : SpanText mayBeOpen s w)
    (hk : IsNumber k n) : TermText mayBeOpen (.every s n) (w ++ '/' :: k)
  | span {s : Span} {w : List Char} (hs : SpanText mayBeOpen s w) : TermText mayBeOpen (.span s) w
  | name {w : List Char} (hw : IsName w) : TermText mayBeOpen (.name w) w

/-- Terms with commas between them. -/
inductive ListText (mayBeOpen : Bool) : List Term → List Char → Prop where
  | one {t : Term} {w : List Char} (ht : TermText mayBeOpen t w) : ListText mayBeOpen [t] w
  | more {t : Term} {ts : List Term} {w v : List Char} (ht : TermText mayBeOpen t w)
    (hts : ListText mayBeOpen ts v) : ListText mayBeOpen (t :: ts) (w ++ ',' :: v)

/-! ## What follows a text -/

/-- The text does not go on with the run of digits or letters before it. -/
def RunEnds (cs : List Char) : Prop := ∀ c ∈ cs.head?, c.isDigit = false ∧ c.isAlpha = false

/-- The text does not go on with the mark, after pads. -/
def NoMark (mark : Char) (cs : List Char) : Prop := ∀ c ∈ (cs.dropWhile isPad).head?, c ≠ mark

/-- What follows a term is no part of it. -/
structure TermEnds (cs : List Char) : Prop where
  run : RunEnds cs
  dash : NoMark '-' cs
  slash : NoMark '/' cs

/-- What follows a list of terms is no part of it. -/
structure ListEnds (cs : List Char) : Prop extends TermEnds cs where
  comma : NoMark ',' cs

/-- The text without the pads before it, or with them. -/
def Left (cs rest : List Char) : Prop := rest = cs ∨ rest = cs.dropWhile isPad

variable {cs rest w v : List Char} {c mark : Char} {mb : Bool}

theorem dropWhile_pad_cons (h : isPad c = false) (cs : List Char) :
    (c :: cs).dropWhile isPad = c :: cs := by
  rw [List.dropWhile_cons, h]
  rfl

theorem runEnds_cons (h : c.isDigit = false ∧ c.isAlpha = false) : RunEnds (c :: cs) := by
  intro d hd
  cases hd
  exact h

theorem noMark_cons (hp : isPad c = false) (h : c ≠ mark) : NoMark mark (c :: cs) := by
  intro d hd
  rw [dropWhile_pad_cons hp] at hd
  cases hd
  exact h

theorem termEnds_comma : TermEnds (',' :: cs) where
  run := runEnds_cons (by decide)
  dash := noMark_cons rfl (by decide)
  slash := noMark_cons rfl (by decide)

theorem listEnds_nil : ListEnds [] where
  run := by intro c hc; cases hc
  dash := by intro c hc; cases hc
  slash := by intro c hc; cases hc
  comma := by intro c hc; cases hc

theorem left_cons (hp : isPad c = false) (h : Left (c :: cs) rest) : rest = c :: cs := by
  rcases h with h | h
  · exact h
  · rw [h, dropWhile_pad_cons hp]

theorem left_dropWhile (h : Left cs rest) : rest.dropWhile isPad = cs.dropWhile isPad := by
  rcases h with rfl | rfl
  · rfl
  · exact List.dropWhile_idempotent isPad cs

theorem readMark_of_head (h : ∀ c ∈ cs.head?, c ≠ mark) : readMark mark cs = none := by
  cases cs with
  | nil => rfl
  | cons c cs => exact if_neg (h c rfl)

theorem readMark_of_left (hp : isPad mark = false) (h : NoMark mark cs) (hl : Left cs rest) :
    readMark mark rest = none := by
  apply readMark_of_head
  rcases hl with rfl | rfl
  · cases rest with
    | nil => intro c hc; cases hc
    | cons d rest =>
      intro c hc
      cases hc
      cases hd : isPad d with
      | true => rintro rfl; rw [hp] at hd; cases hd
      | false => exact h d (by rw [dropWhile_pad_cons hd]; rfl)
  · exact h

/-! ## Characters -/

theorem run_ends_of_isPad (h : isPad c) : c.isDigit = false ∧ c.isAlpha = false := by
  simp only [isPad, Bool.or_eq_true, decide_eq_true_eq] at h
  rcases h with ((rfl | rfl) | rfl) | rfl <;> decide

theorem not_pad_of_isDigit (h : c.isDigit) : isPad c = false := by
  by_contra hp
  rw [(run_ends_of_isPad (Bool.of_not_eq_false hp)).1] at h
  cases h

theorem not_pad_of_isAlpha (h : c.isAlpha) : isPad c = false := by
  by_contra hp
  rw [(run_ends_of_isPad (Bool.of_not_eq_false hp)).2] at h
  cases h

theorem not_digit_of_isAlpha (h : c.isAlpha) : c.isDigit = false := by
  have hletter : 65 ≤ c.toNat := by
    rcases Bool.or_eq_true_iff.1 h with hupper | hlower
    · exact UInt32.le_iff_toNat_le.1 (of_decide_eq_true hupper).1
    · have ha : 97 ≤ c.toNat :=
        UInt32.le_iff_toNat_le.1 (of_decide_eq_true (Bool.and_eq_true_iff.1 hlower).1)
      omega
  by_contra hd
  have hdigit : c.toNat ≤ 57 := (Char.isDigit_iff_toNat.1 (Bool.of_not_eq_false hd)).2
  omega

/-- The character begins a term. -/
def Starts (c : Char) : Prop := c = '?' ∨ c = '*' ∨ c.isDigit ∨ c.isAlpha

theorem not_pad_of_starts (h : Starts c) : isPad c = false := by
  rcases h with rfl | rfl | h | h
  · rfl
  · rfl
  · exact not_pad_of_isDigit h
  · exact not_pad_of_isAlpha h

theorem IsNumber.exists_cons {n : Nat} (h : IsNumber cs n) : ∃ c r, cs = c :: r ∧ c.isDigit := by
  obtain ⟨c, r, rfl⟩ := List.exists_cons_of_ne_nil h.ne_nil
  exact ⟨c, r, rfl, h.digits c List.mem_cons_self⟩

theorem IsName.exists_cons (h : IsName cs) : ∃ c r, cs = c :: r ∧ c.isAlpha := by
  obtain ⟨c, r, rfl⟩ := List.exists_cons_of_ne_nil h.ne_nil
  exact ⟨c, r, rfl, h.letters c List.mem_cons_self⟩

/-- The text begins like a term. -/
def Begins (w : List Char) : Prop := ∃ c r, w = c :: r ∧ Starts c

theorem SpanText.begins {s : Span} (h : SpanText mb s w) : Begins w := by
  cases h with
  | question => exact ⟨_, _, rfl, .inl rfl⟩
  | star => exact ⟨_, _, rfl, .inr (.inl rfl)⟩
  | range ha hb =>
    obtain ⟨c, r, rfl, hc⟩ := ha.exists_cons
    exact ⟨c, _, rfl, .inr (.inr (.inl hc))⟩
  | point ha =>
    obtain ⟨c, r, rfl, hc⟩ := ha.exists_cons
    exact ⟨c, _, rfl, .inr (.inr (.inl hc))⟩
  | names ha hb =>
    obtain ⟨c, r, rfl, hc⟩ := ha.exists_cons
    exact ⟨c, _, rfl, .inr (.inr (.inr hc))⟩

theorem TermText.begins {t : Term} (h : TermText mb t w) : Begins w := by
  cases h with
  | every hs hk =>
    obtain ⟨c, r, rfl, hc⟩ := hs.begins
    exact ⟨c, _, rfl, hc⟩
  | span hs => exact hs.begins
  | name hw =>
    obtain ⟨c, r, rfl, hc⟩ := hw.exists_cons
    exact ⟨c, _, rfl, .inr (.inr (.inr hc))⟩

theorem ListText.begins {ts : List Term} (h : ListText mb ts w) : Begins w := by
  cases h with
  | one ht => exact ht.begins
  | more ht hts =>
    obtain ⟨c, r, rfl, hc⟩ := ht.begins
    exact ⟨c, _, rfl, hc⟩

/-! ## Written texts are read -/

theorem readRun_written {isPart : Char → Bool} (hne : w ≠ []) (hw : ∀ c ∈ w, isPart c)
    (hpad : ∀ c ∈ w, isPad c = false) (hend : ∀ c ∈ cs.head?, isPart c = false) :
    readRun isPart (w ++ cs) = some (w, cs.dropWhile isPad) := by
  obtain ⟨c, r, rfl⟩ := List.exists_cons_of_ne_nil hne
  have hstart : (c :: r ++ cs).dropWhile isPad = c :: r ++ cs :=
    dropWhile_pad_cons (hpad c List.mem_cons_self) _
  have htake : (c :: r ++ cs).takeWhile isPart = c :: r := by
    rw [List.takeWhile_append_of_pos hw]
    cases cs with
    | nil => rw [List.takeWhile_nil, List.append_nil]
    | cons d cs => rw [List.takeWhile_cons, hend d rfl]; simp
  have hdrop : (c :: r ++ cs).dropWhile isPart = cs := by
    rw [List.dropWhile_append_of_pos hw]
    cases cs with
    | nil => rfl
    | cons d cs => rw [List.dropWhile_cons, hend d rfl]; rfl
  simp only [readRun, hstart, htake, hdrop]

theorem readNumber_written {n : Nat} (hw : IsNumber w n) (hend : RunEnds cs) :
    readNumber (w ++ cs) = some (n, cs.dropWhile isPad) := by
  have hrun := readRun_written hw.ne_nil hw.digits
    (fun c hc => not_pad_of_isDigit (hw.digits c hc)) (fun c hc => (hend c hc).1)
  simp [readNumber, hrun, hw.value, hw.fits]

theorem readName_written (hw : IsName w) (hend : RunEnds cs) :
    readName (w ++ cs) = some (w, cs.dropWhile isPad) :=
  readRun_written hw.ne_nil hw.letters (fun c hc => not_pad_of_isAlpha (hw.letters c hc))
    (fun c hc => (hend c hc).2)

theorem readNumber_of_alpha (h : c.isAlpha) : readNumber (c :: cs) = none := by
  simp [readNumber, readRun, dropWhile_pad_cons (not_pad_of_isAlpha h), not_digit_of_isAlpha h]

/-- Digits and letters begin a range, a value or names. -/
theorem readSpan_of_run (h : c.isDigit ∨ c.isAlpha) : readSpan mb (c :: cs) =
    ((readRange (c :: cs)).or (readPoint (c :: cs))).or (readNames (c :: cs)) := by
  have hq : c ≠ '?' := by rintro rfl; exact absurd h (by decide)
  have hs : c ≠ '*' := by rintro rfl; exact absurd h (by decide)
  cases mb <;> simp [readSpan, readAll, readMark, hq, hs]

theorem runEnds_dash : RunEnds ('-' :: cs) := runEnds_cons (by decide)

theorem runEnds_slash : RunEnds ('/' :: cs) := runEnds_cons (by decide)

theorem readSpan_written {s : Span} (hw : SpanText mb s w) (hend : RunEnds cs)
    (hdash : NoMark '-' cs) : ∃ rest, Left cs rest ∧ readSpan mb (w ++ cs) = some (s, rest) := by
  cases hw with
  | question h =>
    refine ⟨cs, .inl rfl, ?_⟩
    simp [readSpan, readAll, readMark, h]
  | star =>
    refine ⟨cs, .inl rfl, ?_⟩
    cases mb <;> simp [readSpan, readAll, readMark]
  | @range a b m n ha hb =>
    refine ⟨cs.dropWhile isPad, .inr rfl, ?_⟩
    have hrange : readRange (a ++ '-' :: (b ++ cs)) = some (.range m n, cs.dropWhile isPad) := by
      simp [readRange, readNumber_written ha runEnds_dash, dropWhile_pad_cons (c := '-') rfl,
        readMark, readNumber_written hb hend]
    obtain ⟨c, r, rfl, hc⟩ := ha.exists_cons
    simp only [List.cons_append, List.append_assoc] at hrange ⊢
    rw [readSpan_of_run (.inl hc), hrange, Option.some_or, Option.some_or]
  | @point a n ha =>
    refine ⟨cs.dropWhile isPad, .inr rfl, ?_⟩
    have hnumber := readNumber_written ha hend
    have hmark : readMark '-' (cs.dropWhile isPad) = none := readMark_of_left rfl hdash (.inr rfl)
    have hrange : readRange (w ++ cs) = none := by
      simp [readRange, hnumber, hmark]
    have hpoint : readPoint (w ++ cs) = some (.point n, cs.dropWhile isPad) := by
      simp [readPoint, hnumber]
    obtain ⟨c, r, rfl, hc⟩ := ha.exists_cons
    rw [List.cons_append] at hrange hpoint ⊢
    rw [readSpan_of_run (.inl hc), hrange, Option.none_or, hpoint, Option.some_or]
  | @names a b ha hb =>
    refine ⟨cs.dropWhile isPad, .inr rfl, ?_⟩
    have hnames : readNames (a ++ '-' :: (b ++ cs)) = some (.names a b, cs.dropWhile isPad) := by
      simp [readNames, readName_written ha runEnds_dash, dropWhile_pad_cons (c := '-') rfl,
        readMark, readName_written hb hend]
    obtain ⟨c, r, rfl, hc⟩ := ha.exists_cons
    simp only [List.cons_append, List.append_assoc] at hnames ⊢
    rw [readSpan_of_run (.inr hc), hnames]
    simp [readRange, readPoint, readNumber_of_alpha hc]

/-- A span is a term if no step is read after it. -/
theorem readTerm_of_span {s : Span} (hw : SpanText mb s w) (hend : RunEnds cs)
    (hdash : NoMark '-' cs)
    (hstep : ∀ rest, Left cs rest → (readMark '/' rest).bind readNumber = none) :
    ∃ rest, Left cs rest ∧ readTerm mb (w ++ cs) = some (.span s, rest) := by
  obtain ⟨rest, hl, hs⟩ := readSpan_written hw hend hdash
  have hevery : readEvery mb (w ++ cs) = none := by
    have h := hstep rest hl
    simp only [readEvery, hs, bind, Option.bind_some]
    rw [Option.bind_eq_none_iff] at h ⊢
    intro r hr
    rw [h r hr]
    rfl
  refine ⟨rest, hl, ?_⟩
  rw [readTerm, hevery, hs]
  rfl

theorem readTerm_written {t : Term} (hw : TermText mb t w) (hcs : TermEnds cs) :
    ∃ rest, Left cs rest ∧ readTerm mb (w ++ cs) = some (t, rest) := by
  cases hw with
  | @every s w k n hs hk =>
    have hread : readSpan mb (w ++ '/' :: (k ++ cs)) = some (s, '/' :: (k ++ cs)) := by
      obtain ⟨rest, hl, hread⟩ := readSpan_written hs runEnds_slash (noMark_cons rfl (by decide))
      rw [hread, left_cons rfl hl]
    refine ⟨cs.dropWhile isPad, .inr rfl, ?_⟩
    have hevery : readEvery mb (w ++ '/' :: (k ++ cs)) =
        some (.every s n, cs.dropWhile isPad) := by
      simp [readEvery, hread, readMark, readNumber_written hk hcs.run]
    rw [List.append_assoc, List.cons_append, readTerm, hevery]
    rfl
  | span hs =>
    refine readTerm_of_span hs hcs.run hcs.dash fun rest hl => ?_
    rw [readMark_of_left rfl hcs.slash hl]
    rfl
  | name hw =>
    have hname := readName_written hw hcs.run
    have hmark : readMark '-' (cs.dropWhile isPad) = none :=
      readMark_of_left rfl hcs.dash (.inr rfl)
    have hspan : readSpan mb (w ++ cs) = none := by
      have hnames : readNames (w ++ cs) = none := by
        simp [readNames, hname, hmark]
      obtain ⟨c, r, rfl, hc⟩ := hw.exists_cons
      rw [List.cons_append] at hnames ⊢
      rw [readSpan_of_run (.inr hc), hnames]
      simp [readRange, readPoint, readNumber_of_alpha hc]
    refine ⟨cs.dropWhile isPad, .inr rfl, ?_⟩
    simp [readTerm, readEvery, hspan, hname]

theorem readTerm_before_comma {t : Term} (hw : TermText mb t w) :
    readTerm mb (w ++ ',' :: cs) = some (t, ',' :: cs) := by
  obtain ⟨rest, hl, hread⟩ := readTerm_written hw termEnds_comma
  rw [hread, left_cons rfl hl]

/-! ## Lists -/

theorem readMoreTerms_of_left {rest : List Char} (h : ListEnds cs) (hl : Left cs rest)
    (limit : Nat) : readMoreTerms mb limit rest = ([], rest) := by
  cases limit with
  | zero => rfl
  | succ limit => rw [readMoreTerms, readMark_of_left rfl h.comma hl]; rfl

theorem readMoreTerms_written {ts : List Term} {limit : Nat} (hw : ListText mb ts w)
    (hcs : ListEnds cs) (hlimit : ts.length ≤ limit) :
    ∃ rest, Left cs rest ∧ readMoreTerms mb limit (',' :: (w ++ cs)) = (ts, rest) := by
  induction hw generalizing limit with
  | one ht =>
    obtain ⟨limit, rfl⟩ : ∃ l, limit = l + 1 := Nat.exists_eq_add_of_le' hlimit
    obtain ⟨rest, hl, hread⟩ := readTerm_written ht hcs.toTermEnds
    refine ⟨rest, hl, ?_⟩
    simp [readMoreTerms, readMark, hread, readMoreTerms_of_left hcs hl]
  | @more t ts w v ht hts ih =>
    obtain ⟨limit, rfl⟩ : ∃ l, limit = l + 1 := Nat.exists_eq_add_of_le' (by
      rw [List.length_cons] at hlimit
      omega)
    obtain ⟨rest, hl, hmore⟩ := ih (Nat.le_of_succ_le_succ hlimit)
    refine ⟨rest, hl, ?_⟩
    rw [List.append_assoc, List.cons_append]
    simp [readMoreTerms, readMark, readTerm_before_comma ht, hmore]

theorem ListText.length_le {ts : List Term} (h : ListText mb ts w) : ts.length ≤ w.length := by
  induction h with
  | one ht =>
    obtain ⟨c, r, rfl, -⟩ := ht.begins
    simp
  | more ht hts ih =>
    rw [List.length_cons, List.length_append, List.length_cons]
    omega

theorem readTerms_written {ts : List Term} (hw : ListText mb ts w) (hcs : ListEnds cs) :
    ∃ rest, Left cs rest ∧ readTerms mb (w ++ cs) = some (ts, rest) := by
  cases hw with
  | one ht =>
    obtain ⟨rest, hl, hread⟩ := readTerm_written ht hcs.toTermEnds
    refine ⟨rest, hl, ?_⟩
    simp [readTerms, hread, readMoreTerms_of_left hcs hl]
  | @more t ts w v ht hts =>
    have hlimit : ts.length ≤ (',' :: (v ++ cs)).length := by
      have := hts.length_le
      rw [List.length_cons, List.length_append]
      omega
    obtain ⟨rest, hl, hmore⟩ := readMoreTerms_written hts hcs hlimit
    refine ⟨rest, hl, ?_⟩
    rw [List.append_assoc, List.cons_append]
    simp only [readTerms, readTerm_before_comma ht, bind, Option.bind_some, hmore, pure]

/-! ## What is read was written -/

/-- There are no pads in the text. -/
def NoPads (cs : List Char) : Prop := ∀ c ∈ cs, isPad c = false

theorem NoPads.dropWhile (h : NoPads cs) : cs.dropWhile isPad = cs := by
  cases cs with
  | nil => rfl
  | cons c cs => exact dropWhile_pad_cons (h c List.mem_cons_self) cs

theorem NoPads.right (h : NoPads (w ++ cs)) : NoPads cs :=
  fun c hc => h c (List.mem_append_right w hc)

theorem NoPads.tail (h : NoPads (c :: cs)) : NoPads cs :=
  fun d hd => h d (List.mem_cons_of_mem c hd)

theorem readMark_sound (h : readMark mark cs = some rest) : cs = mark :: rest := by
  cases cs with
  | nil => cases h
  | cons c cs =>
    rw [readMark] at h
    split at h
    · cases h
      rename_i hc
      rw [hc]
    · cases h

theorem readRun_sound {isPart : Char → Bool} (h : readRun isPart cs = some (w, rest))
    (hcs : NoPads cs) : w ≠ [] ∧ (∀ c ∈ w, isPart c) ∧ cs = w ++ rest := by
  unfold readRun at h
  rw [hcs.dropWhile] at h
  dsimp only at h
  split at h
  · cases h
  · rename_i hne
    have happend := List.takeWhile_append_dropWhile (p := isPart) (l := cs)
    simp only [Option.some.injEq, Prod.mk.injEq] at h
    obtain ⟨rfl, hrest⟩ := h
    have hdrop : NoPads (cs.dropWhile isPart) := by
      rw [← happend] at hcs
      exact hcs.right
    rw [hdrop.dropWhile] at hrest
    subst hrest
    exact ⟨hne, fun c hc => List.mem_takeWhile_imp hc, happend.symm⟩

theorem readNumber_sound {n : Nat} (h : readNumber cs = some (n, rest)) (hcs : NoPads cs) :
    ∃ w, IsNumber w n ∧ cs = w ++ rest := by
  obtain ⟨⟨w, r⟩, hrun, hvalue⟩ := Option.bind_eq_some_iff.1 h
  obtain ⟨hne, hw, happend⟩ := readRun_sound hrun hcs
  dsimp only at hvalue
  split at hvalue
  · rename_i hfits
    cases hvalue
    exact ⟨w, ⟨hne, hw, rfl, hfits⟩, happend⟩
  · cases hvalue

theorem readName_sound (h : readName cs = some (w, rest)) (hcs : NoPads cs) :
    IsName w ∧ cs = w ++ rest := by
  obtain ⟨hne, hw, happend⟩ := readRun_sound h hcs
  exact ⟨⟨hne, hw⟩, happend⟩

theorem readRange_sound {s : Span} (h : readRange cs = some (s, rest)) (hcs : NoPads cs) :
    ∃ w, SpanText mb s w ∧ cs = w ++ rest := by
  obtain ⟨⟨m, r₁⟩, hm, h₁⟩ := Option.bind_eq_some_iff.1 h
  obtain ⟨r₂, hmark, h₂⟩ := Option.bind_eq_some_iff.1 h₁
  obtain ⟨⟨n, r₃⟩, hn, h₃⟩ := Option.bind_eq_some_iff.1 h₂
  cases h₃
  obtain ⟨a, ha, rfl⟩ := readNumber_sound hm hcs
  have hr₁ := readMark_sound hmark
  subst hr₁
  obtain ⟨b, hb, rfl⟩ := readNumber_sound hn hcs.right.tail
  exact ⟨a ++ '-' :: b, .range ha hb, by simp⟩

theorem readNames_sound {s : Span} (h : readNames cs = some (s, rest)) (hcs : NoPads cs) :
    ∃ w, SpanText mb s w ∧ cs = w ++ rest := by
  obtain ⟨⟨a, r₁⟩, ha, h₁⟩ := Option.bind_eq_some_iff.1 h
  obtain ⟨r₂, hmark, h₂⟩ := Option.bind_eq_some_iff.1 h₁
  obtain ⟨⟨b, r₃⟩, hb, h₃⟩ := Option.bind_eq_some_iff.1 h₂
  cases h₃
  obtain ⟨hfirst, rfl⟩ := readName_sound ha hcs
  have hr₁ := readMark_sound hmark
  subst hr₁
  obtain ⟨hlast, rfl⟩ := readName_sound hb hcs.right.tail
  exact ⟨a ++ '-' :: b, .names hfirst hlast, by simp⟩

theorem readAll_sound {s : Span} (h : readAll mark cs = some (s, rest)) :
    s = .all ∧ cs = mark :: rest := by
  obtain ⟨r, hmark, he⟩ := Option.bind_eq_some_iff.1 h
  cases he
  exact ⟨rfl, readMark_sound hmark⟩

theorem readSpan_sound {s : Span} (h : readSpan mb cs = some (s, rest)) (hcs : NoPads cs) :
    ∃ w, SpanText mb s w ∧ cs = w ++ rest := by
  simp only [readSpan, Option.or_eq_some_iff] at h
  rcases h with (((h | ⟨-, h⟩) | ⟨-, h⟩) | ⟨-, h⟩) | ⟨-, h⟩
  · split at h
    · rename_i hmb
      obtain ⟨rfl, rfl⟩ := readAll_sound h
      exact ⟨['?'], .question hmb, rfl⟩
    · cases h
  · obtain ⟨rfl, rfl⟩ := readAll_sound h
    exact ⟨['*'], .star, rfl⟩
  · exact readRange_sound h hcs
  · obtain ⟨⟨n, r⟩, hn, he⟩ := Option.bind_eq_some_iff.1 h
    cases he
    obtain ⟨a, ha, happend⟩ := readNumber_sound hn hcs
    exact ⟨a, .point ha, happend⟩
  · exact readNames_sound h hcs

theorem readTerm_sound {t : Term} (h : readTerm mb cs = some (t, rest)) (hcs : NoPads cs) :
    ∃ w, TermText mb t w ∧ cs = w ++ rest := by
  simp only [readTerm, Option.or_eq_some_iff, Option.map_eq_some_iff] at h
  rcases h with (h | ⟨-, ⟨s, r⟩, hs, he⟩) | ⟨-, ⟨w, r⟩, hw, he⟩
  · obtain ⟨⟨s, r₁⟩, hs, h₁⟩ := Option.bind_eq_some_iff.1 h
    obtain ⟨r₂, hmark, h₂⟩ := Option.bind_eq_some_iff.1 h₁
    obtain ⟨⟨n, r₃⟩, hn, h₃⟩ := Option.bind_eq_some_iff.1 h₂
    cases h₃
    obtain ⟨w, hw, rfl⟩ := readSpan_sound hs hcs
    have hr₁ := readMark_sound hmark
    subst hr₁
    obtain ⟨k, hk, rfl⟩ := readNumber_sound hn hcs.right.tail
    exact ⟨w ++ '/' :: k, .every hw hk, by simp⟩
  · cases he
    obtain ⟨w, hw, happend⟩ := readSpan_sound hs hcs
    exact ⟨w, .span hw, happend⟩
  · cases he
    obtain ⟨hname, happend⟩ := readName_sound hw hcs
    exact ⟨w, .name hname, happend⟩

theorem readMoreTerms_sound {ts : List Term} {limit : Nat}
    (h : readMoreTerms mb limit cs = (ts, rest)) (hcs : NoPads cs) :
    (ts = [] ∧ rest = cs) ∨ ∃ w, ListText mb ts w ∧ cs = ',' :: (w ++ rest) := by
  induction limit generalizing cs ts with
  | zero => cases h; exact .inl ⟨rfl, rfl⟩
  | succ limit ih =>
    rw [readMoreTerms] at h
    split at h
    · cases h; exact .inl ⟨rfl, rfl⟩
    · rename_i t r₁ hread
      cases h
      obtain ⟨r₂, hmark, hterm⟩ := Option.bind_eq_some_iff.1 hread
      have hr₂ := readMark_sound hmark
      subst hr₂
      obtain ⟨w, hw, rfl⟩ := readTerm_sound hterm hcs.tail
      rcases ih rfl hcs.tail.right with ⟨hts, hrest⟩ | ⟨v, hv, hr₁⟩
      · rw [hts, hrest]
        exact .inr ⟨w, .one hw, rfl⟩
      · refine .inr ⟨w ++ ',' :: v, .more hw hv, ?_⟩
        rw [List.append_assoc, List.cons_append, ← hr₁]

theorem readTerms_sound {ts : List Term} (h : readTerms mb cs = some (ts, rest))
    (hcs : NoPads cs) : ∃ w, ListText mb ts w ∧ cs = w ++ rest := by
  obtain ⟨⟨t, r₁⟩, hterm, he⟩ := Option.bind_eq_some_iff.1 h
  obtain ⟨w, hw, rfl⟩ := readTerm_sound hterm hcs
  cases he
  rcases readMoreTerms_sound rfl hcs.right with ⟨hts, hrest⟩ | ⟨v, hv, hr₁⟩
  · rw [hts, hrest]
    exact ⟨w, .one hw, rfl⟩
  · refine ⟨w ++ ',' :: v, .more hw hv, ?_⟩
    rw [List.append_assoc, List.cons_append, ← hr₁]

/-! ## Fields -/

/-- The text is a list of terms of the field, and the set is what they denote. -/
def FieldText (f : Field) (w : List Char) (set : List Nat) : Prop :=
  ∃ ts, ListText f.mayBeOpen ts w ∧ f.set? ts = some set

variable {f : Field} {set : List Nat}

theorem FieldText.begins (h : FieldText f w set) : Begins w := by
  obtain ⟨ts, hts, -⟩ := h
  exact hts.begins

/-- A field that is accepted on its own is one that was written. -/
theorem fieldText_of_readField (h : readField f w = some (set, [])) (hw : NoPads w) :
    FieldText f w set := by
  obtain ⟨⟨ts, r⟩, hterms, h₁⟩ := Option.bind_eq_some_iff.1 h
  obtain ⟨set', hset, h₂⟩ := Option.bind_eq_some_iff.1 h₁
  rw [hw.dropWhile] at hterms
  obtain ⟨v, hv, rfl⟩ := readTerms_sound hterms hw
  simp only [pure, Option.some.injEq, Prod.mk.injEq, hw.right.dropWhile] at h₂
  obtain ⟨rfl, rfl⟩ := h₂
  rw [List.append_nil]
  exact ⟨ts, hv, hset⟩

theorem readField_of_terms {ts : List Term} (hcs : Begins cs)
    (hterms : readTerms f.mayBeOpen cs = some (ts, rest)) :
    readField f cs = (f.set? ts).map fun set => (set, rest.dropWhile isPad) := by
  obtain ⟨c, r, rfl, hc⟩ := hcs
  simp only [readField, dropWhile_pad_cons (not_pad_of_starts hc), hterms, bind, Option.bind_some]
  cases f.set? ts <;> rfl

theorem readField_written (h : FieldText f w set) (hcs : ListEnds cs) :
    readField f (w ++ cs) = some (set, cs.dropWhile isPad) := by
  obtain ⟨ts, hts, hset⟩ := h
  obtain ⟨c, r, hw, hc⟩ := hts.begins
  obtain ⟨rest, hl, hterms⟩ := readTerms_written hts hcs
  rw [readField_of_terms ⟨c, r ++ cs, by rw [hw]; rfl, hc⟩ hterms, hset, left_dropWhile hl]
  rfl

theorem listEnds_blank (hc : Starts c) : ListEnds (' ' :: c :: cs) := by
  have hdrop : (' ' :: c :: cs).dropWhile isPad = c :: cs :=
    dropWhile_pad_cons (not_pad_of_starts hc) cs
  have hne (mark : Char) (hm : ¬ Starts mark) : NoMark mark (' ' :: c :: cs) := by
    intro d hd
    rw [hdrop] at hd
    cases hd
    rintro rfl
    exact hm hc
  exact {
    run := runEnds_cons (by decide)
    dash := hne '-' (by unfold Starts; decide)
    slash := hne '/' (by unfold Starts; decide)
    comma := hne ',' (by unfold Starts; decide) }

/-! ## Schedules -/

/-- Fields in a row, with blanks between them. -/
def row (fields : List (List Char)) : List Char := List.intercalate [' '] fields

theorem row_cons (w v : List Char) (fields : List (List Char)) :
    row (w :: v :: fields) = w ++ ' ' :: row (v :: fields) := by
  rw [row, List.intercalate_cons_cons, List.append_assoc]
  rfl

theorem row_single (w : List Char) : row [w] = w := by
  simp [row]

theorem row_begins (h : Begins w) (fields : List (List Char)) : Begins (row (w :: fields)) := by
  obtain ⟨c, r, rfl, hc⟩ := h
  cases fields with
  | nil => exact ⟨c, r, row_single _, hc⟩
  | cons v fields => exact ⟨c, _, row_cons _ v fields, hc⟩

/-- A field is read up to the next one. -/
theorem readField_row (h : FieldText f w set) (hv : Begins v) (fields : List (List Char)) :
    readField f (row (w :: v :: fields)) = some (set, row (v :: fields)) := by
  obtain ⟨c, r, hrow, hc⟩ := row_begins hv fields
  rw [row_cons, hrow, readField_written h (listEnds_blank hc)]
  exact congrArg (fun rest => some (set, rest)) (dropWhile_pad_cons (not_pad_of_starts hc) r)

section Rows

variable {second minute hour day month weekday : List Char}
  {seconds minutes hours days months weekdays : List Nat}

/-- The first five fields are read one by one. -/
theorem longhand?_of_fields (hsecond : FieldText .second second seconds)
    (hminute : FieldText .minute minute minutes) (hhour : FieldText .hour hour hours)
    (hday : FieldText .dayOfMonth day days) (hmonth : FieldText .month month months)
    (hbegins : Begins weekday) :
    longhand? (row [second, minute, hour, day, month, weekday]) =
      (readField .weekday weekday).bind fun (weekdays, rest) =>
        let (years, rest) := (readField .year rest).getD (Field.year.values, rest)
        if rest.isEmpty then
          some ⟨seconds, minutes, hours, days, months, weekdays, years⟩
        else none := by
  simp only [longhand?, bind, Option.bind_some, readField_row hsecond hminute.begins,
    readField_row hminute hhour.begins, readField_row hhour hday.begins,
    readField_row hday hmonth.begins, readField_row hmonth hbegins, row_single]
  rfl

theorem longhand?_of_texts (hsecond : FieldText .second second seconds)
    (hminute : FieldText .minute minute minutes) (hhour : FieldText .hour hour hours)
    (hday : FieldText .dayOfMonth day days) (hmonth : FieldText .month month months)
    (hweekday : FieldText .weekday weekday weekdays) :
    longhand? (row [second, minute, hour, day, month, weekday]) =
      some ⟨seconds, minutes, hours, days, months, weekdays, Field.year.values⟩ := by
  have hlast := readField_written hweekday listEnds_nil
  rw [List.append_nil] at hlast
  rw [longhand?_of_fields hsecond hminute hhour hday hmonth hweekday.begins, hlast]
  rfl

end Rows

/-- A text that begins with a digit is no short form. -/
theorem shorthand?_of_isDigit (h : c.isDigit) : shorthand? (c :: cs) = none := by
  have hname : ∀ s ∈ shorthands, s.name.toList.head? = some '@' := by decide
  have hc : c ≠ '@' := by rintro rfl; exact absurd h (by decide)
  rw [shorthand?]
  simp only [dropWhile_pad_cons (not_pad_of_isDigit h)]
  have hnone : (shorthands.find? fun s => s.name.toList.isPrefixOf (c :: cs)) = none := by
    rw [List.find?_eq_none]
    intro s hs hp
    have hhead := hname s hs
    cases hn : s.name.toList with
    | nil => rw [hn] at hhead; cases hhead
    | cons d ds =>
      rw [hn] at hhead hp
      cases hhead
      simp only [List.isPrefixOf_cons_cons, Bool.and_eq_true, beq_iff_eq] at hp
      exact hc hp.1.symm
  rw [hnone]
  rfl

theorem sublist_of_set? {ts : List Term} (h : f.set? ts = some set) : set.Sublist f.values := by
  obtain ⟨ps, -, he⟩ := Option.bind_eq_some_iff.1 h
  cases he
  exact List.filter_sublist

theorem sublist_of_readField (h : readField f cs = some (set, rest)) : set.Sublist f.values := by
  obtain ⟨⟨ts, r⟩, -, h₁⟩ := Option.bind_eq_some_iff.1 h
  obtain ⟨set', hset, h₂⟩ := Option.bind_eq_some_iff.1 h₁
  cases h₂
  exact sublist_of_set? hset

theorem regular_of_longhand? {s : Schedule} (h : longhand? cs = some s) : s.Regular := by
  obtain ⟨⟨_, _⟩, h₁, h⟩ := Option.bind_eq_some_iff.1 h
  obtain ⟨⟨_, _⟩, h₂, h⟩ := Option.bind_eq_some_iff.1 h
  obtain ⟨⟨_, _⟩, h₃, h⟩ := Option.bind_eq_some_iff.1 h
  obtain ⟨⟨_, _⟩, h₄, h⟩ := Option.bind_eq_some_iff.1 h
  obtain ⟨⟨_, _⟩, h₅, h⟩ := Option.bind_eq_some_iff.1 h
  obtain ⟨⟨_, r⟩, h₆, h⟩ := Option.bind_eq_some_iff.1 h
  have hyears : ((readField .year r).getD (Field.year.values, r)).1.Sublist Field.year.values := by
    cases hr : readField .year r with
    | none => exact .refl _
    | some x => exact sublist_of_readField hr
  dsimp only at h
  split at h
  · cases h
    exact {
      seconds := sublist_of_readField h₁
      minutes := sublist_of_readField h₂
      hours := sublist_of_readField h₃
      daysOfMonth := sublist_of_readField h₄
      months := sublist_of_readField h₅
      weekdays := sublist_of_readField h₆
      years := hyears }
  · cases h

/-- **Schedules.** Every schedule that a text denotes is regular. -/
theorem regular_of_ofText? {s : Schedule} (h : Schedule.ofText? cs = some s) : s.Regular := by
  rcases Option.or_eq_some_iff.1 h with h | ⟨-, h⟩
  · have hall : ∀ short ∈ shorthands, short.schedule.Regular := by
      intro short hs
      simp only [shorthands, List.mem_cons, List.not_mem_nil, or_false] at hs
      rcases hs with rfl | rfl | rfl | rfl | rfl <;> constructor <;> decide
    obtain ⟨short, hfind, he⟩ := Option.bind_eq_some_iff.1 h
    split at he
    · cases he
      exact hall short (List.mem_of_find?_eq_some hfind)
    · cases he
  · exact regular_of_longhand? h

end Agenda.Cron
