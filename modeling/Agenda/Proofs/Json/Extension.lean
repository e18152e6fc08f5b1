import Agenda.Proofs.Json.Record
import Mathlib.Data.List.TakeWhile

/-!
# Longer inputs

A reader looks no further than the byte after the value that it reads, and that byte only where it
could go on with a number. So what is read of an input is also read of every longer one, if something
follows the value already; if the value ends with a quote or a bracket of its own, nothing need follow.

* `Extends`, `Delimits`: the two properties, and the steps that keep them.
* `extends_readNumber`, `delimits_readString`, `Skip.run_append`: numbers, strings, skipped values.
* `Record.delimits_read`: a record is read as far as its closing bracket.
* `Reader.decode_damaged`: no input that is cut short or goes on with other bytes is decoded.
-/
namespace Agenda.Json

variable {α β : Type}

/-- What is read of an input is read of every longer one, if something follows it already. -/
def Extends (f : List UInt8 → Except Failure (α × List UInt8)) : Prop :=
  ∀ ⦃s a r⦄, f s = .ok (a, r) → r ≠ [] → ∀ q, f (s ++ q) = .ok (a, r ++ q)

/-- What is read of an input is read of every longer one. -/
def Delimits (f : List UInt8 → Except Failure (α × List UInt8)) : Prop :=
  ∀ ⦃s a r⦄, f s = .ok (a, r) → ∀ q, f (s ++ q) = .ok (a, r ++ q)

/-! ## Steps -/

section Steps

variable {f g : List UInt8 → Except Failure (α × List UInt8)} {p : Prop} [Decidable p]

theorem Delimits.extends (h : Delimits f) : Extends f := fun _ _ _ hf _ => h hf

theorem Delimits.error (e : List UInt8 → Failure) :
    Delimits fun s => (.error (e s) : Except Failure (α × List UInt8)) := nofun

theorem Delimits.ok (a : α) : Delimits fun s => .ok (a, s) := by
  intro s _ _ h q
  cases h
  rfl

theorem Delimits.ite (hf : Delimits f) (hg : Delimits g) :
    Delimits fun s => if p then f s else g s := by
  by_cases hp : p
  · simpa only [if_pos hp] using hf
  · simpa only [if_neg hp] using hg

theorem Delimits.map (h : Delimits f) (k : α → β) :
    Delimits fun s => (f s).map fun (a, r) => (k a, r) := by
  intro s b r hb q
  obtain ⟨⟨a, r'⟩, ha, he⟩ := map_eq_ok.1 hb
  cases he
  simp only [h ha q]
  rfl

theorem Extends.map (h : Extends f) (k : α → β) :
    Extends fun s => (f s).map fun (a, r) => (k a, r) := by
  intro s b r hb hr q
  obtain ⟨⟨a, r'⟩, ha, he⟩ := map_eq_ok.1 hb
  cases he
  simp only [h ha hr q]
  rfl

/-- A byte in front is taken or left; at the end of the input nothing can follow. -/
theorem Extends.head {c : UInt8 → Prop} [DecidablePred c] (hf : Extends f) (hg : Extends g)
    (hnil : ∀ {a r}, g [] = .ok (a, r) → r = []) :
    Extends fun s => match s with
      | b :: r => if c b then f r else g s
      | [] => g s := by
  intro s a r h hr q
  cases s with
  | nil => exact absurd (hnil h) hr
  | cons b s =>
    simp only [List.cons_append] at h ⊢
    split at h
    · rename_i hb
      rw [if_pos hb]
      exact hf h hr q
    · rename_i hb
      rw [if_neg hb]
      exact hg h hr q

end Steps

/-! ## Blanks and words -/

variable {b : UInt8} {s r : List UInt8}

theorem skipBlanks_append (h : skipBlanks s = b :: r) (q : List UInt8) :
    skipBlanks (s ++ q) = b :: (r ++ q) := by
  rw [skipBlanks] at h
  rw [skipBlanks, List.dropWhile_append, h]
  rfl

/-- A reader that goes by the first byte after the blanks. -/
theorem Delimits.afterBlanks {f : UInt8 → List UInt8 → Except Failure (α × List UInt8)} {e : Failure}
    (h : ∀ b, Delimits (f b)) : Delimits fun s => match skipBlanks s with
      | [] => .error e
      | b :: r => f b r := by
  intro s a r ha q
  simp only at ha ⊢
  split at ha
  · cases ha
  · rename_i b t hs
    simp only [skipBlanks_append hs]
    exact h b ha q

theorem readWord_append_of_ok {w : List UInt8} (h : readWord w s = .ok r) (q : List UInt8) :
    readWord w (s ++ q) = .ok (r ++ q) := by
  induction w generalizing s with
  | nil => cases h; rfl
  | cons c w ih =>
    cases s with
    | nil => cases h
    | cons b s =>
      rw [readWord] at h
      rw [List.cons_append, readWord]
      split at h
      · rename_i hb
        rw [if_pos hb]
        exact ih h
      · cases h

theorem delimits_word (w : List UInt8) (a : α) : Delimits fun s => (readWord w s).map (a, ·) := by
  intro s _ r h q
  obtain ⟨_, hw, he⟩ := map_eq_ok.1 h
  cases he
  simp only [readWord_append_of_ok hw]
  rfl

/-! ## Strings -/

theorem delimits_readBytes (done : List UInt8) (phase : StringPhase) :
    Delimits (readBytes done phase) := by
  intro s bs r h q
  -- One case for each branch of the reader: it fails, ends the string or goes on behind the byte.
  fun_induction readBytes done phase s <;> simp_all [readBytes]

theorem delimits_readString : Delimits readString := by
  intro s cs r h q
  rw [readString] at h
  split at h
  · cases h
  · rename_i hb
    rw [readString, delimits_readBytes _ _ hb]
    split at h
    · rename_i hd
      cases h
      simp only [hd]
    · cases h

/-! ## Numbers -/

theorem digitFollows_append (hr : r ≠ []) (q : List UInt8) :
    digitFollows (r ++ q) = digitFollows r := by
  cases r with
  | nil => exact absurd rfl hr
  | cons b r => rfl

theorem goesOn_append (hr : r ≠ []) (q : List UInt8) : goesOn (r ++ q) = goesOn r := by
  cases r with
  | nil => exact absurd rfl hr
  | cons b r => rfl

theorem ne_nil_of_dropDigits (h : s.dropWhile isDigit ≠ []) : s ≠ [] := by
  rintro rfl
  exact h rfl

theorem dropDigits_append (h : s.dropWhile isDigit ≠ []) (q : List UInt8) :
    (s ++ q).dropWhile isDigit = s.dropWhile isDigit ++ q := by
  rw [List.dropWhile_append, if_neg (by simpa using h)]

theorem digitsWithin_append {limit n used m k : Nat} (h : digitsWithin limit n used s = (m, k, r))
    (hr : r ≠ []) (q : List UInt8) : digitsWithin limit n used (s ++ q) = (m, k, r ++ q) := by
  induction s generalizing n used with
  | nil =>
    cases h
    exact absurd rfl hr
  | cons b s ih =>
    rw [digitsWithin] at h
    rw [List.cons_append, digitsWithin]
    split at h
    · rename_i hb
      rw [if_pos hb]
      exact ih h
    · rename_i hb
      rw [if_neg hb]
      cases h
      rfl

theorem readDown_append {down : Bool} (h : readDown s = (down, b :: r)) (q : List UInt8) :
    readDown (s ++ q) = (down, b :: (r ++ q)) := by
  cases s with
  | nil => cases h
  | cons c s =>
    rw [readDown] at h
    rw [List.cons_append, readDown]
    repeat' split at h
    all_goals simp_all

/-- Only the failure of a number that is too large says what follows. -/
theorem makeFloat_rest {negative : Bool} {m : Nat} {e : Int} {x : Number}
    (h : makeFloat negative m e s = .ok x) (t : List UInt8) : makeFloat negative m e t = .ok x := by
  unfold makeFloat at h ⊢
  simp only at h ⊢
  split at h
  · rename_i h0
    rw [if_pos h0]
    exact h
  rename_i h0
  rw [if_neg h0]
  split at h
  · rename_i he
    rw [if_pos he]
    split at h
    · rename_i hmax
      rw [if_pos hmax]
      split at h
      · cases h
      · rename_i hfinite
        rw [if_neg hfinite]
        exact h
    · cases h
  · rename_i he
    rw [if_neg he]
    exact h

/-- A floating-point number that takes no more of the input. -/
theorem extends_float (negative : Bool) (m : Nat) (e : Int) :
    Extends fun s => (makeFloat negative m e s).map (·, s) := by
  intro s x r h _ q
  obtain ⟨y, hy, he⟩ := map_eq_ok.1 h
  cases he
  simp only [makeFloat_rest hy]
  rfl

theorem extends_readExponent (negative : Bool) (m : Nat) (e : Int) :
    Extends (readExponent negative m e) := by
  intro s x r h hr q
  unfold readExponent at h ⊢
  rcases hd : readDown s with ⟨down, t⟩
  cases t with
  | nil => simp [hd] at h
  | cons b t =>
    rw [readDown_append hd]
    simp only [hd] at h ⊢
    split at h
    · rename_i hb
      rw [if_pos hb]
      rcases hw : digitsWithin maxPower (digitOf b) 1 t with ⟨power, used, u⟩
      simp only [hw] at h
      have hu : u ≠ [] := by
        rintro rfl
        exact hr (map_pair_rest h)
      simp only [digitsWithin_append hw hu, digitFollows_append hu]
      split at h
      · rename_i hf
        rw [if_pos hf]
        split at h
        · cases h
        · rename_i hm
          cases h
          rw [if_neg hm, dropDigits_append hr]
      · rename_i hf
        rw [if_neg hf]
        obtain rfl := map_pair_rest h
        exact extends_float negative m _ h hu q
    · cases h

theorem extends_readPower (negative : Bool) (m : Nat) (e : Int) :
    Extends (readPower negative m e) :=
  .head (extends_readExponent negative m e) (extends_float negative m e) map_pair_rest

theorem extends_readFraction (negative : Bool) (m : Nat) (e : Int) :
    Extends (readFraction negative m e) := by
  intro s x r h hr q
  unfold readFraction at h ⊢
  rcases hw : digitsWithin maxWord m 0 s with ⟨m', used, t⟩
  simp only [hw] at h
  have power {u : List UInt8} (h : readPower negative m' (e - used) u = .ok (x, r)) : u ≠ [] := by
    rintro rfl
    exact hr (map_pair_rest h)
  split at h
  · rename_i hf
    have ht := power h
    simp only [digitsWithin_append hw (ne_nil_of_dropDigits ht),
      digitFollows_append (ne_nil_of_dropDigits ht), if_pos hf, dropDigits_append ht]
    exact extends_readPower negative m' _ h hr q
  · rename_i hf
    split at h
    · cases h
    · rename_i hused
      have ht := power h
      simp only [digitsWithin_append hw ht, digitFollows_append ht, if_neg hf, if_neg hused]
      exact extends_readPower negative m' _ h hr q

theorem readRest_nil {negative : Bool} {m : Nat} {e : Int} {x : Number}
    (h : readRest negative m e [] = .ok (x, r)) : r = [] := map_pair_rest h

theorem extends_readRest (negative : Bool) (m : Nat) (e : Int) : Extends (readRest negative m e) :=
  .head (extends_readFraction negative m e) (extends_readPower negative m e) map_pair_rest

theorem ne_nil_of_whole {negative : Bool} {m : Nat} {x : Number}
    (h : (if goesOn s then readRest negative m 0 s else .ok (wholeNumber negative m, s)) =
      .ok (x, r)) (hr : r ≠ []) : s ≠ [] := by
  rintro rfl
  cases h
  exact hr rfl

/-- The end of a number whose digits have all been read. -/
theorem extends_whole (negative : Bool) (m : Nat) : Extends fun s =>
    if goesOn s then readRest negative m 0 s else .ok (wholeNumber negative m, s) := by
  intro s x r h hr q
  simp only [goesOn_append (ne_nil_of_whole h hr)] at h ⊢
  split at h
  · rename_i hg
    rw [if_pos hg]
    exact extends_readRest negative m 0 h hr q
  · rename_i hg
    rw [if_neg hg]
    cases h
    rfl

theorem extends_readUnsigned (negative : Bool) : Extends (readUnsigned negative) := by
  intro s x r h hr q
  cases s with
  | nil => cases h
  | cons b s =>
    rw [readUnsigned] at h
    rw [List.cons_append, readUnsigned]
    split at h
    · rename_i hb
      rw [if_pos hb]
      split at h
      · cases h
      rename_i hf
      rw [digitFollows_append (ne_nil_of_whole h hr), if_neg hf]
      exact extends_whole negative 0 h hr q
    rename_i hb
    rw [if_neg hb]
    split at h
    · rename_i hd
      rw [if_pos hd]
      rcases hw : digitsWithin maxWord (digitOf b) 1 s with ⟨m, used, t⟩
      simp only [hw] at h
      split at h
      · rename_i hf
        have ht : t.dropWhile isDigit ≠ [] := by
          intro ht
          rw [ht] at h
          exact hr (readRest_nil h)
        have ht' := ne_nil_of_dropDigits ht
        simp only [digitsWithin_append hw ht', digitFollows_append ht', if_pos hf,
          dropDigits_append ht, List.length_append, Nat.add_sub_add_right]
        exact extends_readRest negative m _ h hr q
      · rename_i hf
        have ht := ne_nil_of_whole h hr
        simp only [digitsWithin_append hw ht, digitFollows_append ht, if_neg hf]
        exact extends_whole negative m h hr q
    · cases h

/-- **Numbers.** A number that is followed by something is read of longer inputs too. -/
theorem extends_readNumber : Extends readNumber :=
  .head (extends_readUnsigned true) (extends_readUnsigned false) nofun

/-! ## Skipped values -/

theorem Skip.run_append {fs : List Frame} {st : State} (h : run fs st s = .ok r) (hr : r ≠ [])
    (q : List UInt8) : run fs st (s ++ q) = .ok (r ++ q) := by
  induction s generalizing fs st with
  | nil =>
    rw [run] at h
    split at h
    · cases h
    · cases h
      exact absurd rfl hr
  | cons b s ih =>
    rw [run] at h
    rw [List.cons_append, run]
    cases hs : step fs st b with
    | go fs' st' =>
      simp only [hs] at h ⊢
      exact ih h
    | last =>
      simp only [hs] at h ⊢
      cases h
      rfl
    | beyond =>
      simp only [hs] at h ⊢
      cases h
      rfl
    | fail cause => simp [hs] at h
    | failBefore cause => simp [hs] at h

/-! ## Readers -/

namespace Reader

variable {p : Reader α} {expected : String}

theorem extends_map (h : Extends p.run) (f : α → β) : Extends (p.map f).run := h.map f

theorem extends_andThen (h : Extends p.run) (f : α → Except Cause β) : Extends (p.andThen f).run := by
  intro s y r hy hr q
  cases ha : p.run s with
  | error err => simp [andThen, ha, bind, Except.bind] at hy
  | ok x =>
    simp only [andThen, ha, bind, Except.bind] at hy ⊢
    split at hy
    · rename_i hf
      cases hy
      simp only [h ha hr q, hf]
    · cases hy

theorem extends_mapCause (h : Extends p.run) (f : Cause → Cause) : Extends (p.mapCause f).run := by
  intro s a r ha hr q
  simp only [mapCause] at ha ⊢
  split at ha
  · rename_i hp
    cases ha
    simp only [h hp hr q]
  · cases ha

theorem delimits_string : Delimits (string expected).run :=
  .afterBlanks fun _ => .ite delimits_readString (.error _)

theorem delimits_bool : Delimits (bool expected).run :=
  .afterBlanks fun _ => .ite (delimits_word _ true) (.ite (delimits_word _ false) (.error _))

theorem extends_integer : Extends (integer expected).run := by
  intro s n r h hr q
  simp only [integer] at h ⊢
  split at h
  · cases h
  · rename_i hs
    simp only [skipBlanks_append hs]
    split at h
    · rename_i hb
      rw [if_pos hb]
      split at h
      · rename_i hn
        split at h
        · rename_i hrange
          cases h
          have hmore := extends_readNumber hn hr q
          rw [List.cons_append] at hmore
          simp only [hmore, if_pos hrange]
        · cases h
      · cases h
      · cases h
    · cases h

theorem extends_skipped : Extends skipped.run := by
  intro s u r h hr q
  obtain ⟨_, hs, he⟩ := map_eq_ok.1 h
  cases he
  simp only [skipped, Skip.run_append hs hr]
  rfl

end Reader

/-! ## Members -/

theorem delimits_readKey (b : UInt8) : Delimits (readKey b) :=
  .ite (delimits_readString.map some) (.error _)

theorem delimits_nextKey (first : Bool) : Delimits (nextKey first) :=
  .afterBlanks fun b => .ite (.ok none) <| .ite (delimits_readKey b) <|
    .ite (.afterBlanks fun c => .ite (.error _) (delimits_readKey c)) (.error _)

theorem readColon_append (h : readColon s = .ok r) (q : List UInt8) :
    readColon (s ++ q) = .ok (r ++ q) := by
  rw [readColon] at h
  split at h
  · cases h
  · rename_i hs
    rw [readColon, skipBlanks_append hs]
    split at h
    · rename_i hb
      cases h
      exact if_pos hb
    · cases h

theorem extends_readMember {p : Reader α} (hp : Extends p.run) : Extends (readMember p) := by
  intro s a r h hr q
  unfold readMember at h ⊢
  split at h
  · rename_i hc
    simp only [readColon_append hc]
    exact hp h hr q
  · cases h

namespace Record

variable {R : Record α} {seen : List String} {x y : α}

theorem extends_member (hR : ∀ f ∈ R.fields, Extends f.set.run) (seen : List String) (x : α)
    (key : List Char) : Extends (R.member seen x key) := by
  intro s y r h hr q
  unfold member at h ⊢
  split at h
  · exact (extends_readMember Reader.extends_skipped).map (fun _ => (seen, x)) h hr q
  · rename_i f hf
    split at h
    · cases h
    · rename_i hseen
      have hset := hR f (List.mem_of_find?_eq_some hf)
      rw [if_neg hseen]
      exact (extends_readMember hset).map (fun set => (f.name :: seen, set x)) h hr q

/-- After a member its object goes on, so something follows. -/
theorem members_ne_nil {first : Bool} (h : R.members first seen x s = .ok (y, r)) : s ≠ [] :=
  List.length_pos_iff.1 (Nat.zero_lt_of_lt (members_length h))

theorem delimits_members (hR : ∀ f ∈ R.fields, Extends f.set.run) (first : Bool)
    (seen : List String) (x : α) : Delimits (R.members first seen x) := by
  intro s y r h q
  fun_induction R.members first seen x s with
  | case1 => cases h
  | case2 first seen x s r' hk =>
    cases h
    exact members_of_end (delimits_nextKey first hk q)
  | case3 => cases h
  | case4 first seen x s key r' hk seen' x' r'' hm ih =>
    have hmore := extends_member hR seen x key hm (members_ne_nil h) q
    rw [members_of_member (delimits_nextKey first hk q) hmore]
    exact ih h

/-! ## Items -/

theorem nextItem_append {first : Bool} {next : Option (List UInt8)}
    (h : nextItem first s = .ok next) (q : List UInt8) :
    nextItem first (s ++ q) = .ok (next.map (· ++ q)) := by
  unfold nextItem at h ⊢
  split at h
  · cases h
  rename_i hs
  simp only [skipBlanks_append hs]
  split at h
  · rename_i hb
    rw [if_pos hb]
    cases h
    rfl
  rename_i hb
  rw [if_neg hb]
  split at h
  · rename_i hfirst
    rw [if_pos hfirst]
    cases h
    rfl
  rename_i hfirst
  rw [if_neg hfirst]
  split at h
  · rename_i hcomma
    rw [if_pos hcomma]
    split at h
    · cases h
    · rename_i ht
      simp only [skipBlanks_append ht]
      split at h
      · cases h
      · rename_i hc
        rw [if_neg hc]
        cases h
        rfl
  · cases h

theorem extends_items {fs : List (Field α)} (hfs : ∀ f ∈ fs, Extends f.set.run) (first : Bool)
    (x : α) : Extends (items first x fs) := by
  intro s y r h hr q
  induction fs generalizing first x s with
  | nil =>
    cases h
    rfl
  | cons f fs ih =>
    obtain ⟨hf, hfs⟩ := List.forall_mem_cons.1 hfs
    rw [items] at h ⊢
    split at h
    · cases h
    · rename_i hn
      cases h
      rw [nextItem_append hn]
      rfl
    · rename_i hn
      split at h
      · cases h
      · rename_i r' hg
        have hr' : r' ≠ [] := by
          rintro rfl
          exact hr (List.length_eq_zero_iff.1 (Nat.le_zero.1 (items_length h)))
        rw [nextItem_append hn]
        simp only [Option.map_some, hf hg hr' q]
        exact ih hfs false _ h

theorem endList_append (h : endList s = .ok r) (q : List UInt8) :
    endList (s ++ q) = .ok (r ++ q) := by
  unfold endList at h ⊢
  split at h
  · cases h
  rename_i hs
  simp only [skipBlanks_append hs]
  split at h
  · rename_i hb
    rw [if_pos hb]
    cases h
    rfl
  · split at h
    · split at h <;> cases h
    · cases h

theorem endList_ne_nil (h : endList s = .ok r) : s ≠ [] := by
  rintro rfl
  cases h

theorem delimits_list (hR : ∀ f ∈ R.fields, Extends f.set.run) : Delimits R.list := by
  intro s x r h q
  unfold list at h ⊢
  split at h
  · cases h
  · rename_i hi
    obtain ⟨_, hl, he⟩ := map_eq_ok.1 h
    cases he
    simp only [extends_items hR true R.blank hi (endList_ne_nil hl) q, endList_append hl]
    rfl

/-- **Records.** A record is read as far as its closing bracket, whatever follows. -/
theorem delimits_read (hR : ∀ f ∈ R.fields, Extends f.set.run) : Delimits R.read :=
  .afterBlanks fun _ => .ite (delimits_list hR) <|
    .ite (delimits_members hR true [] R.blank) (.error _)

end Record

/-! ## Damaged inputs -/

theorem skipBlanks_eq_nil_iff : skipBlanks s = [] ↔ ∀ c ∈ s, isBlank c :=
  List.dropWhile_eq_nil_iff

theorem Reader.decode_eq_ok_iff {p : Reader α} {a : α} :
    p.decode s = .ok a ↔ ∃ r, p.run s = .ok (a, r) ∧ ∀ c ∈ r, isBlank c := by
  simp only [← skipBlanks_eq_nil_iff]
  rw [decode]
  cases hp : p.run s with
  | error f => simp
  | ok x =>
    obtain ⟨a', r⟩ := x
    simp only [Except.ok.injEq, Prod.mk.injEq]
    constructor
    · intro h
      split at h
      · rename_i hr
        exact ⟨r, ⟨Except.ok.inj h, rfl⟩, hr⟩
      · cases h
    · rintro ⟨_, ⟨rfl, rfl⟩, hr⟩
      rw [hr]

/-- What arrives of a frame that is cut short, or that other bytes than blanks are added to. -/
inductive Damaged : List UInt8 → List UInt8 → Prop
  | cut {kept lost : List UInt8} (h : lost ≠ []) : Damaged (kept ++ lost) kept
  | extended {frame junk : List UInt8} (h : ∃ c ∈ junk, ¬ isBlank c) : Damaged frame (frame ++ junk)

/-- **Damaged inputs.** If an input is decoded and does not end with a blank, nothing is decoded of
what it becomes by damage. -/
theorem Reader.decode_damaged {p : Reader α} (hp : Delimits p.run) {frame input : List UInt8} {a : α}
    (h : p.decode frame = .ok a) (hlast : ∀ c ∈ frame.getLast?, ¬ isBlank c)
    (hd : Damaged frame input) (a' : α) : p.decode input ≠ .ok a' := by
  intro ha
  obtain ⟨r, hr, hblank⟩ := decode_eq_ok_iff.1 h
  obtain ⟨r', hr', hblank'⟩ := decode_eq_ok_iff.1 ha
  cases hd with
  | @cut _ lost hlost =>
    -- What is read of the part is read of the whole, so what was lost would be blank.
    rw [hp hr' lost] at hr
    cases hr
    have hmem : lost.getLast hlost ∈ (input ++ lost).getLast? := by
      rw [List.getLast?_append, List.getLast?_eq_some_getLast hlost]
      rfl
    exact hlast _ hmem (hblank _ (List.mem_append_right r' (List.getLast_mem hlost)))
  | @extended _ junk hjunk =>
    rw [hp hr junk] at hr'
    cases hr'
    obtain ⟨c, hc, hnot⟩ := hjunk
    exact hnot (hblank' c (List.mem_append_right r hc))

end Agenda.Json
