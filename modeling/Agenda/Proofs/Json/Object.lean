import Agenda.Proofs.Json.Values

/-!
# Records in objects

What an object makes of a record depends on its known members only, those with the name of a field, and
on their order only as far as the fields do not commute. Names count as they are once their escapes are
replaced; a name that is no text fails the object, and so does a known one that occurs twice.

* `Record.Meaning`: what the fields of a record make of values.
* `Meaning.build?`: what known members make of a record.
* `Meaning.decode_object`: an object is read as what its known members make of the blank record.
* `build?_perm`, `build?_set`: members in another order, and a member that is put in front.
-/
namespace Agenda.Json

open Text.Utf8

variable {α : Type}

namespace Record

/-- What the fields of a record make of values, by their names. -/
structure Meaning (R : Record α) where
  set? : String → Value → Option (α → α)
  takes : ∀ f ∈ R.fields, f.set.Takes (set? f.name)

/-- The members that are fields of the record, by the names of these. -/
def known (R : Record α) (ms : List Entry) : List (String × Value) :=
  ms.filterMap fun m => (m.name.bind R.field?).map fun f => (f.name, m.value)

theorem known_cons (R : Record α) (m : Entry) (ms : List Entry) :
    R.known (m :: ms) =
      match m.name.bind R.field? with
      | none => R.known ms
      | some f => (f.name, m.value) :: R.known ms := by
  rw [known, List.filterMap_cons]
  cases m.name.bind R.field? <;> rfl

theorem mem_of_field? {R : Record α} {name : List Char} {f : Field α}
    (h : R.field? name = some f) : f ∈ R.fields := List.mem_of_find?_eq_some h

namespace Meaning

variable {R : Record α} (M : R.Meaning)

/-- What known members make of a record; `seen` are the names before them. -/
def build? (seen : List String) (x : α) : List (String × Value) → Option α
  | [] => some x
  | (name, v) :: ms =>
    if name ∈ seen then none
    else (M.set? name v).bind fun set => build? (name :: seen) (set x) ms

/-- What the members of an object make of a record. -/
def read? (seen : List String) (x : α) : List Entry → Option α
  | [] => some x
  | m :: ms =>
    m.name.bind fun name =>
      match R.field? name with
      | none => read? seen x ms
      | some f =>
        if f.name ∈ seen then none
        else (M.set? f.name m.value).bind fun set => read? (f.name :: seen) (set x) ms

theorem read?_eq (seen : List String) (x : α) (ms : List Entry) :
    M.read? seen x ms =
      if ∀ m ∈ ms, m.name ≠ none then M.build? seen x (R.known ms) else none := by
  induction ms generalizing seen x with
  | nil => simp [read?, known, build?]
  | cons m ms ih =>
    rw [read?, known_cons]
    simp only [List.forall_mem_cons]
    cases hname : m.name with
    | none => simp
    | some name =>
      simp only [Option.bind_some, ne_eq, reduceCtorEq, not_false_eq_true, true_and]
      cases R.field? name with
      | none => exact ih seen x
      | some f =>
        simp only [ih, build?]
        split
        · simp
        · split
          · rfl
          · simp

/-! ## Reading members -/

variable {seen : List String} {x : α} {first : Bool} {r s : List UInt8} {p : Pair}

theorem readMember_pair {β : Type} {q : Reader β} {f : Value → Option β} (hq : q.Takes f)
    (hv : ValueText p.item.value p.item.text) (hs : ValueEnds s) :
    (readMember q (encode p.afterKey.chars ++ 0x3A :: (encode p.item.full ++ s))).toOption =
      (f p.item.value).map (·, encode p.item.after.chars ++ s) := by
  rw [readMember, readColon, skipBlanks_space, skipBlanks_cons (b := 0x3A) rfl, Item.full,
    encode_append, encode_append, List.append_assoc, List.append_assoc]
  exact hq _ _ hv p.item.before _ (valueEnds_space p.item.after hs)

theorem member_pair (hv : ValueText p.item.value p.item.text) (hs : ValueEnds s)
    (name : List Char) :
    (R.member seen x name
        (encode p.afterKey.chars ++ 0x3A :: (encode p.item.full ++ s))).toOption =
      (match R.field? name with
        | none => some (seen, x)
        | some f =>
          if f.name ∈ seen then none
          else (M.set? f.name p.item.value).map fun set : α → α => (f.name :: seen, set x)).map
        (·, encode p.item.after.chars ++ s) := by
  rw [member]
  cases hf : R.field? name with
  | none =>
    simp only [toOption_map, readMember_pair Reader.skipped_takes hv hs]
    rfl
  | some f =>
    simp only
    split
    · rfl
    · rw [toOption_map, readMember_pair (M.takes f (mem_of_field? hf)) hv hs, Option.map_map,
        Option.map_map]
      rfl

/-- What follows the key of a member. -/
def afterKey (p : Pair) (s : List UInt8) : List UInt8 :=
  encode p.afterKey.chars ++ 0x3A :: (encode p.item.full ++ s)

theorem encode_pair (p : Pair) (s : List UInt8) :
    encode p.full ++ s = encode p.before.chars ++
      0x22 :: (encode (p.key.flatMap Piece.text) ++ 0x22 :: afterKey p s) := by
  have hquote (s : List UInt8) : encode ['"'] ++ s = 0x22 :: s := rfl
  have hcolon (s : List UInt8) : encode (':' :: p.item.full) ++ s =
      0x3A :: (encode p.item.full ++ s) := by
    rw [encode_ascii (by decide)]
    rfl
  rw [Pair.full, encode_append, encode_append, encode_append, List.append_assoc, List.append_assoc,
    List.append_assoc, literal, encode_ascii (by decide), encode_append, List.cons_append,
    List.append_assoc, hquote, hcolon]
  rfl

theorem readKey_pieces (ps : List Piece) (r : List UInt8) :
    (readKey 0x22 (encode (ps.flatMap Piece.text) ++ 0x22 :: r)).toOption =
      (unescape ps).map fun name => (some name, r) := by
  rw [readKey, if_pos rfl, toOption_map, readString_pieces, Option.map_map]
  rfl

theorem nextKey_pair (w : Space) (p : Pair) (s : List UInt8) :
    (nextKey true (encode w.chars ++ (encode p.full ++ s))).toOption =
      (unescape p.key).map fun name => (some name, afterKey p s) := by
  rw [nextKey, skipBlanks_space, encode_pair, skipBlanks_space, skipBlanks_cons (b := 0x22) rfl]
  exact readKey_pieces p.key _

theorem nextKey_comma_pair (w : Space) (p : Pair) (s : List UInt8) :
    (nextKey false (encode w.chars ++ 0x2C :: (encode p.full ++ s))).toOption =
      (unescape p.key).map fun name => (some name, afterKey p s) := by
  rw [nextKey, skipBlanks_space, skipBlanks_cons (b := 0x2C) rfl]
  simp only [encode_pair, skipBlanks_space, skipBlanks_cons (b := 0x22) rfl]
  exact readKey_pieces p.key _

theorem nextKey_brace (first : Bool) (w : Space) (r : List UInt8) :
    nextKey first (encode w.chars ++ 0x7D :: r) = .ok (none, r) := by
  rw [nextKey, skipBlanks_space, skipBlanks_cons (b := 0x7D) rfl]
  rfl

/-- One turn of the loop over the members. -/
theorem members_toOption (R : Record α) (first : Bool) (seen : List String) (x : α)
    (s : List UInt8) :
    (R.members first seen x s).toOption =
      (nextKey first s).toOption.bind fun (key, r) =>
        match key with
        | none => some (x, r)
        | some key => (R.member seen x key r).toOption.bind fun ((seen, x), r) =>
            (R.members false seen x r).toOption := by
  rw [members]
  split
  · rename_i h
    rw [h]
    rfl
  · rename_i h
    rw [h]
    rfl
  · rename_i h
    rw [h]
    split
    · rename_i hm
      simp only [Except.toOption, Option.bind_some, hm]
      rfl
    · rename_i hm
      simp only [Except.toOption, Option.bind_some, hm]

/-- After the key of a member the loop goes on with the record that the member makes. -/
theorem members_pair {pairs : List Pair} {t : List UInt8}
    (hkey : (nextKey first t).toOption = (unescape p.key).map fun name => (some name, afterKey p s))
    (hv : ValueText p.item.value p.item.text) (hs : ValueEnds s)
    (ih : ∀ seen x, (R.members false seen x (encode p.item.after.chars ++ s)).toOption =
      (M.read? seen x (pairs.map Pair.entry)).map (·, r)) :
    (R.members first seen x t).toOption =
      (M.read? seen x ((p :: pairs).map Pair.entry)).map (·, r) := by
  rw [members_toOption, hkey, List.map_cons, read?, Pair.entry]
  cases unescape p.key with
  | none => rfl
  | some name =>
    simp only [Option.map_some, Option.bind_some, afterKey, M.member_pair hv hs]
    cases R.field? name with
    | none => exact ih seen x
    | some f =>
      simp only
      split
      · rfl
      · cases M.set? f.name p.item.value with
        | none => rfl
        | some set => exact ih _ _

/-- Members after the first one, and the closing brace. -/
theorem members_pairs {pairs : List Pair} (w : Space)
    (h : ∀ p ∈ pairs, ValueText p.item.value p.item.text) :
    (R.members false seen x
        (encode w.chars ++ (encode (more (pairs.map Pair.full)) ++ 0x7D :: r))).toOption =
      (M.read? seen x (pairs.map Pair.entry)).map (·, r) := by
  induction pairs generalizing seen x w with
  | nil =>
    have hend : encode (more []) ++ 0x7D :: r = 0x7D :: r := rfl
    rw [members_toOption, List.map_nil, hend, nextKey_brace]
    rfl
  | cons p pairs ih =>
    obtain ⟨hp, hpairs⟩ := List.forall_mem_cons.1 h
    rw [List.map_cons, encode_more]
    exact M.members_pair (nextKey_comma_pair w p _) hp (valueEnds_more _ (valueEnds_brace r))
      fun seen x => ih p.item.after hpairs

theorem members_braces {pairs : List Pair} (w : Space)
    (h : ∀ p ∈ pairs, ValueText p.item.value p.item.text) :
    (R.members true seen x (encode w.chars ++
        (encode (List.intercalate [','] (pairs.map Pair.full)) ++ 0x7D :: r))).toOption =
      (M.read? seen x (pairs.map Pair.entry)).map (·, r) := by
  cases pairs with
  | nil =>
    have hend : encode (List.intercalate [','] []) ++ 0x7D :: r = 0x7D :: r := rfl
    rw [members_toOption, List.map_nil, hend, nextKey_brace]
    rfl
  | cons p pairs =>
    obtain ⟨hp, hpairs⟩ := List.forall_mem_cons.1 h
    rw [List.map_cons, intercalate_comma, encode_append, List.append_assoc]
    exact M.members_pair (nextKey_pair w p _) hp (valueEnds_more _ (valueEnds_brace r))
      fun seen x => M.members_pairs p.item.after hpairs

/-- **Objects.** An object is read as what its known members make of the blank record, if the names of
all its members are texts. -/
theorem decode_object {ms : List Entry} {text : List Char} (h : ObjectText ms text) :
    (R.reader.decode (encode text)).toOption =
      if ∀ m ∈ ms, m.name ≠ none then M.build? [] R.blank (R.known ms) else none := by
  obtain ⟨before, w, pairs, after, hpairs⟩ := h
  have hbytes : encode (before.chars ++ (braces w pairs ++ after.chars)) =
      encode before.chars ++ 0x7B :: (encode w.chars ++
        (encode (List.intercalate [','] (pairs.map Pair.full)) ++ 0x7D :: encode after.chars)) := by
    rw [encode_append, encode_append, braces, encode_ascii (by decide), encode_append,
      encode_append, List.cons_append, List.append_assoc, List.append_assoc]
    rfl
  have hrun (s : List UInt8) : R.reader.run (encode before.chars ++ 0x7B :: s) =
      R.members true [] R.blank s := by
    show R.read _ = _
    rw [read, skipBlanks_space, skipBlanks_cons (b := 0x7B) rfl]
    rfl
  rw [← M.read?_eq]
  refine Reader.decode_toOption after ?_
  rw [hbytes, hrun, M.members_braces w hpairs]

/-! ## Known members in another order -/

variable {M} {ms ms' : List (String × Value)} {name : String} {v : Value} {set : α → α}

/-- It does not matter which of two fields is set first. -/
def Commutes (M : R.Meaning) : Prop :=
  ∀ {name name' v v' set set'}, name ≠ name' → M.set? name v = some set →
    M.set? name' v' = some set' → ∀ x, set (set' x) = set' (set x)

theorem build?_seen {seen seen' : List String} (h : ∀ m ∈ ms, m.1 ∈ seen ↔ m.1 ∈ seen') (x : α) :
    M.build? seen x ms = M.build? seen' x ms := by
  induction ms generalizing seen seen' x with
  | nil => rfl
  | cons m ms ih =>
    obtain ⟨hm, hms⟩ := List.forall_mem_cons.1 h
    have hrest (x : α) : M.build? (m.1 :: seen) x ms = M.build? (m.1 :: seen') x ms :=
      ih (fun k hk => by rw [List.mem_cons, List.mem_cons, hms k hk]) x
    simp only [build?, hm, hrest]

/-- A name that was seen before is not accepted. -/
theorem not_mem_of_build? {y : α} (h : M.build? seen x ms = some y) :
    (∀ m ∈ ms, m.1 ∉ seen) ∧ (ms.map Prod.fst).Nodup := by
  induction ms generalizing seen x with
  | nil => exact ⟨List.forall_mem_nil _, List.nodup_nil⟩
  | cons m ms ih =>
    rw [build?] at h
    split at h
    · cases h
    · rename_i hm
      obtain ⟨set, -, hrest⟩ := Option.bind_eq_some_iff.1 h
      obtain ⟨hnew, hnodup⟩ := ih hrest
      refine ⟨List.forall_mem_cons.2 ⟨hm, fun k hk hs => ?_⟩, List.nodup_cons.2 ⟨?_, hnodup⟩⟩
      · exact hnew k hk (List.mem_cons_of_mem m.1 hs)
      · intro hmem
        obtain ⟨k, hk, hname⟩ := List.mem_map.1 hmem
        exact hnew k hk (hname ▸ List.mem_cons_self)

theorem build?_swap (hc : M.Commutes) (m n : String × Value) (ms : List (String × Value)) :
    M.build? seen x (m :: n :: ms) = M.build? seen x (n :: m :: ms) := by
  simp only [build?]
  by_cases hm : m.1 ∈ seen
  · simp [hm]
  by_cases hn : n.1 ∈ seen
  · simp [hn]
  by_cases hmn : m.1 = n.1
  · simp [hmn]
  have hnm : n.1 ∉ m.1 :: seen := by simp [hn, Ne.symm hmn]
  have hmn' : m.1 ∉ n.1 :: seen := by simp [hm, hmn]
  simp only [if_neg hm, if_neg hn, if_neg hnm, if_neg hmn']
  cases hset : M.set? m.1 m.2 with
  | none => simp
  | some set =>
    cases hset' : M.set? n.1 n.2 with
    | none => rfl
    | some set' =>
      simp only [Option.bind_some]
      rw [hc hmn hset hset' x]
      exact build?_seen (fun k _ => by simp only [List.mem_cons]; tauto) _

/-- **Order.** If the fields commute, it does not matter in which order the members come. -/
theorem build?_perm (hc : M.Commutes) (h : ms.Perm ms') (seen : List String) (x : α) :
    M.build? seen x ms = M.build? seen x ms' := by
  induction h generalizing seen x with
  | nil => rfl
  | cons m _ ih => simp only [build?, ih]
  | swap m n ms => exact build?_swap hc n m ms
  | trans _ _ ih ih' => exact (ih seen x).trans (ih' seen x)

theorem build?_set (hc : M.Commutes) (hset : M.set? name v = some set)
    (hnew : ∀ m ∈ ms, m.1 ≠ name) (seen : List String) (x : α) :
    M.build? seen (set x) ms = (M.build? seen x ms).map set := by
  induction ms generalizing seen x with
  | nil => rfl
  | cons m ms ih =>
    obtain ⟨hm, hms⟩ := List.forall_mem_cons.1 hnew
    rw [build?, build?]
    split
    · rfl
    · cases hset' : M.set? m.1 m.2 with
      | none => rfl
      | some set' =>
        simp only [Option.bind_some]
        rw [hc hm hset' hset x, ih hms]

/-- A member in front of others with other names sets its field in what these make. -/
theorem build?_front (hc : M.Commutes) (hnew : ∀ m ∈ ms, m.1 ≠ name) (x : α) :
    M.build? [] x ((name, v) :: ms) =
      (M.set? name v).bind fun set => (M.build? [] x ms).map set := by
  rw [build?, if_neg List.not_mem_nil]
  refine Option.bind_congr fun set hset => ?_
  rw [← build?_set hc hset hnew]
  exact build?_seen (fun m hm => by simp [hnew m hm]) _

end Meaning

end Record

end Agenda.Json
