import Agenda.Proofs.Json.Object

/-!
# Records in lists

A list is read as a record field by field, in the order of the fields. There may be fewer items than
fields, but not more.

* `Meaning.fill?`: what the items of a list make of a record.
* `Meaning.decode_list`: a list is read as what its items make of the blank record.
* `fill?_set`: a field that is set before all others.
-/
namespace Agenda.Json

open Text.Utf8

namespace Record

variable {α : Type} {R : Record α} {x : α} {i : Item} {first : Bool} {r s : List UInt8}

/-! ## Items -/

/-- What follows the value of an item, and the value. -/
theorem skipBlanks_item (hv : ValueText i.value i.text) (s : List UInt8) :
    ∃ b t, encode i.text ++ (encode i.after.chars ++ s) = b :: t ∧ b ≠ 0x5D ∧
      skipBlanks (encode i.full ++ s) = b :: t := by
  obtain ⟨b, t, ht, hb⟩ := hv.begins
  refine ⟨b, t ++ (encode i.after.chars ++ s), by rw [ht, List.cons_append], hb.ne_bracket, ?_⟩
  rw [Item.full, encode_append, encode_append, List.append_assoc, List.append_assoc,
    skipBlanks_space, ht, List.cons_append, skipBlanks_cons hb.not_blank]

theorem nextItem_item (w : Space) (hv : ValueText i.value i.text) (s : List UInt8) :
    nextItem true (encode w.chars ++ (encode i.full ++ s)) =
      .ok (some (encode i.text ++ (encode i.after.chars ++ s))) := by
  obtain ⟨b, t, ht, hb, hskip⟩ := skipBlanks_item hv s
  rw [nextItem, skipBlanks_space, hskip, ht]
  simp only [if_neg hb, if_true]

theorem nextItem_comma_item (w : Space) (hv : ValueText i.value i.text) (s : List UInt8) :
    nextItem false (encode w.chars ++ 0x2C :: (encode i.full ++ s)) =
      .ok (some (encode i.text ++ (encode i.after.chars ++ s))) := by
  obtain ⟨b, t, ht, hb, hskip⟩ := skipBlanks_item hv s
  rw [nextItem, skipBlanks_space, skipBlanks_cons (b := 0x2C) rfl, ht]
  simp only [hskip, if_neg hb, Bool.false_eq_true, if_true, if_false,
    show ¬ (0x2C : UInt8) = 0x5D by decide]

theorem nextItem_bracket (first : Bool) (w : Space) (r : List UInt8) :
    nextItem first (encode w.chars ++ 0x5D :: r) = .ok none := by
  rw [nextItem, skipBlanks_space, skipBlanks_cons (b := 0x5D) rfl]
  rfl

theorem endList_bracket (w : Space) (r : List UInt8) :
    endList (encode w.chars ++ 0x5D :: r) = .ok r := by
  rw [endList, skipBlanks_space, skipBlanks_cons (b := 0x5D) rfl]
  rfl

/-- There are no items after those of the fields. -/
theorem endList_comma (w : Space) (s : List UInt8) :
    (endList (encode w.chars ++ 0x2C :: s)).toOption = none := by
  rw [endList, skipBlanks_space, skipBlanks_cons (b := 0x2C) rfl]
  simp only [show ¬ (0x2C : UInt8) = 0x5D by decide, if_false, if_true]
  split <;> rfl

/-- Reads items and the end of their list. -/
def itemsToEnd (first : Bool) (x : α) (fs : List (Field α)) (s : List UInt8) :
    Except Failure (α × List UInt8) :=
  (items first x fs s).bind fun (x, r) => (endList r).map (x, ·)

theorem itemsToEnd_bracket (first : Bool) (x : α) (fs : List (Field α)) (w : Space) (r : List UInt8) :
    itemsToEnd first x fs (encode w.chars ++ 0x5D :: r) = .ok (x, r) := by
  have hitems : items first x fs (encode w.chars ++ 0x5D :: r) =
      .ok (x, encode w.chars ++ 0x5D :: r) := by
    cases fs with
    | nil => rfl
    | cons f fs => rw [items, nextItem_bracket]
  rw [itemsToEnd, hitems]
  show (endList _).map _ = _
  rw [endList_bracket]
  rfl

theorem list_eq (R : Record α) (s : List UInt8) : R.list s = itemsToEnd true R.blank R.fields s := by
  rw [list, itemsToEnd]
  cases items true R.blank R.fields s <;> rfl

namespace Meaning

variable (M : R.Meaning)

/-- What the items of a list make of a record, one field after the other. -/
def fill? (x : α) : List (Field α) → List Value → Option α
  | [], [] => some x
  | [], _ :: _ => none
  | _ :: _, [] => some x
  | f :: fs, v :: vs => (M.set? f.name v).bind fun set => fill? (set x) fs vs

/-- The loop goes on with the record that an item makes. -/
theorem itemsToEnd_item {f : Field α} {fs : List (Field α)} {vs : List Value} {t : List UInt8}
    (hf : f ∈ R.fields) (hv : ValueText i.value i.text) (hs : ValueEnds s)
    (hnext : nextItem first t = .ok (some (encode i.text ++ (encode i.after.chars ++ s))))
    (ih : ∀ x, (itemsToEnd false x fs (encode i.after.chars ++ s)).toOption =
      (M.fill? x fs vs).map (·, r)) :
    (itemsToEnd first x (f :: fs) t).toOption =
      (M.fill? x (f :: fs) (i.value :: vs)).map (·, r) := by
  have htake := M.takes f hf _ _ hv .empty _ (valueEnds_space i.after hs)
  have hempty : encode Space.empty.chars = [] := rfl
  rw [hempty, List.nil_append] at htake
  rw [itemsToEnd, items, hnext, fill?]
  simp only
  cases hset : M.set? f.name i.value with
  | none =>
    rw [hset] at htake
    split
    · rfl
    · rename_i hrun
      rw [hrun] at htake
      cases htake
  | some set =>
    rw [hset] at htake
    split
    · rename_i hrun
      rw [hrun] at htake
      cases htake
    · rename_i hrun
      rw [hrun] at htake
      obtain ⟨rfl, rfl⟩ := Prod.mk.inj (Option.some.inj htake)
      exact ih _

/-- Items after the first one, and the closing bracket. -/
theorem itemsToEnd_items {fs : List (Field α)} {its : List Item} (w : Space)
    (hfs : ∀ f ∈ fs, f ∈ R.fields) (h : ∀ i ∈ its, ValueText i.value i.text) :
    (itemsToEnd false x fs
        (encode w.chars ++ (encode (more (its.map Item.full)) ++ 0x5D :: r))).toOption =
      (M.fill? x fs (its.map Item.value)).map (·, r) := by
  have hend : encode (more []) ++ 0x5D :: r = 0x5D :: r := rfl
  induction fs generalizing x w its with
  | nil =>
    cases its with
    | nil =>
      rw [List.map_nil, hend, itemsToEnd_bracket]
      rfl
    | cons i its =>
      rw [itemsToEnd, items, List.map_cons, encode_more]
      show ((endList _).map _).toOption = _
      rw [toOption_map, endList_comma]
      rfl
  | cons f fs ih =>
    obtain ⟨hf, hfs⟩ := List.forall_mem_cons.1 hfs
    cases its with
    | nil =>
      rw [List.map_nil, hend, itemsToEnd_bracket]
      rfl
    | cons i its =>
      obtain ⟨hi, hits⟩ := List.forall_mem_cons.1 h
      rw [List.map_cons, encode_more]
      exact M.itemsToEnd_item hf hi (valueEnds_more _ (valueEnds_bracket r))
        (nextItem_comma_item w hi _) fun x => ih i.after hfs hits

/-- The items of a list in brackets. -/
theorem itemsToEnd_brackets {fs : List (Field α)} {its : List Item} (w : Space) (hne : fs ≠ [])
    (hfs : ∀ f ∈ fs, f ∈ R.fields) (h : ∀ i ∈ its, ValueText i.value i.text) :
    (itemsToEnd true x fs (encode w.chars ++
        (encode (List.intercalate [','] (its.map Item.full)) ++ 0x5D :: r))).toOption =
      (M.fill? x fs (its.map Item.value)).map (·, r) := by
  obtain ⟨f, fs, rfl⟩ := List.exists_cons_of_ne_nil hne
  obtain ⟨hf, hfs⟩ := List.forall_mem_cons.1 hfs
  cases its with
  | nil =>
    have hend : encode (List.intercalate [','] []) ++ 0x5D :: r = 0x5D :: r := rfl
    rw [List.map_nil, hend, itemsToEnd_bracket]
    rfl
  | cons i its =>
    obtain ⟨hi, hits⟩ := List.forall_mem_cons.1 h
    rw [List.map_cons, intercalate_comma, encode_append, List.append_assoc]
    exact M.itemsToEnd_item hf hi (valueEnds_more _ (valueEnds_bracket _)) (nextItem_item w hi _)
      fun x => M.itemsToEnd_items i.after hfs hits

/-- **Lists.** A list is read as what its items make of the blank record. -/
theorem decode_list (hne : R.fields ≠ []) {vs : List Value} {text : List Char}
    (h : ListText vs text) :
    (R.reader.decode (encode text)).toOption = M.fill? R.blank R.fields vs := by
  obtain ⟨before, w, its, after, hits⟩ := h
  have hbytes : encode (before.chars ++ (brackets w its ++ after.chars)) =
      encode before.chars ++ 0x5B :: (encode w.chars ++
        (encode (List.intercalate [','] (its.map Item.full)) ++ 0x5D :: encode after.chars)) := by
    rw [encode_append, encode_append, brackets, encode_ascii (by decide), encode_append,
      encode_append, List.cons_append, List.append_assoc, List.append_assoc]
    rfl
  have hrun (s : List UInt8) : R.reader.run (encode before.chars ++ 0x5B :: s) =
      itemsToEnd true R.blank R.fields s := by
    show R.read _ = _
    rw [read, skipBlanks_space, skipBlanks_cons (b := 0x5B) rfl]
    exact list_eq R s
  refine Reader.decode_toOption after ?_
  rw [hbytes, hrun]
  exact M.itemsToEnd_brackets w hne (fun _ hf => hf) hits

/-- A field that no item sets may be set first. -/
theorem fill?_set {M : R.Meaning} (hc : M.Commutes) {name : String} {v : Value} {set : α → α}
    (hset : M.set? name v = some set) {fs : List (Field α)} (hnew : ∀ f ∈ fs, f.name ≠ name)
    (vs : List Value) (x : α) : M.fill? (set x) fs vs = (M.fill? x fs vs).map set := by
  induction fs generalizing vs x with
  | nil => cases vs <;> rfl
  | cons f fs ih =>
    obtain ⟨hf, hfs⟩ := List.forall_mem_cons.1 hnew
    cases vs with
    | nil => rfl
    | cons v vs =>
      rw [fill?, fill?]
      cases hset' : M.set? f.name v with
      | none => rfl
      | some set' =>
        simp only [Option.bind_some]
        rw [hc hf hset' hset x, ih hfs]

end Meaning

end Record

end Agenda.Json
