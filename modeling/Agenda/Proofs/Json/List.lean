import Agenda.Proofs.Json.Record
import Mathlib.Data.List.Forall2

/-!
# Written lists are read back

The program writes lists but reads none; a client of it does. A list of any length is read by the
steps with which a record is read that is written as a list of its fields.

* `Reader.list`: reads a list of values.
* `Reader.list_reads`: a list of values that are each read back is read back.
-/
namespace Agenda.Json

open Text.Utf8 Record

variable {α : Type} {p : Reader α} {r s : List UInt8} {first : Bool} {a : α} {as : List α}
  {text : List Char} {texts : List (List Char)}

/-! ## Reading -/

/-- An item after the first one follows a comma. -/
theorem nextItem_length_lt (h : nextItem false s = .ok (some r)) : r.length < s.length := by
  have hs := skipBlanks_length s
  unfold nextItem at h
  split at h
  · cases h
  · rename_i b t heq
    rw [heq, List.length_cons] at hs
    have ht := skipBlanks_length t
    split at h
    · cases h
    · split at h
      · rename_i hf; cases hf
      · split at h
        · split at h
          · cases h
          · rename_i c u heq'
            rw [heq', List.length_cons] at ht
            split at h
            · cases h
            · cases h
              rw [List.length_cons]
              omega
        · cases h

namespace Reader

/-- Reads the items of a list up to its end. -/
def items (p : Reader α) (first : Bool) (s : List UInt8) :
    Except Failure (List α × List UInt8) :=
  match _hn : nextItem first s with
  | .error e => .error e
  | .ok none => (endList s).map ([], ·)
  | .ok (some t) =>
    match _hp : p.run t with
    | .error e => .error e
    | .ok (a, r) => (p.items false r).map fun (as, r) => (a :: as, r)
termination_by (s.length, first.toNat)
decreasing_by
  have hrun := p.run_length _hp
  cases first with
  | true =>
    have hlen := nextItem_length _hn
    rcases Nat.lt_or_eq_of_le (Nat.le_trans hrun hlen) with h | h
    · exact .left _ _ h
    · rw [h]
      exact .right _ (by decide)
  | false =>
    exact .left _ _ (Nat.lt_of_le_of_lt hrun (nextItem_length_lt _hn))

theorem items_length (h : p.items first s = .ok (as, r)) : r.length ≤ s.length := by
  fun_induction p.items first s generalizing as r with
  | case1 => cases h
  | case2 first s hn =>
    obtain ⟨_, he, heq⟩ := map_eq_ok.1 h
    cases heq
    exact endList_length he
  | case3 => cases h
  | case4 first s t hn a u hp ih =>
    obtain ⟨⟨as', r'⟩, hi, heq⟩ := map_eq_ok.1 h
    cases heq
    have hitem := nextItem_length hn
    have hrun := p.run_length hp
    have hrest := ih hi
    omega

/-- The bytes of a list, without its opening bracket. -/
def afterBracket (s : List UInt8) : Except Failure (List UInt8) :=
  match skipBlanks s with
  | [] => .error ⟨.endOfValue, []⟩
  | b :: r => if b = 0x5B then .ok r else .error (unexpected "a sequence" (b :: r))

theorem afterBracket_length (h : afterBracket s = .ok r) : r.length ≤ s.length := by
  have hs := skipBlanks_length s
  unfold afterBracket at h
  split at h
  · cases h
  · rename_i b t heq
    rw [heq, List.length_cons] at hs
    split at h
    · cases h
      omega
    · cases h

/-- Reads a list of values. -/
def list (p : Reader α) : Reader (List α) where
  run s := (afterBracket s).bind (p.items true)
  run_length {s as r} h := by
    cases hb : afterBracket s with
    | error e => rw [hb] at h; cases h
    | ok t =>
      rw [hb] at h
      exact Nat.le_trans (items_length h) (afterBracket_length hb)

end Reader

/-! ## Items -/

/-- The text begins as an item of a list can begin. -/
def StartsItem (text : List Char) : Prop :=
  ∃ b s, encode text = b :: s ∧ isBlank b = false ∧ b ≠ 0x5D

theorem startsItem_writeObject (members : List (List Char)) :
    StartsItem (writeObject members) := by
  have h := encode_writeObject members []
  rw [List.append_nil] at h
  exact ⟨_, _, h, rfl, by decide⟩

theorem nextItem_first (h : StartsItem text) (r : List UInt8) :
    nextItem true (encode text ++ r) = .ok (some (encode text ++ r)) := by
  obtain ⟨b, s, hs, hblank, hb⟩ := h
  rw [hs, List.cons_append, nextItem, skipBlanks_cons hblank]
  simp only [if_neg hb, if_true]

theorem nextItem_comma (h : StartsItem text) (r : List UInt8) :
    nextItem false (0x2C :: (encode text ++ r)) = .ok (some (encode text ++ r)) := by
  obtain ⟨b, s, hs, hblank, hb⟩ := h
  rw [hs, List.cons_append, nextItem, skipBlanks_cons (b := 0x2C) rfl]
  simp only [skipBlanks_cons hblank, if_neg hb, Bool.false_eq_true, if_true, if_false,
    show ¬ (0x2C : UInt8) = 0x5D by decide]

theorem nextItem_end (first : Bool) (r : List UInt8) :
    nextItem first (0x5D :: r) = .ok none := by
  rw [nextItem, skipBlanks_cons (b := 0x5D) rfl]
  rfl

namespace Reader

theorem items_end (p : Reader α) (first : Bool) (r : List UInt8) :
    p.items first (0x5D :: r) = .ok ([], r) := by
  have hend : endList (0x5D :: r) = .ok r := by
    rw [endList, skipBlanks_cons (b := 0x5D) rfl]
    rfl
  rw [items]
  split
  · simp_all [nextItem_end]
  · rw [hend]
    rfl
  · simp_all [nextItem_end]

theorem items_item {t : List UInt8} (hn : nextItem first s = .ok (some t))
    (hp : p.run t = .ok (a, r)) :
    p.items first s = (p.items false r).map fun (as, r) => (a :: as, r) := by
  rw [items]
  split
  · simp_all
  · simp_all
  · rename_i hn'
    rw [hn] at hn'
    cases hn'
    split
    · simp_all
    · rename_i hp'
      rw [hp] at hp'
      cases hp'
      rfl

theorem items_written (h : List.Forall₂ p.Reads texts as) (hs : ∀ t ∈ texts, StartsItem t) :
    p.items false (encode (more texts) ++ 0x5D :: r) = .ok (as, r) := by
  induction h with
  | nil => exact items_end p false r
  | cons hread hrest ih =>
    rename_i t a ts as
    obtain ⟨ht, hts⟩ := List.forall_mem_cons.1 hs
    rw [encode_more, items_item (nextItem_comma ht _)
      (hread _ (valueEnds_more ts (valueEnds_bracket r))), ih hts]
    rfl

/-- **Lists.** A list is read as the values that its items are read as. -/
theorem list_reads (h : List.Forall₂ p.Reads texts as) (hs : ∀ t ∈ texts, StartsItem t) :
    p.list.Reads (writeList texts) as := by
  intro r _
  have hclose : encode [']'] = [0x5D] := by decide
  have hopen (s : List UInt8) : p.list.run (0x5B :: s) = p.items true s := by
    show (afterBracket (0x5B :: s)).bind _ = _
    rw [afterBracket, skipBlanks_cons (b := 0x5B) rfl]
    rfl
  rw [writeList, encode_append, encode_cons, hclose, List.append_assoc, List.append_assoc]
  show p.list.run (0x5B :: (encode (List.intercalate [','] texts) ++ 0x5D :: r)) = _
  rw [hopen]
  cases h with
  | nil => exact items_end p true r
  | cons hread hrest =>
    rename_i t a ts as
    obtain ⟨ht, hts⟩ := List.forall_mem_cons.1 hs
    rw [intercalate_comma, encode_append, List.append_assoc, items_item (nextItem_first ht _)
      (hread _ (valueEnds_more ts (valueEnds_bracket r))), items_written hrest hts]
    rfl

end Reader

end Agenda.Json
