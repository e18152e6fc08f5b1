import Agenda.Config.Settings
import Agenda.Proofs.Config.Tree
import Mathlib.Data.List.TakeDrop
import Mathlib.Data.List.TakeWhile

/-!
# Layers of settings

The names in the tree of a source are in lower case and stand for themselves, so setting this tree
over the defaults does to a field what the source does to it.

* `settled_collect?`: the tree of a source has such names, each once.
* `holds_layered`: the file and the variables, one after the other, do to the defaults what their
  effect says.
-/
namespace Agenda.Config

open Toml (Scalar)

/-! ## Names in paths -/

namespace Path

theorem readName_eq_some {cs rest : List Char} {name : String}
    (h : readName cs = some (name, rest)) :
    name ≠ "" ∧ name.toList = cs.takeWhile isNameChar ∧ rest = cs.dropWhile isNameChar := by
  simp only [readName, List.span_eq_takeWhile_dropWhile] at h
  split at h
  · cases h
  · next hne =>
    cases h
    refine ⟨fun hnil => hne ?_, String.toList_ofList, rfl⟩
    rw [← String.toList_ofList (l := cs.takeWhile isNameChar), hnil]
    rfl

theorem mem_of_mem_readIndex {cs rest : List Char} {i : Int} (h : readIndex cs = some (i, rest))
    {c : Char} (hc : c ∈ rest) : c ∈ cs := by
  simp only [readIndex, List.span_eq_takeWhile_dropWhile] at h
  split at h
  · next hrest =>
    obtain ⟨_, -, hpair⟩ := Option.map_eq_some_iff.1 h
    cases hpair
    have hsub := ((List.dropWhile_suffix isPad).trans
      ((List.dropWhile_suffix fun c => c.isDigit || c = '-').trans
        (List.dropWhile_suffix (l := cs) isPad))).subset
    exact hsub (hrest ▸ List.mem_cons_of_mem _ hc)
  · cases h

/-- The names in the steps of a path are made of characters of the text. -/
theorem mem_of_mem_readSteps {limit : Nat} {cs : List Char} {steps : List Value.Step}
    (h : readSteps limit cs = some steps) {name : String} (hname : .key name ∈ steps) {c : Char}
    (hc : c ∈ name.toList) : c ∈ cs := by
  induction limit generalizing cs steps with
  | zero =>
    cases cs with
    | nil =>
      cases h
      cases hname
    | cons d cs => cases h
  | succ limit ih =>
    cases cs with
    | nil =>
      cases h
      cases hname
    | cons d cs =>
      rw [readSteps] at h
      split_ifs at h
      · simp only [Option.bind_eq_bind, Option.bind_eq_some_iff, Option.pure_def,
          Option.some.injEq, Prod.exists] at h
        obtain ⟨n, rest, hn, more, hmore, rfl⟩ := h
        obtain ⟨-, hlist, rfl⟩ := readName_eq_some hn
        rcases List.mem_cons.1 hname with hkey | hname
        · cases hkey
          exact List.mem_cons_of_mem d ((List.takeWhile_prefix _).subset (hlist ▸ hc))
        · exact List.mem_cons_of_mem d ((List.dropWhile_suffix _).subset (ih hmore hname))
      · simp only [Option.bind_eq_bind, Option.bind_eq_some_iff, Option.pure_def,
          Option.some.injEq, Prod.exists] at h
        obtain ⟨i, rest, hi, more, hmore, rfl⟩ := h
        rcases List.mem_cons.1 hname with hkey | hname
        · cases hkey
        · exact List.mem_cons_of_mem d (mem_of_mem_readIndex hi (ih hmore hname))

/-- A name stands for itself. -/
theorem parse?_name {name : String} (hne : name ≠ "") (h : ∀ c ∈ name.toList, isNameChar c) :
    parse? name = some [.key name] := by
  have hread : readName name.toList = some (name, []) := by
    simp only [readName, List.span_eq_takeWhile_dropWhile, List.takeWhile_eq_self_iff.2 h,
      List.dropWhile_eq_nil_iff.2 h, String.ofList_toList]
    rw [if_neg]
    simpa [List.isEmpty_iff] using hne
  simp [parse?, hread, readSteps]

/-- A path begins with a name that stands for itself, and its names are in lower case. -/
theorem ofKey_cases (key : String) :
    ∃ name path, ofKey key = .key name :: path ∧ ofKey name = [.key name] ∧
      Text.lowered name = name ∧ ∀ n, .key n ∈ path → Text.lowered n = n := by
  cases hp : parse? (Text.lowered key) with
  | none =>
    refine ⟨Text.lowered key, [], ?_, ?_, Text.lowered_lowered key, fun n hn => by cases hn⟩
    · rw [ofKey, hp]
      rfl
    · rw [ofKey, Text.lowered_lowered, hp]
      rfl
  | some path =>
    simp only [parse?, Option.bind_eq_bind, Option.bind_eq_some_iff, Option.pure_def,
      Option.some.injEq, Prod.exists] at hp
    obtain ⟨name, rest, hname, steps, hsteps, rfl⟩ := hp
    obtain ⟨hne, hlist, rfl⟩ := readName_eq_some hname
    have hsmall : ∀ n : String, (∀ c ∈ n.toList, c ∈ (Text.lowered key).toList) →
        Text.lowered n = n := fun n hn =>
      Text.lowered_eq_self fun c hc => Text.isSmall_of_mem_lowered c (hn c hc)
    have hself : Text.lowered name = name :=
      hsmall name fun c hc => (List.takeWhile_prefix _).subset (hlist ▸ hc)
    refine ⟨name, steps, ?_, ?_, hself, fun n hn => hsmall n fun c hc => ?_⟩
    · simp [ofKey, parse?, hname, hsteps]
    · rw [ofKey, hself, parse?_name hne fun c hc => ?_, Option.getD_some]
      exact List.mem_takeWhile_imp (hlist ▸ hc)
    · exact (List.dropWhile_suffix _).subset (mem_of_mem_readSteps hsteps hn hc)

end Path

/-! ## The tree of a source -/

namespace Value

/-- The names of a table are in lower case, each once. -/
def Tidy (t : Value) : Prop :=
  (t.asTable.2.map Prod.fst).Nodup ∧ ∀ e ∈ t.asTable.2, Text.lowered e.1 = e.1

/-- A tree whose names stand for themselves, and those within its tables too. -/
structure Settled (t : Value) : Prop where
  nodup : (t.asTable.2.map Prod.fst).Nodup
  names : ∀ e ∈ t.asTable.2, Path.ofKey e.1 = [.key e.1]
  inner : ∀ e ∈ t.asTable.2, e.2.Tidy

theorem tidy_put {origin : Option String} {t w : Value} {name : String} (h : t.Tidy)
    (hname : Text.lowered name = name) : (table origin (put name w t.asTable.2)).Tidy := by
  refine ⟨nodup_put h.1, fun e he => ?_⟩
  rcases mem_put he with rfl | he
  · exact hname
  · exact h.2 e he

theorem tidy_setEntries {es : Entries} {t : Value} (h : t.Tidy) : (setEntries es t).Tidy := by
  induction es generalizing t with
  | nil => rwa [setEntries_nil]
  | cons e es ih =>
    obtain ⟨name, v⟩ := e
    rw [setEntries_cons, setKey_eq]
    exact ih (tidy_put h (Text.lowered_lowered name))

theorem tidy_of_asTable {t : Value} (h : t.asTable.2 = []) : t.Tidy := by
  simp [Tidy, h]

theorem tidy_getD {t d : Value} {name : String} (h : ∀ e ∈ t.asTable.2, e.2.Tidy) (hd : d.Tidy) :
    ((t.get? name).getD d).Tidy := by
  cases hget : t.get? name with
  | none => exact hd
  | some w => exact h (name, w) (mem_of_lookup hget)

/-- What is put at the end of a path below a section is in a tidy table, or in no table. -/
theorem tidy_setAt? {v t t' : Value} {step : Step} {path : List Step} (h : t.Tidy)
    (hstep : ∀ n, step = .key n → Text.lowered n = n)
    (hset : setAt? v (step :: path) t = some t') : t'.Tidy := by
  cases step with
  | key n =>
    cases path with
    | nil =>
      cases hset
      rw [setKey_eq]
      exact tidy_put h (hstep n rfl)
    | cons step path =>
      obtain ⟨inner, -, rfl⟩ := setAt?_key_cons hset
      exact tidy_put h (hstep n rfl)
  | index i =>
    simp only [setAt?, Option.bind_eq_bind, Option.bind_eq_some_iff, Option.pure_def,
      Option.some.injEq] at hset
    obtain ⟨n, -, inner, -, rfl⟩ := hset
    exact tidy_of_asTable rfl

theorem settled_put {origin : Option String} {t w : Value} {name : String} (h : t.Settled)
    (hname : Path.ofKey name = [.key name]) (hw : w.Tidy) :
    (table origin (put name w t.asTable.2)).Settled := by
  refine ⟨nodup_put h.nodup, fun e he => ?_, fun e he => ?_⟩
  · rcases mem_put he with rfl | he
    · exact hname
    · exact h.names e he
  · rcases mem_put he with rfl | he
    · exact hw
    · exact h.inner e he

end Value

theorem settled_setUnder? {key : String} {v t t' : Value} (h : t.Settled)
    (hset : setUnder? key v t = some t') : t'.Settled := by
  obtain ⟨name, path, hpath, hname, -, hlower⟩ := Path.ofKey_cases key
  have hset : Value.setAt? v (Path.ofKey key) t = some t' := hset
  rw [hpath] at hset
  cases path with
  | nil =>
    cases hset
    rw [Value.setKey_eq]
    refine Value.settled_put h hname ?_
    cases v with
    | table origin es => exact Value.tidy_setEntries (Value.tidy_getD h.inner (Value.tidy_of_asTable rfl))
    | _ => exact Value.tidy_of_asTable rfl
  | cons step path =>
    obtain ⟨inner, hinner, rfl⟩ := Value.setAt?_key_cons hset
    refine Value.settled_put h hname (Value.tidy_setAt? ?_ ?_ hinner)
    · exact Value.tidy_getD h.inner (Value.tidy_of_asTable rfl)
    · rintro n rfl
      exact hlower n List.mem_cons_self

theorem settled_collect? {es : Entries} {t t' : Value} (h : t.Settled)
    (hcollect : collect? es t = some t') : t'.Settled := by
  induction es generalizing t with
  | nil =>
    cases hcollect
    exact h
  | cons e es ih =>
    obtain ⟨key, v⟩ := e
    obtain ⟨t₁, hset, hrest⟩ := Option.bind_eq_some_iff.1 hcollect
    exact ih (settled_setUnder? h hset) hrest

/-! ## A settled tree as a source -/

/-- What the entries of a tidy table do to a field is what is in its place. -/
theorem tableEffect_of_tidy {t : Value} (h : t.Tidy) (name : String) :
    tableEffect name t.asTable.2 = ((t.get? name).map Value.fieldEffect).getD .keeps := by
  rw [tableEffect, Effect.total_map_of_nodup h.1 (n := name)]
  · cases hget : t.get? name with
    | none =>
      rw [Value.get?] at hget
      rw [hget]
      rfl
    | some w =>
      have hname := h.2 (name, w) (mem_of_lookup hget)
      rw [Value.get?] at hget
      simp [hget, hname]
  · exact fun e he hne => if_neg fun h' => hne ((h.2 e he).symm.trans h')

theorem sourceEffect_of_settled {t : Value} (h : t.Settled) (sec name : String) :
    sourceEffect sec name t.asTable.2 =
      ((t.get? sec).map fun w => pathEffect sec name w [.key sec]).getD .keeps := by
  rw [sourceEffect, Effect.total_map_of_nodup h.nodup (n := sec)]
  · cases hget : t.get? sec with
    | none =>
      rw [Value.get?] at hget
      rw [hget]
      rfl
    | some w =>
      have hname := h.names (sec, w) (mem_of_lookup hget)
      rw [Value.get?] at hget
      simp only [hget, Option.map_some, Option.getD_some, hname]
  · exact fun e he hne => by rw [h.names e he, pathEffect_of_ne hne]

theorem eq_table_of_get? {t w : Value} {name : String} (h : t.get? name = some w) :
    t = .table t.asTable.1 t.asTable.2 := by
  cases t with
  | table origin es => rfl
  | _ => cases h

/-- Where there is room for a field that is not there, a settled tree leaves it alone. -/
theorem sourceEffect_eq_keeps {t : Value} {sec name : String} (h : t.Settled)
    (hat : t.at? sec name = none) (hroom : t.HasRoom sec) :
    sourceEffect sec name t.asTable.2 = .keeps := by
  rw [sourceEffect_of_settled h]
  cases hsec : t.get? sec with
  | none => rfl
  | some w =>
    obtain ⟨origin, es, rfl⟩ := hroom w hsec
    rw [Value.at?, hsec, Option.bind_some] at hat
    have htable := tableEffect_of_tidy (h.inner _ (mem_of_lookup hsec)) name
    rw [hat] at htable
    rw [Option.map_some, Option.getD_some, pathEffect_table]
    exact htable

/-- A settled tree sets what it has in the place of a field. -/
theorem sourceEffect_eq_sets {t : Value} {sec name : String} {origin : Option String} {x : Scalar}
    (h : t.Settled) (hat : t.at? sec name = some (.scalar origin x)) :
    sourceEffect sec name t.asTable.2 = .sets x := by
  obtain ⟨w, hsec, hw⟩ := Option.bind_eq_some_iff.1 hat
  have htable := tableEffect_of_tidy (h.inner _ (mem_of_lookup hsec)) name
  rw [hw] at htable
  rw [sourceEffect_of_settled h, hsec, Option.map_some, Option.getD_some, eq_table_of_get? hw,
    pathEffect_table]
  exact htable

/-- The file and the variables, one after the other, do to the defaults what their effect says. -/
theorem holds_layered {file : Entries} {vars : List (String × String)} {tree : Value}
    (h : layered file vars = .ok tree) (sec name : String) :
    (sourceEffect sec name (file ++ environment vars)).Holds (Value.at? sec name)
      (Value.HasRoom sec) defaults tree := by
  obtain ⟨own, hown, htree⟩ : ∃ own, collect? (file ++ environment vars) Value.emptyTable = some own ∧
      collect? own.asTable.2 defaults = some tree := by
    simp only [layered] at h
    split at h
    · next t htree =>
      cases h
      simp only [Option.bind_eq_bind, Option.bind_eq_some_iff] at htree
      obtain ⟨t₁, h₁, t₂, h₂, h₃⟩ := htree
      exact ⟨t₂, by rw [collect?_append, h₁, Option.bind_some, h₂], h₃⟩
    · cases h
  -- The sources make a tree of their own first, whose entries then are one source over the defaults.
  have hempty : Value.emptyTable.Settled :=
    ⟨List.nodup_nil, List.forall_mem_nil _, List.forall_mem_nil _⟩
  have hsettled := settled_collect? hempty hown
  have hholds := holds_collect? sec name hown
  have hset := holds_collect? sec name htree
  cases he : sourceEffect sec name (file ++ environment vars) with
  | keeps =>
    rw [he] at hholds
    have hroom : own.HasRoom sec := hholds.2 fun w hw => nomatch hw
    rwa [sourceEffect_eq_keeps hsettled hholds.1 hroom] at hset
  | sets x =>
    rw [he] at hholds
    obtain ⟨origin, hat⟩ := hholds
    rwa [sourceEffect_eq_sets hsettled hat] at hset
  | spoils => trivial

end Agenda.Config
