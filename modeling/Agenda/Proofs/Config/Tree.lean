import Agenda.Config.Source
import Agenda.Proofs.Text.Lowercase

/-!
# What sources do to a field

A tree of settings is looked at through the fields of its sections (`Value.at?`). What an entry of a
source does to a field is computed from its key and its value alone (`sourceEffect`): it leaves the
field alone, sets it to a single value, or puts something else in its place. The last entry that does
not leave the field alone decides.

* `Value.get?_setKey`, `Value.get?_setAt?_of_ne`: what is under a name of a table after a value was
  set.
* `holds_collect?`: a tree after the entries of a source is what their effect says.
-/
namespace Agenda.Config

open Toml (Scalar)

/-! ## Entries -/

theorem lookup_cons (n m : String) (v : Value) (es : Entries) :
    List.lookup n ((m, v) :: es) = if n = m then some v else es.lookup n := by
  by_cases h : n = m
  · rw [if_pos h, h, List.lookup_cons_self]
  · rw [if_neg h, List.lookup_cons, beq_false_of_ne h]

theorem mem_of_lookup {n : String} {v : Value} {es : Entries} (h : es.lookup n = some v) :
    (n, v) ∈ es := by
  obtain ⟨l₁, l₂, rfl, -⟩ := List.lookup_eq_some_iff.1 h
  exact List.mem_append_right l₁ List.mem_cons_self

theorem lookup_put (name n : String) (v : Value) (es : Entries) :
    (put name v es).lookup n = if n = name then some v else es.lookup n := by
  induction es with
  | nil => rw [put, lookup_cons]
  | cons e es ih =>
    obtain ⟨m, w⟩ := e
    rw [put, lookup_cons]
    by_cases hm : m = name
    · rw [if_pos hm, lookup_cons, hm]
      split_ifs <;> rfl
    · rw [if_neg hm, lookup_cons, ih]
      by_cases hn : n = m
      · rw [if_pos hn, if_pos hn, if_neg (hn ▸ hm)]
      · rw [if_neg hn, if_neg hn]

theorem mem_put {name : String} {v : Value} {es : Entries} {e : String × Value}
    (h : e ∈ put name v es) : e = (name, v) ∨ e ∈ es := by
  induction es with
  | nil => exact .inl (List.mem_singleton.1 h)
  | cons d es ih =>
    rw [put] at h
    split at h
    · exact (List.mem_cons.1 h).imp id (List.mem_cons_of_mem d)
    · rcases List.mem_cons.1 h with rfl | h
      · exact .inr List.mem_cons_self
      · exact (ih h).imp id (List.mem_cons_of_mem d)

theorem nodup_put {name : String} {v : Value} {es : Entries} (h : (es.map Prod.fst).Nodup) :
    ((put name v es).map Prod.fst).Nodup := by
  induction es with
  | nil => simp [put]
  | cons d es ih =>
    obtain ⟨hd, hes⟩ := List.nodup_cons.1 h
    rw [put]
    split_ifs with hname
    · rw [hname] at hd
      exact List.nodup_cons.2 ⟨hd, hes⟩
    · refine List.nodup_cons.2 ⟨fun hmem => ?_, ih hes⟩
      obtain ⟨e, he, hfst⟩ := List.mem_map.1 hmem
      rcases mem_put he with rfl | he
      · exact hname hfst.symm
      · exact hd (hfst ▸ List.mem_map_of_mem he)

namespace Value

/-! ## Names in a table -/

/-- The value under a name of a table. -/
def get? (name : String) (t : Value) : Option Value := t.asTable.2.lookup name

/-- What a value is after it was set over the one that was there: tables are merged. -/
def setOver : Value → Option Value → Value
  | table _ es, old => setEntries es (old.getD emptyTable)
  | v, _ => v

theorem setKey_eq (name : String) (v t : Value) :
    setKey name v t = table t.asTable.1 (put name (v.setOver (t.get? name)) t.asTable.2) := by
  cases v with
  | table origin es =>
    rw [setKey]
    rfl
  | _ =>
    rw [setKey]
    · rfl
    · exact fun _ _ h => nomatch h

theorem get?_setKey (name n : String) (v t : Value) :
    (setKey name v t).get? n = if n = name then some (v.setOver (t.get? name)) else t.get? n := by
  rw [setKey_eq]
  exact lookup_put _ _ _ _

@[simp] theorem setEntries_nil (t : Value) : setEntries [] t = t := by
  rw [setEntries]

theorem setEntries_cons (name : String) (v : Value) (es : Entries) (t : Value) :
    setEntries ((name, v) :: es) t = setEntries es (setKey (Text.lowered name) v t) := by
  rw [setEntries]

theorem setAt?_key_cons {v t t' : Value} {a : String} {step : Step} {path : List Step}
    (h : setAt? v (.key a :: step :: path) t = some t') :
    ∃ inner, setAt? v (step :: path) ((t.get? a).getD nothing) = some inner ∧
      t' = table t.asTable.1 (put a inner t.asTable.2) := by
  simp only [setAt?, Option.bind_eq_bind, Option.bind_eq_some_iff, Option.pure_def,
    Option.some.injEq] at h
  obtain ⟨inner, hinner, rfl⟩ := h
  exact ⟨inner, hinner, rfl⟩

/-- A path leaves the names alone that it does not begin with. -/
theorem get?_setAt?_of_ne {v t t' : Value} {a : String} {path : List Step}
    (h : setAt? v (.key a :: path) t = some t') {n : String} (hn : n ≠ a) :
    t'.get? n = t.get? n := by
  cases path with
  | nil =>
    cases h
    rw [get?_setKey, if_neg hn]
  | cons step path =>
    obtain ⟨inner, -, rfl⟩ := setAt?_key_cons h
    exact (lookup_put _ _ _ _).trans (if_neg hn)

/-- The value after a path that begins with a name is a table. -/
theorem eq_table_of_setAt?_key {v t t' : Value} {a : String} {path : List Step}
    (h : setAt? v (.key a :: path) t = some t') : t' = table t'.asTable.1 t'.asTable.2 := by
  cases path with
  | nil =>
    cases h
    rw [setKey_eq]
    rfl
  | cons step path =>
    obtain ⟨inner, -, rfl⟩ := setAt?_key_cons h
    rfl

end Value

/-! ## Effects -/

/-- What is done to a field. -/
inductive Effect where
  /-- It is left alone. -/
  | keeps
  | sets (x : Scalar)
  /-- Something else is put in its place, or in the place of its section. -/
  | spoils
  deriving DecidableEq, Repr

namespace Effect

/-- What is done by two in a row. -/
def andThen : Effect → Effect → Effect
  | e, keeps => e
  | _, e => e

/-- What is done by several in a row. -/
def total : List Effect → Effect
  | [] => keeps
  | e :: es => e.andThen (total es)

/-- What an effect says of the trees before and after, given how the field is found in a tree, and
whether there is room for it. -/
def Holds (look : Value → Option Value) (room : Value → Prop) (t t' : Value) : Effect → Prop
  | keeps => look t' = look t ∧ (room t → room t')
  | sets x => ∃ origin, look t' = some (.scalar origin x)
  | spoils => True

variable {look : Value → Option Value} {room : Value → Prop} {t t' t'' : Value}

theorem Holds.refl : keeps.Holds look room t t := ⟨rfl, id⟩

theorem Holds.andThen {e e' : Effect} (h : e.Holds look room t t')
    (h' : e'.Holds look room t' t'') : (e.andThen e').Holds look room t t'' := by
  cases e' with
  | keeps =>
    cases e with
    | keeps => exact ⟨h'.1.trans h.1, h'.2 ∘ h.2⟩
    | sets x => exact h.imp fun _ => h'.1.trans
    | spoils => trivial
  | sets x => exact h'
  | spoils => trivial

theorem keeps_andThen (e : Effect) : keeps.andThen e = e := by
  cases e <;> rfl

theorem andThen_assoc (e₁ e₂ e₃ : Effect) :
    (e₁.andThen e₂).andThen e₃ = e₁.andThen (e₂.andThen e₃) := by
  cases e₃ <;> rfl

theorem total_append (es es' : List Effect) : total (es ++ es') = (total es).andThen (total es') := by
  induction es with
  | nil => exact (keeps_andThen _).symm
  | cons e es ih => rw [List.cons_append, total, total, ih, andThen_assoc]

theorem total_eq_keeps {es : List Effect} (h : ∀ e ∈ es, e = keeps) : total es = keeps := by
  induction es with
  | nil => rfl
  | cons e es ih =>
    obtain ⟨he, hes⟩ := List.forall_mem_cons.1 h
    rw [total, ih hes, he]
    rfl

/-- What sets one value, or nothing, sets that value. -/
theorem total_eq_sets {es : List Effect} {x : Scalar} (hx : sets x ∈ es)
    (h : ∀ e ∈ es, e = sets x ∨ e = keeps) : total es = sets x := by
  induction es with
  | nil => cases hx
  | cons e es ih =>
    obtain ⟨he, hes⟩ := List.forall_mem_cons.1 h
    rw [total]
    by_cases hmem : sets x ∈ es
    · rw [ih hmem hes]
      rfl
    · have hkeeps : total es = keeps :=
        total_eq_keeps fun e he => (hes e he).resolve_left fun h => hmem (h ▸ he)
      rw [hkeeps]
      exact ((List.mem_cons.1 hx).resolve_right hmem).symm

/-- Where at most one entry has an effect, it is the effect of all. -/
theorem total_map_of_nodup {es : Entries} {n : String} {f : String × Value → Effect}
    (hes : (es.map Prod.fst).Nodup) (hf : ∀ e ∈ es, e.1 ≠ n → f e = keeps) :
    total (es.map f) = ((es.lookup n).map fun v => f (n, v)).getD keeps := by
  induction es with
  | nil => rfl
  | cons e es ih =>
    obtain ⟨m, v⟩ := e
    obtain ⟨hm, hes⟩ := List.nodup_cons.1 hes
    obtain ⟨hfm, hf⟩ := List.forall_mem_cons.1 hf
    rw [List.map_cons, total, lookup_cons]
    by_cases hn : n = m
    · have hrest : total (es.map f) = keeps := by
        have hnone : es.lookup n = none :=
          List.lookup_eq_none_iff.2 fun e he => bne_iff_ne.2 fun h =>
            hm (List.mem_map.2 ⟨e, he, h.symm.trans hn⟩)
        rw [ih hes hf, hnone]
        rfl
      rw [hrest, if_pos hn, hn]
      rfl
    · rw [hfm (Ne.symm hn), ih hes hf, if_neg hn]
      cases h : ((es.lookup n).map fun v => f (n, v)).getD keeps <;> rfl

end Effect

/-! ## Entries of a table -/

namespace Value

def IsTable (v : Value) : Prop := ∃ origin es, v = table origin es

/-- What a value does to the field in whose place it is put. -/
def fieldEffect : Value → Effect
  | scalar _ x => .sets x
  | _ => .spoils

end Value

/-- What the entries of a table do to the field of a name when they are set in its section. -/
def tableEffect (name : String) (es : Entries) : Effect :=
  .total (es.map fun e => if Text.lowered e.1 = name then e.2.fieldEffect else .keeps)

theorem holds_setKey (name n : String) (v t : Value) :
    (if n = name then v.fieldEffect else .keeps).Holds (Value.get? name) Value.IsTable t
      (Value.setKey n v t) := by
  split_ifs with h
  · cases v with
    | scalar origin x => exact ⟨origin, by rw [Value.get?_setKey, if_pos h.symm]; rfl⟩
    | _ => trivial
  · exact ⟨by rw [Value.get?_setKey, if_neg (Ne.symm h)],
      fun _ => ⟨_, _, Value.setKey_eq n v t⟩⟩

theorem holds_setEntries (name : String) (es : Entries) (t : Value) :
    (tableEffect name es).Holds (Value.get? name) Value.IsTable t (Value.setEntries es t) := by
  induction es generalizing t with
  | nil =>
    rw [Value.setEntries_nil]
    exact .refl
  | cons e es ih =>
    obtain ⟨n, v⟩ := e
    rw [Value.setEntries_cons]
    exact (holds_setKey name (Text.lowered n) v t).andThen (ih _)

/-! ## Paths -/

namespace Value

/-- The value of a field of a section. -/
def at? (sec name : String) (t : Value) : Option Value := (t.get? sec).bind (get? name)

/-- The section is a table, if it is there. -/
def HasRoom (sec : String) (t : Value) : Prop := ∀ w, t.get? sec = some w → w.IsTable

end Value

/-- What a value does to a field when it is put at the end of a path. -/
def pathEffect (sec name : String) (v : Value) : List Value.Step → Effect
  | [.key s] =>
    if s ≠ sec then .keeps
    else match v with
      | .table _ es => tableEffect name es
      | _ => .spoils
  | [.key s, .key n] => if s ≠ sec ∨ n ≠ name then .keeps else v.fieldEffect
  | .key s :: .key n :: _ => if s ≠ sec ∨ n ≠ name then .keeps else .spoils
  | .key s :: _ => if s ≠ sec then .keeps else .spoils
  | _ => .spoils

theorem pathEffect_of_ne {sec name s : String} {v : Value} {path : List Value.Step} (h : s ≠ sec) :
    pathEffect sec name v (.key s :: path) = .keeps := by
  unfold pathEffect
  split <;> simp_all

theorem pathEffect_table (sec name : String) (origin : Option String) (es : Entries) :
    pathEffect sec name (.table origin es) [.key sec] = tableEffect name es := by
  simp [pathEffect]

section Paths

variable {sec name s : String} {v t t' : Value} {path : List Value.Step}

open Value

theorem holds_keeps_of_ne (h : setAt? v (.key s :: path) t = some t') (hs : s ≠ sec) :
    Effect.keeps.Holds (at? sec name) (HasRoom sec) t t' := by
  have hget := get?_setAt?_of_ne h hs.symm
  exact ⟨by rw [at?, hget, at?], fun hroom => by rwa [HasRoom, hget]⟩

/-- What is done within a section is done to its field. -/
theorem holds_of_section {w w' : Value} {e : Effect} (hw : w.get? name = t.at? sec name)
    (hroom : t.HasRoom sec → w.IsTable ∨ w'.IsTable) (hw' : t'.get? sec = some w')
    (h : e.Holds (get? name) IsTable w w') : e.Holds (at? sec name) (HasRoom sec) t t' := by
  have hat : t'.at? sec name = w'.get? name := by rw [at?, hw', Option.bind_some]
  cases e with
  | keeps =>
    refine ⟨by rw [hat, h.1, hw], fun ht w'' hw'' => ?_⟩
    obtain rfl : w' = w'' := Option.some.inj (hw'.symm.trans hw'')
    exact (hroom ht).elim h.2 id
  | sets x => exact h.imp fun _ => hat.trans
  | spoils => trivial

/-- The entries of a table that is set over a section are set in it. -/
theorem holds_setKey_table {origin : Option String} {es : Entries} :
    (tableEffect name es).Holds (at? sec name) (HasRoom sec) t (setKey sec (table origin es) t) := by
  refine holds_of_section (w := (t.get? sec).getD emptyTable) ?_ (fun hroom => .inl ?_)
    ((get?_setKey sec sec _ t).trans (if_pos rfl)) (holds_setEntries name es _)
  · rw [at?]
    cases t.get? sec <;> rfl
  · cases h : t.get? sec with
    | none => exact ⟨none, [], rfl⟩
    | some w => exact hroom w h

/-- A value is put below a section at a path that begins with a name. -/
theorem holds_setAt?_below (name : String) {n : String}
    (h : setAt? v (.key sec :: .key n :: path) t = some t') :
    (if n ≠ name then .keeps else if path = [] then v.fieldEffect else .spoils : Effect).Holds
      (at? sec name) (HasRoom sec) t t' := by
  obtain ⟨w', hw', rfl⟩ := setAt?_key_cons h
  have hlook : ((t.get? sec).getD nothing).get? name = t.at? sec name := by
    rw [at?]
    cases t.get? sec <;> rfl
  refine holds_of_section hlook (fun _ => .inr ⟨_, _, eq_table_of_setAt?_key hw'⟩)
    ((lookup_put _ _ _ _).trans (if_pos rfl)) ?_
  split_ifs with hn hpath
  · exact ⟨get?_setAt?_of_ne hw' hn.symm, fun _ => ⟨_, _, eq_table_of_setAt?_key hw'⟩⟩
  · subst hpath
    cases hw'
    have hset := holds_setKey name n v ((t.get? sec).getD nothing)
    rwa [if_pos (not_not.1 hn)] at hset
  · trivial

/-- The tree after a value is put at the end of a path. -/
theorem holds_setAt? (h : setAt? v path t = some t') :
    (pathEffect sec name v path).Holds (at? sec name) (HasRoom sec) t t' := by
  cases path with
  | nil => trivial
  | cons step path =>
    cases step with
    | index i => trivial
    | key s =>
      by_cases hs : s = sec
      · subst hs
        -- At the end of its path a table is merged into the section, and anything else replaces it.
        cases path with
        | nil =>
          cases h
          cases v with
          | table origin es =>
            rw [pathEffect_table]
            exact holds_setKey_table
          | _ => simp [pathEffect, Effect.Holds]
        | cons step path =>
          cases step with
          | index i => simp [pathEffect, Effect.Holds]
          | key n =>
            have hbelow := holds_setAt?_below name h
            cases path <;> simpa [pathEffect] using hbelow
      · rw [pathEffect_of_ne hs]
        exact holds_keeps_of_ne h hs

end Paths

/-! ## Sources -/

/-- The path that a key of a source stands for. -/
def Path.ofKey (key : String) : List Value.Step :=
  (Path.parse? (Text.lowered key)).getD [.key (Text.lowered key)]

/-- What the entries of a source do to a field. -/
def sourceEffect (sec name : String) (es : Entries) : Effect :=
  .total (es.map fun e => pathEffect sec name e.2 (Path.ofKey e.1))

/-- A tree after the entries of a source is what their effect says. -/
theorem holds_collect? (sec name : String) {es : Entries} {t t' : Value}
    (h : collect? es t = some t') :
    (sourceEffect sec name es).Holds (Value.at? sec name) (Value.HasRoom sec) t t' := by
  induction es generalizing t with
  | nil =>
    cases h
    exact .refl
  | cons e es ih =>
    obtain ⟨key, v⟩ := e
    obtain ⟨t₁, hset, hrest⟩ := Option.bind_eq_some_iff.1 h
    exact (holds_setAt? hset).andThen (ih hrest)

theorem collect?_append (es es' : Entries) (t : Value) :
    collect? (es ++ es') t = (collect? es t).bind (collect? es') := by
  induction es generalizing t with
  | nil => rfl
  | cons e es ih =>
    obtain ⟨key, v⟩ := e
    rw [List.cons_append, collect?, collect?, Option.bind_assoc, funext ih]

end Agenda.Config
