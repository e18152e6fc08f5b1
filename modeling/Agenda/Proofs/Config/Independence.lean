import Agenda.Proofs.Config.Environment
import Mathlib.Data.List.Nodup

/-!
# Independent settings

A file that assigns single values to settings, and variables of settings over it, leave each setting to
the highest source that assigns it (`Setting.source`). Nothing else in the file and in the environment
matters for it.

* `Setting.effect_file`, `Setting.effect_variables`: what the file and the variables do to a setting is
  their last assignment to it.
* `Start.ofScalar?_source`: a setting is what its type makes of the value of its source.
* `Start.get_eq_of_source_eq`: two starts with the same source of a setting have the same setting.
-/
namespace Agenda

open Toml (Scalar)

/-- The single value of an item; a date or a time is a text. -/
def Toml.Item.scalar? : Toml.Item → Option Scalar
  | .scalar x => some x
  | .moment text => some (.text text)
  | _ => none

namespace Config

/-! ## Last assignments -/

section Last

variable {α β γ : Type}

/-- What the last element gives that gives anything. -/
def last? (f : α → Option β) (as : List α) : Option β := as.reverse.findSome? f

theorem last?_cons (f : α → Option β) (a : α) (as : List α) :
    last? f (a :: as) = (last? f as).or (f a) := by
  rw [last?, List.reverse_cons, List.findSome?_append, last?]
  cases h : f a <;> simp [h]

theorem map_last? (g : β → γ) (f : α → Option β) (as : List α) :
    (last? f as).map g = last? (fun a => (f a).map g) as :=
  List.map_findSome? ..

/-- The effect of an assignment, if there is one. -/
def Effect.ofOption : Option Scalar → Effect
  | some x => .sets x
  | none => .keeps

theorem Effect.ofOption_or (a b : Option Scalar) :
    ofOption (b.or a) = (ofOption a).andThen (ofOption b) := by
  cases b <;> rfl

/-- Of assignments in a row, the last one has its effect. -/
theorem Effect.total_eq_last {e : α → Effect} {f : α → Option Scalar} {as : List α}
    (h : ∀ a ∈ as, e a = ofOption (f a)) : total (as.map e) = ofOption (last? f as) := by
  induction as with
  | nil => rfl
  | cons a as ih =>
    obtain ⟨ha, has⟩ := List.forall_mem_cons.1 h
    rw [List.map_cons, total, ih has, ha, last?_cons, ofOption_or]

end Last

/-! ## Variables -/

namespace Setting

def all : List Setting :=
  [loggerLevel, loggerPath, databaseInMemory, databaseHost, databasePort, databaseUser,
    databasePassword, databaseDb, databasePoolSize, httpHost, httpPort, httpShutdownTimeout, brokers,
    brokerGroup, consumeTopic, produceTopic, serviceName, scheduleCron]

theorem mem_all (k : Setting) : k ∈ all := by
  cases k <;> decide

theorem key_injective : Function.Injective key := fun k k' h =>
  List.inj_on_of_nodup_map (show (all.map key).Nodup by decide +kernel) k.mem_all k'.mem_all h

/-- The names of the setting and its section tell it from every other setting. -/
theorem eq_of_names {k k' : Setting} (hgroup : k.group.key = k'.group.key) (hname : k.name = k'.name) :
    k = k' :=
  key_injective (by rw [key, key, hgroup, hname])

/-- A single value under the key of another setting leaves the setting alone. -/
theorem effect_key_of_ne {k k' : Setting} (h : k' ≠ k) (origin : Option String) (x : Scalar) :
    k.effect [(k'.key, .scalar origin x)] = .keeps := by
  have hne : k'.group.key ≠ k.group.key ∨ k'.name ≠ k.name := by
    by_contra hall
    obtain ⟨hgroup, hname⟩ := not_or.1 hall
    exact h (eq_of_names (not_not.1 hgroup) (not_not.1 hname))
  simp only [effect, sourceEffect, List.map_cons, List.map_nil, ofKey_key, pathEffect, if_pos hne]
  rfl

/-- The last text among the variables of the setting. -/
def variableText? (k : Setting) (vars : List (String × String)) : Option String :=
  last? (fun x => if variableKey? x.1 = some k.key then some x.2 else none) vars

end Setting

/-- Variables with the prefix of the service are variables of settings. -/
def SettingVariables (vars : List (String × String)) : Prop :=
  ∀ x ∈ vars, variableKey? x.1 = none ∨ ∃ k ∈ Setting.all, variableKey? x.1 = some k.key

instance (vars : List (String × String)) : Decidable (SettingVariables vars) :=
  inferInstanceAs (Decidable (∀ x ∈ vars, _ ∨ _))

/-- What the variables do to a setting is the last one that is its variable. -/
theorem Setting.effect_variables (k : Setting) {vars : List (String × String)}
    (h : SettingVariables vars) :
    k.effect (environment vars) = .ofOption ((k.variableText? vars).map variableValue) := by
  rw [effect_environment_eq, variableText?, map_last?]
  refine Effect.total_eq_last fun x hx => ?_
  rcases h x hx with hnone | ⟨k', -, hk'⟩
  · rw [if_neg (by rw [hnone]; exact nofun)]
    simp only [environment, List.filterMap_cons, hnone, Option.map_none]
    rfl
  · simp only [environment, List.filterMap_cons, List.filterMap_nil, hk', Option.map_some]
    by_cases heq : k' = k
    · rw [heq, if_pos rfl, k.effect_key]
      rfl
    · rw [if_neg fun hkey => heq (key_injective (Option.some.inj hkey)), effect_key_of_ne heq]
      rfl

/-! ## Files -/

/-- The sections with settings. -/
def sections : List Section :=
  [loggerSection, databaseSection, httpSection, brokerSection, scheduleSection]

/-- A table that assigns single values to settings of a section. -/
def AssignsIn (s : Section) : Toml.Item → Prop
  | .table _ items => ∀ e ∈ items, Text.lowered e.1 ∈ s.fields ∧ e.2.scalar?.isSome
  | _ => False

instance (s : Section) : DecidablePred (AssignsIn s)
  | .table _ items => inferInstanceAs (Decidable (∀ e ∈ items, _ ∧ _))
  | .scalar _ | .moment _ | .array _ | .elements _ => inferInstanceAs (Decidable False)

/-- A document that assigns single values to settings, and nothing else. Names are in any case. -/
def SettingsFile (doc : Toml.Entries) : Prop :=
  ∀ e ∈ doc, ∃ s ∈ sections, Text.lowered e.1 = s.key ∧ AssignsIn s e.2

instance (doc : Toml.Entries) : Decidable (SettingsFile doc) :=
  inferInstanceAs (Decidable (∀ e ∈ doc, ∃ s ∈ sections, _ ∧ _))

namespace Setting

/-- The last value that a table of a section gives for the setting. -/
def tableValue? (k : Setting) : Toml.Item → Option Scalar
  | .table _ items => last? (fun e => if Text.lowered e.1 = k.name then e.2.scalar? else none) items
  | _ => none

/-- The last value that a document assigns to the setting. -/
def fileValue? (k : Setting) (doc : Toml.Entries) : Option Scalar :=
  last? (fun e => if Text.lowered e.1 = k.group.key then k.tableValue? e.2 else none) doc

end Setting

theorem ofItem?_scalar {origin : String} {item : Toml.Item} {x : Scalar} {v : Value}
    (h : item.scalar? = some x) (hv : Value.ofItem? origin item = some v) :
    v = .scalar (some origin) x := by
  cases item with
  | scalar y =>
    cases h
    rw [Value.ofItem?] at hv
    exact (Option.some.inj hv).symm
  | moment text =>
    cases h
    rw [Value.ofItem?] at hv
    exact (Option.some.inj hv).symm
  | _ => cases h

theorem ofEntries?_cons {origin name : String} {item : Toml.Item} {items : Toml.Entries}
    {es : Entries} (h : ofEntries? origin ((name, item) :: items) = some es) :
    ∃ v rest, es = (name, v) :: rest ∧ Value.ofItem? origin item = some v ∧
      ofEntries? origin items = some rest := by
  rw [ofEntries?] at h
  simp only [Option.bind_eq_bind, Option.bind_eq_some_iff, Option.pure_def, Option.some.injEq] at h
  obtain ⟨v, hv, rest, hrest, rfl⟩ := h
  exact ⟨v, rest, rfl, hv, hrest⟩

/-- A table without the mark of dates and times is a table. -/
theorem ofTable?_eq {origin : String} {items : Toml.Entries}
    (h : ∀ e ∈ items, e.1 ≠ Toml.Moment.mark) :
    Value.ofTable? origin items = (ofEntries? origin items).map (.table (some origin)) := by
  cases items with
  | nil =>
    rw [Value.ofTable?, ofEntries?]
    rfl
  | cons e items =>
    obtain ⟨name, item⟩ := e
    rw [Value.ofTable?, if_neg (h (name, item) List.mem_cons_self), ofEntries?]
    cases Value.ofItem? origin item with
    | none => rfl
    | some v => cases ofEntries? origin items <;> rfl

/-- What the table of a section does to a setting is its last value for it. -/
theorem tableEffect_ofEntries {name origin : String} {items : Toml.Entries} {es : Entries}
    (h : ofEntries? origin items = some es) (hitems : ∀ e ∈ items, e.2.scalar?.isSome) :
    tableEffect name es =
      .ofOption (last? (fun e => if Text.lowered e.1 = name then e.2.scalar? else none) items) := by
  induction items generalizing es with
  | nil =>
    rw [ofEntries?] at h
    cases h
    rfl
  | cons e items ih =>
    obtain ⟨n, item⟩ := e
    obtain ⟨v, rest, rfl, hv, hrest⟩ := ofEntries?_cons h
    obtain ⟨hitem, hitems⟩ := List.forall_mem_cons.1 hitems
    obtain ⟨x, hx⟩ := Option.isSome_iff_exists.1 hitem
    have htable : tableEffect name ((n, v) :: rest) =
        (if Text.lowered n = name then v.fieldEffect else .keeps).andThen (tableEffect name rest) :=
      rfl
    rw [htable, ih hrest hitems, last?_cons, Effect.ofOption_or, ofItem?_scalar hx hv, hx]
    split_ifs <;> rfl

theorem ofKey_section {name : String} {s : Section} (hs : s ∈ sections)
    (h : Text.lowered name = s.key) : Path.ofKey name = [.key s.key] := by
  have hself : ∀ s ∈ sections, (Path.parse? s.key).getD [.key s.key] = [.key s.key] := by
    decide +kernel
  rw [Path.ofKey, h, hself s hs]

/-- The table of a section has a value with which it does to a setting what it assigns to it. -/
theorem pathEffect_section {k : Setting} {name origin : String} {s : Section} {item : Toml.Item}
    {v : Value} (hs : s ∈ sections) (hname : Text.lowered name = s.key) (hitem : AssignsIn s item)
    (hv : Value.ofItem? origin item = some v) :
    pathEffect k.group.key k.name v (Path.ofKey name) =
      .ofOption (if Text.lowered name = k.group.key then k.tableValue? item else none) := by
  have hmark : ∀ s ∈ sections, Text.lowered Toml.Moment.mark ∉ s.fields := by decide +kernel
  cases item with
  | table form items =>
    have hne : ∀ e ∈ items, e.1 ≠ Toml.Moment.mark := fun e he heq =>
      hmark s hs (heq ▸ (hitem e he).1)
    rw [Value.ofItem?, ofTable?_eq hne] at hv
    obtain ⟨es, hes, rfl⟩ := Option.map_eq_some_iff.1 hv
    rw [ofKey_section hs hname, hname]
    by_cases hgroup : s.key = k.group.key
    · rw [if_pos hgroup, hgroup, pathEffect_table,
        tableEffect_ofEntries hes fun e he => (hitem e he).2]
      rfl
    · rw [if_neg hgroup, pathEffect_of_ne hgroup]
      rfl
  | _ => exact hitem.elim

/-- What the entries of a document do to a setting is the last value that it assigns to it. -/
theorem effect_ofEntries {k : Setting} {origin : String} {doc : Toml.Entries} {es : Entries}
    (h : ofEntries? origin doc = some es) (hdoc : SettingsFile doc) :
    k.effect es = .ofOption (k.fileValue? doc) := by
  induction doc generalizing es with
  | nil =>
    rw [ofEntries?] at h
    cases h
    rfl
  | cons e doc ih =>
    obtain ⟨name, item⟩ := e
    obtain ⟨v, rest, rfl, hv, hrest⟩ := ofEntries?_cons h
    obtain ⟨⟨s, hs, hname, hitem⟩, hdoc⟩ := List.forall_mem_cons.1 hdoc
    have heffect : k.effect ((name, v) :: rest) =
        (pathEffect k.group.key k.name v (Path.ofKey name)).andThen (k.effect rest) := rfl
    rw [heffect, ih hrest hdoc, pathEffect_section hs hname hitem hv, ← Effect.ofOption_or,
      Setting.fileValue?, Setting.fileValue?, last?_cons]

/-- The document of a file; without a file it is empty. -/
def document? (text : Option (List Char)) : Option Toml.Entries :=
  match text with
  | none => some []
  | some cs => Toml.parse? cs

/-- What a file does to a setting is the last value that it assigns to it. -/
theorem Setting.effect_file {k : Setting} {file : String} {text : Option (List Char)}
    {doc : Toml.Entries} {es : Entries} (hfile : readFile file text = .ok es)
    (hread : document? text = some doc) (hdoc : SettingsFile doc) :
    k.effect es = .ofOption (k.fileValue? doc) := by
  cases text with
  | none =>
    cases hfile
    cases hread
    rfl
  | some cs =>
    have hmark : ∀ s ∈ sections, Text.lowered Toml.Moment.mark ≠ s.key := by decide +kernel
    have hne : ∀ e ∈ doc, e.1 ≠ Toml.Moment.mark := fun e he heq => by
      obtain ⟨s, hs, hname, -⟩ := hdoc e he
      exact hmark s hs (heq ▸ hname)
    simp only [document?] at hread
    simp only [readFile, hread, Option.bind_some, ofTable?_eq hne] at hfile
    cases hes : ofEntries? file doc with
    | none =>
      rw [hes] at hfile
      cases hfile
    | some es' =>
      rw [hes] at hfile
      cases hfile
      exact effect_ofEntries hes hdoc

/-! ## Sources -/

/-- What assigns a setting its value, and the value. -/
inductive Source where
  | environment (text : String)
  | file (x : Scalar)
  | default
  deriving DecidableEq, Repr

/-- The highest source of the setting: a variable before the file, and the file before the default. -/
def Setting.source (k : Setting) (doc : Toml.Entries) (vars : List (String × String)) : Source :=
  match k.variableText? vars, k.fileValue? doc with
  | some text, _ => .environment text
  | none, some x => .file x
  | none, none => .default

/-- The value that the source gives a setting. -/
def Source.value (k : Setting) : Source → Scalar
  | environment text => variableValue text
  | file x => x
  | default => k.default

/-- A start with a file and variables that assign single values to settings, and the settings that are
loaded. -/
structure Start where
  file : String
  text : Option (List Char)
  vars : List (String × String)
  doc : Toml.Entries
  settings : Settings
  reads : document? text = some doc
  assigns : SettingsFile doc
  known : SettingVariables vars
  loads : Settings.load file text vars = .ok settings

namespace Start

/-- The start with this file and these variables, if they assign single values to settings and the
settings are loaded. -/
def of? (file : String) (text : Option (List Char)) (vars : List (String × String)) :
    Option Start :=
  match hread : document? text, hload : Settings.load file text vars with
  | some doc, .ok settings =>
    if h : SettingsFile doc ∧ SettingVariables vars then
      some ⟨file, text, vars, doc, settings, hread, h.1, h.2, hload⟩
    else none
  | _, _ => none

/-- The source of a setting at this start. -/
def source (a : Start) (k : Setting) : Source := k.source a.doc a.vars

/-- A setting is what its type makes of the value of its source. -/
theorem ofScalar?_source (a : Start) (k : Setting) :
    k.kind.ofScalar? ((a.source k).value k) = some (a.settings.get k) := by
  obtain ⟨es, -, hfile, -, -⟩ := field_of_load a.loads
  refine k.ofScalar?_of_load a.loads hfile ?_
  rw [k.effect_append, k.effect_file hfile a.reads a.assigns, k.effect_variables a.known, source,
    Setting.source]
  cases k.variableText? a.vars with
  | some text => rfl
  | none =>
    cases k.fileValue? a.doc <;> rfl

/-- Two starts with the same source of a setting have the same setting, whatever else their files and
variables assign. -/
theorem get_eq_of_source_eq (a b : Start) (k : Setting) (h : a.source k = b.source k) :
    a.settings.get k = b.settings.get k := by
  have ha := a.ofScalar?_source k
  have hb := b.ofScalar?_source k
  rw [h, hb] at ha
  exact (Option.some.inj ha).symm

/-- The port of the database is that of its variable, 6000, over one file with another port and over one
without. -/
theorem get_eq_of_source_eq_port :
    ∃ a b, of? "config.toml" (some "[database]\nport = 1\nuser = 'ada'\n[http]\nport = 80".toList)
        [("CALENDAR__DATABASE__PORT", "6000"), ("CALENDAR__KAFKA__GROUP", "main")] = some a ∧
      of? "other.toml" (some "http.host = '::1'".toList)
        [("HOME", "/"), ("CALENDAR__DATABASE__PORT", "6000")] = some b ∧
      a.settings.get .databasePort = b.settings.get .databasePort ∧
      b.settings.get .databasePort = .integer 6000 := by
  have ha : (of? "config.toml"
      (some "[database]\nport = 1\nuser = 'ada'\n[http]\nport = 80".toList)
      [("CALENDAR__DATABASE__PORT", "6000"), ("CALENDAR__KAFKA__GROUP", "main")]).map
      (·.source .databasePort) = some (.environment "6000") := by
    decide +kernel
  have hb : (of? "other.toml" (some "http.host = '::1'".toList)
      [("HOME", "/"), ("CALENDAR__DATABASE__PORT", "6000")]).map (·.source .databasePort) =
      some (.environment "6000") := by
    decide +kernel
  obtain ⟨a, hofa, hsa⟩ := Option.map_eq_some_iff.1 ha
  obtain ⟨b, hofb, hsb⟩ := Option.map_eq_some_iff.1 hb
  have hport : Setting.databasePort.kind.ofScalar?
      ((Source.environment "6000").value .databasePort) = some (.integer 6000) := by
    decide +kernel
  have hvalue := b.ofScalar?_source .databasePort
  rw [hsb, hport] at hvalue
  exact ⟨a, b, hofa, hofb, get_eq_of_source_eq a b .databasePort (hsa.trans hsb.symm),
    (Option.some.inj hvalue).symm⟩

end Start

end Config

end Agenda
