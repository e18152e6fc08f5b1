import Agenda.Proofs.Config.Layers
import Agenda.Except
import Mathlib.Algebra.Group.Nat.Defs

/-!
# How settings are loaded

Every setting is a field of a section and has a type (`Kind`). When all settings are loaded, each is
what its type makes of the value in its place in the tree, and this value is what the last source set
that did not leave the setting alone, or the default value.

* `field_of_load`: each setting is read from its section.
* `Setting.ofScalar?_of_load`: it is what its type makes of the value that the sources leave.
-/
namespace Agenda.Config

open Toml (Scalar)

/-! ## Settings by name -/

/-- What a setting is wanted as. -/
inductive Kind where
  | flag
  /-- A natural number of so many bits. -/
  | number (bits : Nat)
  | text
  deriving DecidableEq, Repr

/-- The setting of a kind that a value gives. -/
def Kind.read : Kind → String → Value → Except LoadError Scalar
  | flag, key, v => (readBool key v).map .bool
  | number bits, key, v => (readNatural bits key v).map fun n : Nat => .integer n
  | text, key, v => (readText key v).map .text

inductive Setting where
  | loggerLevel
  | loggerPath
  | databaseInMemory
  | databaseHost
  | databasePort
  | databaseUser
  | databasePassword
  | databaseDb
  | databasePoolSize
  | httpHost
  | httpPort
  | httpShutdownTimeout
  | brokers
  | brokerGroup
  | consumeTopic
  | produceTopic
  | serviceName
  | scheduleCron
  deriving DecidableEq, Repr

namespace Setting

/-- The section that the setting is in. -/
def group : Setting → Section
  | loggerLevel | loggerPath => loggerSection
  | databaseInMemory | databaseHost | databasePort | databaseUser | databasePassword | databaseDb
  | databasePoolSize => databaseSection
  | httpHost | httpPort | httpShutdownTimeout => httpSection
  | brokers | brokerGroup | consumeTopic | produceTopic | serviceName => brokerSection
  | scheduleCron => scheduleSection

/-- The position of the setting in its section. -/
def index : Setting → Nat
  | loggerLevel | databaseInMemory | httpHost | brokers | scheduleCron => 0
  | loggerPath | databaseHost | httpPort | brokerGroup => 1
  | databasePort | httpShutdownTimeout | consumeTopic => 2
  | databaseUser | produceTopic => 3
  | databasePassword | serviceName => 4
  | databaseDb => 5
  | databasePoolSize => 6

def kind : Setting → Kind
  | databaseInMemory => .flag
  | databasePort | httpPort => .number 16
  | databasePoolSize => .number 32
  | httpShutdownTimeout => .number 64
  | _ => .text

/-- The name of the setting in its section. -/
def name (k : Setting) : String := k.group.fields.getD k.index ""

/-- The key of the setting, such as `http.port`. -/
def key (k : Setting) : String := k.group.key ++ "." ++ k.name

/-- The variable of the setting, such as `CALENDAR__HTTP__PORT`. -/
def variableName (k : Setting) : String :=
  "CALENDAR__" ++ k.group.key.toUpper ++ "__" ++ k.name.toUpper

end Setting

/-- The setting of a name. -/
def Settings.get (s : Settings) : Setting → Scalar
  | .loggerLevel => .text s.logger.level
  | .loggerPath => .text s.logger.path
  | .databaseInMemory => .bool s.database.inMemory
  | .databaseHost => .text s.database.host
  | .databasePort => .integer s.database.port.toNat
  | .databaseUser => .text s.database.user
  | .databasePassword => .text s.database.password
  | .databaseDb => .text s.database.db
  | .databasePoolSize => .integer s.database.poolSize.toNat
  | .httpHost => .text s.http.host
  | .httpPort => .integer s.http.port.toNat
  | .httpShutdownTimeout => .integer s.http.shutdownTimeoutSecs.toNat
  | .brokers => .text s.broker.brokers
  | .brokerGroup => .text s.broker.group
  | .consumeTopic => .text s.broker.consumeTopic
  | .produceTopic => .text s.broker.produceTopic
  | .serviceName => .text s.broker.serviceName
  | .scheduleCron => .text s.schedule.cron

/-! ## Reading a section -/

theorem readNatural_eq_ok {bits n : Nat} {key : String} {v : Value} :
    readNatural bits key v = .ok n ↔ readWord key v = .ok n ∧ n < 2 ^ bits := by
  simp only [readNatural, bind_eq_ok]
  constructor
  · rintro ⟨m, hm, h⟩
    split at h
    · next hlt =>
      cases h
      exact ⟨hm, hlt⟩
    · cases h
  · rintro ⟨h, hlt⟩
    exact ⟨n, h, if_pos hlt⟩

namespace Section

variable {s : Section} {v : Value} {i : Nat}

theorem field_map {α β : Type} {read : String → Value → Except LoadError α} (f : α → β) :
    s.field v i (fun key w => (read key w).map f) = (s.field v i read).map f := by
  cases v with
  | nothing => rfl
  | scalar origin x => rfl
  | table origin es =>
    simp only [field]
    split <;> rfl
  | array origin vs =>
    simp only [field]
    split <;> rfl

/-- A field that can be read is read from a value. -/
theorem read_of_field {α : Type} {read : String → Value → Except LoadError α} {a : α}
    (h : s.field v i read = .ok a) : ∃ key w, read key w = .ok a := by
  cases v with
  | nothing => cases h
  | scalar origin x => cases h
  | table origin es =>
    simp only [field] at h
    split at h
    · exact ⟨_, _, h⟩
    · cases h
  | array origin vs =>
    simp only [field] at h
    split at h
    · exact ⟨_, _, h⟩
    · cases h

theorem field_text {t : String} (h : s.field v i readText = .ok t) :
    s.field v i Kind.text.read = .ok (.text t) :=
  (field_map Scalar.text).trans (congrArg (Except.map Scalar.text) h)

theorem field_flag {b : Bool} (h : s.field v i readBool = .ok b) :
    s.field v i Kind.flag.read = .ok (.bool b) :=
  (field_map Scalar.bool).trans (congrArg (Except.map Scalar.bool) h)

theorem field_number {bits n : Nat} (h : s.field v i (readNatural bits) = .ok n) :
    s.field v i (Kind.number bits).read = .ok (.integer n) ∧ n < 2 ^ bits := by
  refine ⟨(field_map fun n : Nat => Scalar.integer n).trans (congrArg (Except.map _) h), ?_⟩
  obtain ⟨key, w, hread⟩ := read_of_field h
  exact (readNatural_eq_ok.1 hread).2

/-- A field that is in the tree is read from there. -/
theorem field_of_at? {α : Type} {read : String → Value → Except LoadError α} {tree w : Value}
    (h : tree.at? s.key (s.fields.getD i "") = some w) :
    s.field (sectionOf tree s) i read = read (s.key ++ "." ++ s.fields.getD i "") w := by
  obtain ⟨v, hsec, hw⟩ := Option.bind_eq_some_iff.1 h
  have hv : sectionOf tree s = .table v.asTable.1 v.asTable.2 := by
    rw [← eq_table_of_get? hw]
    exact congrArg (Option.getD · Value.nothing) hsec
  rw [Value.get?] at hw
  rw [hv, field]
  simp only [hw]

end Section

/-- Each setting is read from its section. -/
theorem field_of_load {file : String} {text : Option (List Char)} {vars : List (String × String)}
    {s : Settings} (h : Settings.load file text vars = .ok s) :
    ∃ es tree, readFile file text = .ok es ∧ layered es vars = .ok tree ∧
      ∀ k : Setting, k.group.field (sectionOf tree k.group) k.index k.kind.read = .ok (s.get k) := by
  simp only [Settings.load, bind_eq_ok, pure, Except.pure, Except.ok.injEq] at h
  obtain ⟨es, hes, tree, htree, logger, hlogger, database, hdatabase, http, hhttp, broker, hbroker,
    schedule, hschedule, rfl⟩ := h
  simp only [readLogger, readDatabase, readHttp, readBroker, readSchedule, bind_eq_ok, pure,
    Except.pure, Except.ok.injEq] at hlogger hdatabase hhttp hbroker hschedule
  obtain ⟨level, hlevel, path, hpath, rfl⟩ := hlogger
  obtain ⟨inMemory, hinMemory, dbHost, hdbHost, dbPort, hdbPort, user, huser, password, hpassword,
    db, hdb, poolSize, hpoolSize, rfl⟩ := hdatabase
  obtain ⟨host, hhost, port, hport, seconds, hseconds, rfl⟩ := hhttp
  obtain ⟨brokers, hbrokers, group, hgroup, consumeTopic, hconsume, produceTopic, hproduce,
    serviceName, hservice, rfl⟩ := hbroker
  obtain ⟨cron, hcron, rfl⟩ := hschedule
  have hdbPort := Section.field_number hdbPort
  have hpoolSize := Section.field_number hpoolSize
  have hport := Section.field_number hport
  have hseconds := Section.field_number hseconds
  refine ⟨es, tree, hes, htree, fun k => ?_⟩
  -- Here alone the settings are told apart: each has been read as one of its kind.
  cases k with
  | loggerLevel => exact Section.field_text hlevel
  | loggerPath => exact Section.field_text hpath
  | databaseInMemory => exact Section.field_flag hinMemory
  | databaseHost => exact Section.field_text hdbHost
  | databasePort =>
    rw [Settings.get, UInt16.toNat_ofNat_of_lt' hdbPort.2]
    exact hdbPort.1
  | databaseUser => exact Section.field_text huser
  | databasePassword => exact Section.field_text hpassword
  | databaseDb => exact Section.field_text hdb
  | databasePoolSize =>
    rw [Settings.get, UInt32.toNat_ofNat_of_lt' hpoolSize.2]
    exact hpoolSize.1
  | httpHost => exact Section.field_text hhost
  | httpPort =>
    rw [Settings.get, UInt16.toNat_ofNat_of_lt' hport.2]
    exact hport.1
  | httpShutdownTimeout =>
    rw [Settings.get, UInt64.toNat_ofNat_of_lt' hseconds.2]
    exact hseconds.1
  | brokers => exact Section.field_text hbrokers
  | brokerGroup => exact Section.field_text hgroup
  | consumeTopic => exact Section.field_text hconsume
  | produceTopic => exact Section.field_text hproduce
  | serviceName => exact Section.field_text hservice
  | scheduleCron => exact Section.field_text hcron

/-! ## A setting after all sources -/

/-- What a setting of a kind is when a single value is set in its place, if it can be. -/
def Kind.ofScalar? (kind : Kind) (x : Scalar) : Option Scalar :=
  (kind.read "" (.scalar none x)).toOption

section Reading

variable {key : String} {origin : Option String} {x : Scalar}

theorem readBool_of_scalar {b : Bool} (h : readBool key (.scalar origin x) = .ok b) :
    readBool "" (.scalar none x) = .ok b := by
  cases x with
  | text s =>
    simp only [readBool] at h ⊢
    split_ifs at h with htrue hfalse
    · rwa [if_pos htrue]
    · rwa [if_neg htrue, if_pos hfalse]
  | _ => exact h

theorem readWord_of_scalar {n : Nat} (h : readWord key (.scalar origin x) = .ok n) :
    readWord "" (.scalar none x) = .ok n := by
  cases x with
  | integer m =>
    simp only [readWord] at h ⊢
    split_ifs at h with hneg
    rwa [if_neg hneg]
  | text s =>
    simp only [readWord] at h ⊢
    split_ifs at h with htrue hfalse
    · rwa [if_pos htrue]
    · rwa [if_neg htrue, if_pos hfalse]
    · rw [if_neg htrue, if_neg hfalse]
      split at h
      · exact h
      · cases h
  | _ => exact h

/-- Neither the key nor the origin matters for what is read. -/
theorem Kind.ofScalar?_of_read {kind : Kind} {y : Scalar}
    (h : kind.read key (.scalar origin x) = .ok y) : kind.ofScalar? x = some y := by
  rw [ofScalar?, toOption_eq_some]
  cases kind with
  | flag =>
    obtain ⟨b, hb, rfl⟩ := map_eq_ok.1 h
    exact map_eq_ok.2 ⟨b, readBool_of_scalar hb, rfl⟩
  | number bits =>
    obtain ⟨n, hn, rfl⟩ := map_eq_ok.1 h
    obtain ⟨hn, hlt⟩ := readNatural_eq_ok.1 hn
    exact map_eq_ok.2 ⟨n, readNatural_eq_ok.2 ⟨readWord_of_scalar hn, hlt⟩, rfl⟩
  | text =>
    cases x <;> exact h

end Reading

namespace Setting

/-- The value that the setting has when no source sets it. -/
def default (k : Setting) : Scalar :=
  match defaults.at? k.group.key k.name with
  | some (.scalar _ x) => x
  | _ => .text ""

theorem at?_defaults (k : Setting) :
    defaults.at? k.group.key k.name = some (.scalar none k.default) := by
  cases k <;> rfl

/-- What the entries of a source do to the setting. -/
def effect (k : Setting) (es : Entries) : Effect := sourceEffect k.group.key k.name es

/-- The single value of the setting after all sources with such an effect. -/
def settled? (k : Setting) : Effect → Option Scalar
  | .keeps => some k.default
  | .sets x => some x
  | .spoils => none

/-- A setting is read from the value that the sources leave in its place. -/
theorem ofScalar?_of_load {file : String} {text : Option (List Char)}
    {vars : List (String × String)} {s : Settings} {es : Entries} {x : Scalar} {k : Setting}
    (hload : Settings.load file text vars = .ok s) (hfile : readFile file text = .ok es)
    (hx : k.settled? (k.effect (es ++ environment vars)) = some x) :
    k.kind.ofScalar? x = some (s.get k) := by
  obtain ⟨es', tree, hes, htree, hread⟩ := field_of_load hload
  obtain rfl : es = es' := Except.ok.inj (hfile.symm.trans hes)
  have hholds := holds_layered htree k.group.key k.name
  obtain ⟨origin, hat⟩ : ∃ origin, tree.at? k.group.key k.name = some (.scalar origin x) := by
    rw [effect] at hx
    cases he : sourceEffect k.group.key k.name (es ++ environment vars) with
    | keeps =>
      rw [he] at hholds hx
      cases hx
      exact ⟨none, hholds.1.trans k.at?_defaults⟩
    | sets y =>
      rw [he] at hholds hx
      cases hx
      exact hholds
    | spoils =>
      rw [he] at hx
      cases hx
  have hk := hread k
  rw [Section.field_of_at? hat] at hk
  exact Kind.ofScalar?_of_read hk

end Setting

end Agenda.Config
