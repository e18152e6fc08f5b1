import Agenda.Config.Reader
import Agenda.Config.Source

/-!
# The settings of the service

Every setting has a default value. A file changes some of them, and variables of the environment
change them once more.

* `Settings`: all settings, in sections.
* `Settings.load`: the settings, given the text of the file and the variables.
-/
namespace Agenda.Config

open Toml (Scalar)

structure LoggerSettings where
  level : String
  /-- A file to which the log is written as well, if the path is not empty. -/
  path : String
  deriving DecidableEq, Repr

structure DatabaseSettings where
  inMemory : Bool
  host : String
  port : UInt16
  user : String
  password : String
  db : String
  poolSize : UInt32
  deriving DecidableEq, Repr

/-- The address of the database (`DatabaseConfig.url`). -/
def DatabaseSettings.url (s : DatabaseSettings) : String :=
  s!"postgres://{s.user}:{s.password}@{s.host}:{s.port}/{s.db}?sslmode=disable"

structure HttpSettings where
  host : String
  port : UInt16
  /-- How long requests that are served may go on when the service stops. -/
  shutdownTimeoutSecs : UInt64
  deriving DecidableEq, Repr

/-- The address at which the service listens (`HttpConfig.addr`). -/
def HttpSettings.address (s : HttpSettings) : String := s!"{s.host}:{s.port}"

structure BrokerSettings where
  brokers : String
  group : String
  consumeTopic : String
  produceTopic : String
  serviceName : String
  deriving DecidableEq, Repr

structure ScheduleSettings where
  cron : String
  deriving DecidableEq, Repr

structure Settings where
  logger : LoggerSettings
  database : DatabaseSettings
  http : HttpSettings
  broker : BrokerSettings
  schedule : ScheduleSettings
  deriving DecidableEq, Repr

/-! ## Defaults -/

def defaultText (s : String) : Value := .scalar none (.text s)

def defaultNumber (n : Nat) : Value := .scalar none (.integer n)

/-- The settings that no source changes. -/
def defaults : Value :=
  .table none [
    ("logger", .table none [
      ("level", defaultText "calendar=info,tower_http=info"),
      ("path", defaultText "")]),
    ("database", .table none [
      ("in_memory", .scalar none (.bool true)),
      ("host", defaultText "localhost"),
      ("port", defaultNumber 5432),
      ("user", defaultText "postgres"),
      ("password", defaultText "postgres"),
      ("db", defaultText "calendar"),
      ("pool_size", defaultNumber 10)]),
    ("http", .table none [
      ("host", defaultText "0.0.0.0"),
      ("port", defaultNumber 8080),
      ("shutdown_timeout_secs", defaultNumber 3)]),
    ("kafka", .table none [
      ("brokers", defaultText "localhost:9092"),
      ("group", defaultText "calendar"),
      ("consume_topic", defaultText "calendar.events"),
      ("produce_topic", defaultText "calendar.reminders"),
      ("service_name", defaultText "calendar")]),
    ("schedule", .table none [
      ("cron", defaultText "* * * * *")])]

/-! ## Sections -/

def loggerSection : Section := ⟨"logger", "LoggerConfig", ["level", "path"]⟩

def databaseSection : Section :=
  ⟨"database", "DatabaseConfig",
    ["in_memory", "host", "port", "user", "password", "db", "pool_size"]⟩

def httpSection : Section := ⟨"http", "HttpConfig", ["host", "port", "shutdown_timeout_secs"]⟩

def brokerSection : Section :=
  ⟨"kafka", "KafkaConfig",
    ["brokers", "group", "consume_topic", "produce_topic", "service_name"]⟩

def scheduleSection : Section := ⟨"schedule", "ScheduleConfig", ["cron"]⟩

def readLogger (v : Value) : Except LoadError LoggerSettings := do
  let s := loggerSection
  let level ← s.field v 0 readText
  let path ← s.field v 1 readText
  pure { level, path }

def readDatabase (v : Value) : Except LoadError DatabaseSettings := do
  let s := databaseSection
  let inMemory ← s.field v 0 readBool
  let host ← s.field v 1 readText
  let port ← s.field v 2 (readNatural 16)
  let user ← s.field v 3 readText
  let password ← s.field v 4 readText
  let db ← s.field v 5 readText
  let poolSize ← s.field v 6 (readNatural 32)
  pure { inMemory, host, port := .ofNat port, user, password, db, poolSize := .ofNat poolSize }

def readHttp (v : Value) : Except LoadError HttpSettings := do
  let s := httpSection
  let host ← s.field v 0 readText
  let port ← s.field v 1 (readNatural 16)
  let seconds ← s.field v 2 (readNatural 64)
  pure { host, port := .ofNat port, shutdownTimeoutSecs := .ofNat seconds }

def readBroker (v : Value) : Except LoadError BrokerSettings := do
  let s := brokerSection
  let brokers ← s.field v 0 readText
  let group ← s.field v 1 readText
  let consumeTopic ← s.field v 2 readText
  let produceTopic ← s.field v 3 readText
  let serviceName ← s.field v 4 readText
  pure { brokers, group, consumeTopic, produceTopic, serviceName }

def readSchedule (v : Value) : Except LoadError ScheduleSettings := do
  let cron ← scheduleSection.field v 0 readText
  pure { cron }

/-! ## Loading -/

/-- The tree of all sources: the file and the environment are put together first, and then set over
the defaults. -/
def layered (file : Entries) (vars : List (String × String)) : Except LoadError Value :=
  let tree := do
    let own ← collect? file Value.emptyTable
    let own ← collect? (environment vars) own
    collect? own.asTable.2 defaults
  match tree with
  | some tree => .ok tree
  | none => .error .beforeStart

/-- The entries of the file; without a file there are none. -/
def readFile (name : String) (text : Option (List Char)) : Except LoadError Entries :=
  match text with
  | none => .ok []
  | some cs =>
    match (Toml.parse? cs).bind (Value.ofTable? name) with
    | some (.table _ es) => .ok es
    | _ => .error .unreadable

/-- The section of a tree. -/
def sectionOf (tree : Value) (s : Section) : Value := (tree.asTable.2.lookup s.key).getD .nothing

/-- The settings (`Config.load`), given the name and the text of the file, if there is one, and the
variables of the environment. -/
def Settings.load (name : String) (text : Option (List Char)) (vars : List (String × String)) :
    Except LoadError Settings := do
  let tree ← layered (← readFile name text) vars
  pure {
    logger := ← readLogger (sectionOf tree loggerSection)
    database := ← readDatabase (sectionOf tree databaseSection)
    http := ← readHttp (sectionOf tree httpSection)
    broker := ← readBroker (sectionOf tree brokerSection)
    schedule := ← readSchedule (sectionOf tree scheduleSection) }

end Agenda.Config
