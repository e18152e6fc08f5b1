import Agenda.Config.Settings
import Agenda.Cron.Crontab
import Agenda.Http.Router

/-!
# The command line

`calendar [--config FILE] api|scheduler|storer|version`. The services read their settings from the
file and the environment. What they do with requests, messages and times is in the library; a
listening socket and a connection to a broker are not, so a service whose settings are in order ends
with a note that says so.
-/
namespace Agenda.CommandLine

open Config

/-- What the program is asked to do. -/
inductive Command where
  | api
  | scheduler
  | storer
  | version
  deriving DecidableEq, Repr

/-- The arguments of the program (`Cli`). -/
structure Invocation where
  config : String
  command : Command
  deriving DecidableEq, Repr

def defaultConfig : String := "configs/config.toml"

def usage : String := "Usage: calendar [--config FILE] api|scheduler|storer|version"

/-- The command of a name. -/
def command? : String → Option Command
  | "api" => some .api
  | "scheduler" => some .scheduler
  | "storer" => some .storer
  | "version" => some .version
  | _ => none

/-- What the arguments ask for. -/
def parse? : List String → Option Invocation
  | ["--config", file, name] => (command? name).map (⟨file, ·⟩)
  | [name] => (command? name).map (⟨defaultConfig, ·⟩)
  | _ => none

/-- The names of the variables that settings may be read from. -/
def variableNames : List String :=
  [loggerSection, databaseSection, httpSection, brokerSection, scheduleSection].flatMap fun s =>
    s.fields.map fun field => s!"CALENDAR__{s.key.toUpper}__{field.toUpper}"

/-- What stands in the way of a service, given its settings. -/
def problem? (command : Command) (s : Settings) : Option String :=
  match command with
  | .scheduler =>
    match Cron.parseSchedule s.schedule.cron.toList with
    | some _ => none
    | none => some s!"invalid cron expression {Text.Quoted.ofString s.schedule.cron}"
  | _ => none

/-- What a service would do next. -/
def nextStep (command : Command) (s : Settings) : String :=
  match command with
  | .api => s!"no sockets here: nothing listens on {s.http.address}"
  | _ => s!"no broker here: {s.broker.brokers} is not asked for messages"

/-! ## Running -/

/-- The text of a file, if there is such a file. -/
def readIfPresent (file : String) : IO (Option (List Char)) := do
  try
    return some (← IO.FS.readFile file).toList
  catch _ =>
    return none

/-- The variables that are set. -/
def readVariables : IO (List (String × String)) :=
  variableNames.filterMapM fun name => do
    return (← IO.getEnv name).map (name, ·)

/-- Runs a service with its settings (`run_api`, `run_scheduler`, `run_storer`). -/
def runService (call : Invocation) : IO UInt32 := do
  match Settings.load call.config (← readIfPresent call.config) (← readVariables) with
  | .error e =>
    IO.eprintln s!"Error: failed to load config from {call.config}\n\nCaused by:\n    {e.message}"
    return 1
  | .ok settings =>
    IO.eprintln ((problem? call.command settings).getD (nextStep call.command settings))
    return 1

/-- Does what the arguments ask for (`main`). -/
def run (args : List String) : IO UInt32 := do
  match parse? args with
  | none =>
    IO.eprintln usage
    return 2
  | some ⟨_, .version⟩ =>
    IO.println "calendar 0.1.0"
    return 0
  | some call => runService call

end Agenda.CommandLine

def main (args : List String) : IO UInt32 := Agenda.CommandLine.run args
