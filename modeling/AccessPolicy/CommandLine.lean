import AccessPolicy.CommandLine.Commands
import AccessPolicy.CommandLine.Host
import AccessPolicy.Environment.File
import AccessPolicy.Json.Reader
import AccessPolicy.Toml.Document

/-!
# The program

A run first adds the variables of the file `.env`, here or in a directory above, to its environment, then reads its
arguments and its settings, and then runs a command.  Settings come from a file, over it from the variables, and over
these from the arguments.
-/

namespace AccessPolicy.CommandLine

/-! ### Settings -/

/-- The settings in the text of a file, by the ending of its name. -/
def settingsIn? (ending text : String) : Option (List (String × Setting)) :=
  match ending with
  | "toml" => Toml.parse? text
  | "json" => do
    match ← Json.parse? text with
    | .object fields => some (Setting.ofFields fields)
    | _ => none
  | _ => none

/-- What follows the last point of the name of a file; a point at the start of the name does not count. -/
def endingOf (path : String) : String :=
  let name := ((Text.splitText '/' path).getLast?.getD "").toList
  let ending := (name.reverse.takeWhile (· ≠ '.')).reverse
  if ending.length + 1 < name.length then String.ofList ending else ""

private def withoutByteOrderMark (text : String) : String :=
  if text.toList.head? = some '\uFEFF' then String.ofList (text.toList.drop 1) else text

/-- The file that is read when no other is named. -/
def defaultFile : String := "warden.toml"

variable [Regex.Engine] {m : Type → Type} [Monad m]

/-- The settings in a file; the default file may be missing. -/
def fileSettings (host : Host m) (path : Option String) : m (Except CommandError (List (String × Setting))) := do
  let name := path.getD defaultFile
  if !(← host.holds name) then
    return if path.isSome then .error (.noSettingsFile name) else .ok []
  match ← host.readText name with
  | .error _ => return .error .settingsForm
  | .ok text => return (settingsIn? (endingOf name) (withoutByteOrderMark text)).elim (.error .settingsForm) .ok

/-- The settings of a run, from what its file says. -/
def settingsOf (file : List (String × Setting)) (vars : Variables) (invocation : Invocation) :
    Except CommandError Settings := do
  let layers := Setting.overlaySource vars.settings (Setting.overlaySource file (.table []))
  let s ← (Settings.ofSetting? layers).elim (.error .settingsType) .ok
  let settings : Settings :=
    { s with
      directory := invocation.directory.getD s.directory
      suffix := invocation.suffix.getD s.suffix
      level := invocation.level.getD s.level }
  match settings.fault? with
  | some fault => .error (.settings fault)
  | none => .ok settings

/-! ### Running -/

def versionText : String := "warden 0.0.1"

def usageLines : List String :=
  ["Usage: warden [OPTIONS] <COMMAND>",
   "",
   "Commands:",
   "  check [--strict]                                       Audit the directory of policies",
   "  eval ROUTE [-r FILE] [--raw] [--emit-logs]             Evaluate a request on a route",
   "  show [--id ID | --routes]                              List policies or routes",
   "",
   "Options:",
   "  -c, --config FILE      Settings file, by default ./warden.toml if there is one",
   "  -d, --policy-dir DIR   Directory of policies",
   "      --suffix SUFFIX    How the names of policy files end",
   "      --log-level LEVEL  Least level that is logged",
   "  -f, --format FORMAT    text or json",
   "  -h, --help             This text",
   "  -V, --version          The version"]

def Stop.outcome : Stop → Outcome
  | .version => { output := [versionText] }
  | .help => { output := usageLines }
  | .nothing => { code := 2, errors := usageLines }
  | .misuse e => { code := 2, errors := ["error: " ++ e.message] }

/-- The text of the file `.env` in the first of the directories that has one. -/
def variableFile (host : Host m) : List String → m (Except ReadError String)
  | [] => return .error (.system .notFound)
  | directory :: directories => do
    let path := directory ++ "/.env"
    match ← host.find path with
    | .ok (.file _) | .ok (.sealed _) => host.readText path
    | .ok _ | .error .notFound => variableFile host directories
    | .error cause => return .error (.system cause)

/-- The variables with those of the file `.env`, and a warning if that file is bad. -/
def withVariableFile (host : Host m) (vars : Variables) : m (Variables × List String) := do
  let warning (text : String) : List String := ["Warning: Failed to load .env file: " ++ text]
  match ← variableFile host (← host.enclosing) with
  | .ok text =>
    let (vars, fault) := vars.defineAll text
    return (vars, fault.elim [] fun f => warning f.message)
  | .error (.system .notFound) => return (vars, [])
  | .error cause => return (vars, warning cause.message)

def runCommand (host : Host m) (settings : Settings) (invocation : Invocation) : m Outcome := do
  match invocation.command with
  | .check strict => return check settings strict invocation.format (← host.find settings.directory)
  | .evaluate evaluation =>
    let text ← match evaluation.request with
      | some path => host.readText path
      | none => host.readInput
    return CommandLine.evaluate settings evaluation invocation.format text (← host.find settings.directory)
  | .list listing => return list settings listing invocation.format (← host.find settings.directory)

/-- A run with these arguments in this environment. -/
def run (host : Host m) (vars : Variables) (args : List String) : m Outcome := do
  let (vars, warnings) ← withVariableFile host vars
  match Invocation.ofArguments (vars.get? "WARDEN_CONFIG") args with
  | .error stop => return stop.outcome.warned warnings
  | .ok invocation =>
    match ← fileSettings host invocation.config with
    | .error e => return (Outcome.failed e).warned warnings
    | .ok file =>
      match settingsOf file vars invocation with
      | .error e => return (Outcome.failed e).warned warnings
      | .ok settings => return (← runCommand host settings invocation).warned warnings

end AccessPolicy.CommandLine
