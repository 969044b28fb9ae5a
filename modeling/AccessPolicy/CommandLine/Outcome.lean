import AccessPolicy.CommandLine.Arguments
import AccessPolicy.Json.Printer
import AccessPolicy.Registry.Directory

/-!
# The outcome of a run

What a run writes and the code that it ends with: 0 when all is well, 1 when an audit is not passed, 2 when an error
stops the run.  The text of an error is followed by those of its causes.
-/

namespace AccessPolicy.CommandLine

structure Outcome where
  code : UInt8 := 0
  output : List String := []
  errors : List String := []
  log : List LogEvent := []
deriving DecidableEq, Repr

inductive CommandError
  | noSettingsFile (path : String)
  /-- The file of settings cannot be read in its format. -/
  | settingsForm
  /-- A setting has a value of a wrong type. -/
  | settingsType
  | settings (fault : SettingsFault)
  | requestFile (path : String) (cause : ReadError)
  | requestInput (cause : ReadError)
  | requestNotJson
  | requestForm
  /-- The directory cannot be audited. -/
  | audit (cause : RegistryError)
  /-- The policies cannot be loaded. -/
  | load (directory : String) (cause : RegistryError)
  | noPolicy (id : String)
deriving DecidableEq, Repr

end CommandLine

/-- The message, followed by those of its causes.  A text that is no JSON has no cause besides. -/
def RegistryError.trail (e : RegistryError) : List String :=
  e.message ::
    match e with
    | condition ⟨_, .notJson⟩ => []
    | condition ⟨_, cause⟩ => [cause.message]
    | load (.directory _ cause) => [cause.message]
    | load (.files _) => []

namespace CommandLine

def CommandError.trail : CommandError → List String
  | noSettingsFile path => ["Config file not found: " ++ path]
  | settingsForm => ["Failed to build config"]
  | settingsType => ["Failed to deserialize config"]
  | settings fault => [fault.message]
  | requestFile path cause => ["Failed to read request file " ++ path, cause.message]
  | requestInput cause => ["Failed to read request from stdin", cause.message]
  | requestNotJson => ["Request is not valid JSON"]
  | requestForm => ["Request is not a valid rights request"]
  | audit cause => cause.trail
  | load directory cause => ("Failed to load policies from " ++ directory) :: cause.trail
  | noPolicy id => ["No policy with ID '" ++ id ++ "'"]

def CommandError.message (e : CommandError) : String := ": ".intercalate e.trail

def successLine (text : String) : String := "✓ " ++ text

def warningLine (text : String) : String := "! " ++ text

def errorLine (text : String) : String := "✗ " ++ text

namespace Outcome

def failed (e : CommandError) : Outcome := { code := 2, errors := [errorLine e.message] }

/-- The outcome after warnings. -/
def warned (warnings : List String) (o : Outcome) : Outcome := { o with errors := warnings ++ o.errors }

def ofJson (value : Json) : Outcome := { output := [value.pretty] }

def ofExcept : Except CommandError Outcome → Outcome
  | .ok o => o
  | .error e => failed e

end Outcome

end AccessPolicy.CommandLine
