import AccessPolicy.Registry

/-!
# Settings

Where the policies are, which files are policies, what becomes of bad ones, and what is logged.
-/

namespace AccessPolicy

structure Settings where
  directory : String := "policies"
  /-- Files whose names end in it are policies. -/
  suffix : String := ".policy"
  skipInvalid : Bool := true
  emitLogs : Bool := false
  /-- The least level that is logged. -/
  level : String := "info"
deriving DecidableEq, Repr

inductive SettingsFault
  | noDirectory
  | noSuffix
  | separatorInSuffix (suffix : String)
  | unknownLevel (level : String)
deriving DecidableEq, Repr

namespace Settings

def levels : List String := ["trace", "debug", "info", "warn", "error"]

end Settings

def SettingsFault.message : SettingsFault → String
  | noDirectory => "Missing required configuration: policy_dir"
  | noSuffix => "Invalid configuration value: file_suffix cannot be empty"
  | separatorInSuffix suffix =>
    s!"Invalid configuration value: file_suffix '{suffix}' must not contain a path separator"
  | unknownLevel level =>
    s!"Invalid configuration value: Invalid logging level: '{level}'. Must be one of " ++
      ", ".intercalate Settings.levels

namespace Settings

/-- The first thing that is wrong; the case of a level does not matter. -/
def fault? (s : Settings) : Option SettingsFault :=
  if s.directory = "" then some .noDirectory
  else if s.suffix = "" then some .noSuffix
  else if s.suffix.toList.contains '/' || s.suffix.toList.contains '\\' then some (.separatorInSuffix s.suffix)
  else if levels.contains (Text.lower s.level) then none
  else some (.unknownLevel s.level)

def registryOptions (s : Settings) : RegistryOptions := { emitLogs := s.emitLogs, skipInvalid := s.skipInvalid }

/-! ### As JSON -/

open Json

def levelOfJson? (value : Json) : Option String := do
  let m ← members? ["level"] value
  field m "level" "info" asString?

def ofJson? (value : Json) : Option Settings := do
  let m ← members? ["policy_dir", "file_suffix", "skip_invalid_policies", "emit_policy_logs", "logging"] value
  return {
    directory := ← field m "policy_dir" "policies" asString?
    suffix := ← field m "file_suffix" ".policy" asString?
    skipInvalid := ← field m "skip_invalid_policies" true bool?
    emitLogs := ← field m "emit_policy_logs" false bool?
    level := ← field m "logging" "info" levelOfJson? }

def toJson (s : Settings) : Json :=
  ofFields [("policy_dir", .string s.directory), ("file_suffix", .string s.suffix),
    ("skip_invalid_policies", .bool s.skipInvalid), ("emit_policy_logs", .bool s.emitLogs),
    ("logging", ofFields [("level", .string s.level)])]

end Settings

end AccessPolicy
