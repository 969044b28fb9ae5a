import AccessPolicy.Audit
import AccessPolicy.CommandLine.Outcome
import AccessPolicy.Policy.Document
import AccessPolicy.Table

/-!
# The commands

Each command is a function of the settings, of its arguments and of what was found outside: the directory of policies
and, for an evaluation, the text of the request.
-/

namespace AccessPolicy

/-- The policies in the directory of the settings, from what was found there. -/
def Settings.load (settings : Settings) (found : Except OsError FileTree) : Except LoadError Loaded :=
  FileTree.loadFrom settings.directory settings.suffix found

namespace CommandLine

variable [Regex.Engine]

/-- What was found at the path of the directory of policies. -/
abbrev Found := Except OsError FileTree

/-! ### Auditing -/

/-- An audit, line by line. -/
def auditLines (settings : Settings) (strict : Bool) (a : Audit) : Outcome :=
  let failures := a.failures.map fun (path, message) => errorLine (path ++ ": " ++ message)
  let duplicates := a.duplicates.map fun id => warningLine ("Duplicate policy ID: " ++ id)
  let line := Text.renderInt a.registered.length ++ " policies on " ++ Text.renderInt a.routes ++ " routes in " ++
    settings.directory
  if a.passes strict then { output := [successLine line], errors := failures ++ duplicates }
  else
    let count := Text.renderInt a.failures.length
    { code := 1, errors := failures ++ duplicates ++ [errorLine (line ++ "; " ++ count ++ " failed")] }

/-- Audits a directory. -/
def check (settings : Settings) (strict : Bool) (format : Format) (found : Found) : Outcome :=
  match Audit.ofLoaded (settings.load found) with
  | .error e => .failed (.audit e)
  | .ok a =>
    match format with
    | .text => auditLines settings strict a
    | .json => { Outcome.ofJson (a.toJson strict) with code := if a.passes strict then 0 else 1 }

/-! ### Evaluating a request -/

/-- The registry of a directory, and warnings about what was skipped. -/
def registryOf (settings : Settings) (options : RegistryOptions) (found : Found) :
    Except CommandError (Registry × List String) := do
  let (report, registry) ←
    (Registry.load { options } (settings.load found)).mapError (.load settings.directory)
  let skipped := report.fileFailures.map FileFailure.message ++
    report.rejected.map fun (path, e) => path ++ ": " ++ e.message
  return (registry, skipped.map fun text => warningLine ("Skipped " ++ text))

/-- A verdict, line by line. -/
def verdictLines (route : String) (v : Verdict) : List String :=
  let told := match v.kind with
    | none => ["Verdict: neutral"]
    | some .response =>
      let message := if v.response.message = "" then [] else ["Message: " ++ v.response.message]
      let code := (v.response.code.map fun code => Text.renderInt code.toNat).getD "-"
      ["Verdict: response", "Code: " ++ code] ++ message
    | some .redirect => ["Verdict: redirect", "Location: " ++ v.redirect.getD ""]
    | some .rights =>
      ["Verdict: rights", "Rights: " ++ if v.rights.isEmpty then "(none)" else ", ".intercalate v.rights]
  ("Route: " ++ route) :: told ++ v.metadata.map fun (key, text) => key ++ ": " ++ text

/-- The event in the text of a request. -/
def readEvent (request : Option String) (text : Except ReadError String) : Except CommandError Json :=
  match text with
  | .error cause => .error (request.elim (.requestInput cause) (.requestFile · cause))
  | .ok text => (Json.parse? text).elim (.error .requestNotJson) .ok

def answerFor (evaluation : Evaluation) (registry : Registry) (event : Json) : Except CommandError Answer :=
  if evaluation.raw then .ok (registry.answerEvent evaluation.route event)
  else
    match Request.ofJson? event with
    | some request => .ok (registry.answer evaluation.route request)
    | none => .error .requestForm

/-- The levels at which the log of policies is written. -/
private def logs (settings : Settings) : Bool := ["trace", "debug", "info"].contains (Text.lower settings.level)

/-- Evaluates a request. -/
def evaluate (settings : Settings) (evaluation : Evaluation) (format : Format) (text : Except ReadError String)
    (found : Found) : Outcome := .ofExcept do
  let event ← readEvent evaluation.request text
  let options := { settings.registryOptions with emitLogs := settings.emitLogs || evaluation.emitLogs }
  let (registry, warnings) ← registryOf settings options found
  match answerFor evaluation registry event with
  | .error e => return (Outcome.failed e).warned warnings
  | .ok answer =>
    let o : Outcome := match format with
      | .text => { output := verdictLines evaluation.route answer.verdict }
      | .json => .ofJson answer.verdict.toJson
    return { o.warned warnings with log := if logs settings then answer.log else [] }

/-! ### Listing -/

private def policyRow (path : String) (p : Policy) : List String :=
  [p.id, Text.renderInt p.priority.toInt, ", ".intercalate p.routes, path]

private def listPolicies (format : Format) (policies : List (String × Policy)) : Outcome :=
  match format with
  | .json => .ofJson (.array (policies.map fun (_, p) => p.toJson))
  | .text =>
    if policies.isEmpty then { output := ["No policies found."] }
    else
      let rows := policies.map fun (path, p) => policyRow path p
      { output := Table.lines { header := ["ID", "Priority", "Routes", "File"], rows } }

private def listPolicy (format : Format) (id : String) (policies : List (String × Policy)) :
    Except CommandError Outcome :=
  match policies.find? fun (_, p) => p.id = id, format with
  | none, _ => .error (.noPolicy id)
  | some (_, p), .json => .ok (.ofJson p.toJson)
  | some (path, p), .text => .ok { output := ["# " ++ path, p.document] }

private def listRoutes (format : Format) (registry : Registry) : Outcome :=
  let counts := registry.routeNames.map fun route => (route, registry.countOn route)
  let stats := registry.stats
  match format with
  | .json =>
    let routes := counts.map fun (route, n) => Json.ofFields [("route", .string route), ("policies", .ofNat n)]
    .ofJson (Json.ofFields [("routes", .array routes), ("stats", Json.ofFields [("routes", .ofNat stats.routes),
      ("registrations", .ofNat stats.registrations), ("policies", .ofNat stats.policies)])])
  | .text =>
    let rows := counts.map fun (route, n) => [route, Text.renderInt n]
    let total := "Total: " ++ Text.renderInt stats.policies ++ " policies, " ++ Text.renderInt stats.registrations ++
      " registrations"
    { output := Table.lines { header := ["Route", "Policies"], rows } ++ [total] }

/-- Lists policies or routes.  Bad files do not matter when policies are listed. -/
def list (settings : Settings) (listing : Listing) (format : Format) (found : Found) : Outcome := .ofExcept do
  match listing with
  | .routes =>
    let (registry, warnings) ← registryOf settings settings.registryOptions found
    return (listRoutes format registry).warned warnings
  | .policies => return listPolicies format (← loaded).policies
  | .policy id => listPolicy format id (← loaded).policies
where
  loaded : Except CommandError Loaded :=
    (settings.load found).mapError fun e => .load settings.directory (.load e)

end CommandLine

end AccessPolicy
