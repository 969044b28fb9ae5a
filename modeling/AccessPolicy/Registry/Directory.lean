import AccessPolicy.Loading
import AccessPolicy.Registry

/-!
# Registering a directory of policies

All policies that were loaded and whose conditions are patterns are registered, in the order of the walk.  What is
wrong with the others is reported, or, when nothing may be skipped, refuses the directory as a whole: first for
its files, then for the first condition.
-/

namespace AccessPolicy

inductive RegistryError
  | condition (cause : ConditionError)
  | load (cause : LoadError)
deriving DecidableEq, Repr

/-- What kind of thing went wrong, for the one who has to react. -/
inductive ErrorCategory
  | parse
  | registration
  | evaluation
  | io
deriving DecidableEq, Repr

def ErrorCategory.name : ErrorCategory → String
  | parse => "parse"
  | registration => "registration"
  | evaluation => "evaluation"
  | io => "io"

namespace RegistryError

def message : RegistryError → String
  | condition cause => cause.message
  | load cause => cause.message

def category : RegistryError → ErrorCategory
  | condition _ => .registration
  | load (.directory _ _) => .io
  | load (.files _) => .parse

/-- The error arose while a request was being answered. -/
def isEvaluation (e : RegistryError) : Bool := e.category = .evaluation

end RegistryError

/-- What became of the policies of a directory. -/
structure LoadReport where
  /-- The ids of the registered policies. -/
  registered : List String := []
  fileFailures : List FileFailure := []
  /-- The policies whose conditions are no patterns, by their paths. -/
  rejected : List (String × ConditionError) := []
deriving DecidableEq, Repr

/-- Nothing was skipped. -/
def LoadReport.isClean (report : LoadReport) : Bool := report.fileFailures.isEmpty && report.rejected.isEmpty

variable [Regex.Engine]

/-- The policies whose conditions are patterns, and what is wrong with the others. -/
def compileAll : List (String × Policy) → List CompiledPolicy × List (String × ConditionError)
  | [] => ([], [])
  | (path, p) :: policies =>
    let (compiled, rejected) := compileAll policies
    match p.compile with
    | .ok c => (c :: compiled, rejected)
    | .error e => (compiled, (path, e) :: rejected)

namespace Registry

/-- The registry with what was loaded, and the report on it. -/
def load (registry : Registry) (loaded : Except LoadError Loaded) : Except RegistryError (LoadReport × Registry) := do
  let loaded ← loaded.mapError .load
  let (compiled, rejected) := compileAll loaded.policies
  let report : LoadReport :=
    { registered := compiled.map (·.policy.id), fileFailures := loaded.failures, rejected }
  if registry.options.skipInvalid then return (report, compiled.foldl register registry)
  else
    match loaded.error?, rejected with
    | some e, _ => throw (.load e)
    | none, (_, e) :: _ => throw (.condition e)
    | none, [] => return (report, compiled.foldl register registry)

end Registry

end AccessPolicy
