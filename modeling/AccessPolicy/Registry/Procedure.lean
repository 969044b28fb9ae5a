import AccessPolicy.Registry.Directory

/-!
# Changing a registry step by step

A procedure works on the registry that is there.  It goes from step to step, and where a step fails it stops: what
the steps before have done to the registry stays done.
-/

namespace AccessPolicy

/-- Steps that change a registry and give a result, or stop at an error.  Either way a registry is left. -/
abbrev Procedure := EStateM RegistryError Registry

namespace Procedure

variable [Regex.Engine]

/-- A result that is there already, or the error instead. -/
def ofExcept {ε α : Type} (wrap : ε → RegistryError) : Except ε α → Procedure α
  | .ok a => pure a
  | .error cause => throw (wrap cause)

/-- The policy goes to its routes, one after the other. -/
def register (c : CompiledPolicy) : Procedure Unit :=
  c.policy.routes.forM fun route => modify fun registry =>
    let entry : Entry Policy := { id := c.policy.id, pattern := c.pattern, payload := c.policy }
    { registry with routes := Registry.insertEntry route entry registry.routes }

def add (p : Policy) : Procedure Unit := do
  let c ← ofExcept .condition p.compile
  register c

/-- The id goes from every route; then, if there was anything to remove, the routes go that are left without a
policy.  The result is how many registrations there were. -/
def remove (id : String) : Procedure Nat := do
  let removed := (← get).countId id
  modify fun registry => { registry with routes := registry.routes.map fun (route, index) => (route, index.remove id) }
  if 0 < removed then
    modify fun registry => { registry with routes := registry.routes.filter fun (_, index) => !index.isEmpty }
  return removed

def replace (p : Policy) : Procedure Nat := do
  let c ← ofExcept .condition p.compile
  let removed ← remove p.id
  register c
  return removed

/-- One more condition of a directory is read.  One that is no pattern is put down in the report if it may be skipped,
and stops the procedure otherwise. -/
def compileNext (skip : Bool) (read : List CompiledPolicy × LoadReport) (found : String × Policy) :
    Procedure (List CompiledPolicy × LoadReport) :=
  match found.2.compile with
  | .ok c => return (read.1 ++ [c], read.2)
  | .error cause =>
    if skip then return (read.1, { read.2 with rejected := read.2.rejected ++ [(found.1, cause)] })
    else throw (.condition cause)

def registerNext (report : LoadReport) (c : CompiledPolicy) : Procedure LoadReport := do
  register c
  return { report with registered := report.registered ++ [c.policy.id] }

/-- All conditions are read, and only then the first policy is registered. -/
def registerAll (skip : Bool) (loaded : Loaded) : Procedure LoadReport := do
  let (compiled, report) ← loaded.policies.foldlM (compileNext skip) ([], { fileFailures := loaded.failures })
  compiled.foldlM registerNext report

/-- What was found at a path is loaded.  Where nothing may be skipped, files that failed come first. -/
def load (found : Except LoadError Loaded) : Procedure LoadReport := do
  let loaded ← ofExcept .load found
  let skip := (← get).options.skipInvalid
  unless skip do
    if let some cause := loaded.error? then throw (.load cause)
  registerAll skip loaded

end Procedure

end AccessPolicy
