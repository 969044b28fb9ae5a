import AccessPolicy.Registry.Directory

/-!
# Auditing a directory of policies

An audit registers all policies of a directory that can be registered and tells what is wrong with the others.  It is
passed when nothing is wrong; a strict audit also asks that no id stands for two policies.
-/

namespace AccessPolicy

structure Audit where
  /-- The ids of the registered policies, in the order of registration. -/
  registered : List String
  /-- The paths of the files that are no policies or cannot be registered, with the reasons. -/
  failures : List (String × String)
  /-- The number of routes. -/
  routes : Nat
deriving DecidableEq, Repr

namespace Audit

/-- The ids that stand for several policies, in ascending order. -/
def duplicates (a : Audit) : List String :=
  (a.registered.filter fun id => 1 < a.registered.count id).eraseDups.mergeSort (· ≤ ·)

def passes (a : Audit) (strict : Bool) : Bool := a.failures.isEmpty && !(strict && !a.duplicates.isEmpty)

variable [Regex.Engine]

/-- The audit of what was loaded. -/
def ofLoaded (loaded : Except LoadError Loaded) : Except RegistryError Audit := do
  let (report, registry) ← Registry.load { options := { skipInvalid := true } } loaded
  return {
    registered := report.registered
    failures := report.fileFailures.map (fun f => (f.path, f.cause.message)) ++
      report.rejected.map fun (path, e) => (path, e.message)
    routes := registry.stats.routes }

/-- The summary of the audit. -/
def toJson (a : Audit) (strict : Bool) : Json :=
  let failures := a.failures.map fun (path, message) => .object [("path", .string path), ("error", .string message)]
  .object [("valid", .bool (a.passes strict)), ("policies", .ofStrings a.registered),
    ("duplicates", .ofStrings a.duplicates), ("failures", .array failures), ("routes", .ofNat a.routes)]

end Audit

end AccessPolicy
