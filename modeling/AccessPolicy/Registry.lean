import AccessPolicy.Index
import AccessPolicy.Pattern.Compile
import AccessPolicy.Request
import AccessPolicy.Resolution

/-!
# The registry of policies

Each route has an index of the policies registered on it, and the routes are kept in ascending order.  A policy is
registered once for each time that it names a route.  A policy whose condition is no pattern is refused, and then
nothing changes.
-/

namespace AccessPolicy

structure RegistryOptions where
  /-- The directives of matched policies are put into the log. -/
  emitLogs : Bool := false
  /-- Bad files and bad policies are passed over when a directory is loaded. -/
  skipInvalid : Bool := true
deriving DecidableEq, Repr

structure Registry where
  options : RegistryOptions := {}
  routes : List (String × Index Policy) := []

/-- The condition of a policy is no pattern. -/
structure ConditionError where
  policyId : String
  cause : PatternError
deriving DecidableEq, Repr

def ConditionError.message (e : ConditionError) : String :=
  s!"Invalid match pattern in policy '{e.policyId}': {e.cause.message}"

/-- A policy with its condition read as a pattern. -/
structure CompiledPolicy where
  policy : Policy
  pattern : Pattern

variable [Regex.Engine]

def Policy.compile (p : Policy) : Except ConditionError CompiledPolicy :=
  match Pattern.parse p.condition with
  | .ok pattern => .ok ⟨p, pattern⟩
  | .error cause => .error ⟨p.id, cause⟩

/-- A directive of a matched policy, as it is logged. -/
structure LogEvent where
  route : String
  policyId : String
  directive : Directive
deriving DecidableEq, Repr

structure Stats where
  routes : Nat
  registrations : Nat
  policies : Nat
deriving DecidableEq, Repr

/-- A verdict with what is logged for it. -/
structure Answer where
  verdict : Verdict := .neutral
  log : List LogEvent := []
deriving DecidableEq, Repr

namespace Registry

/-! ### Registering -/

/-- The routes after one more entry on one of them. -/
def insertEntry (route : String) (entry : Entry Policy) :
    List (String × Index Policy) → List (String × Index Policy)
  | [] => [(route, Index.insert {} entry)]
  | (name, index) :: routes =>
    if route < name then (route, Index.insert {} entry) :: (name, index) :: routes
    else if route = name then (name, index.insert entry) :: routes
    else (name, index) :: insertEntry route entry routes

/-- A policy goes to the end of the index of each of its routes. -/
def register (registry : Registry) (c : CompiledPolicy) : Registry :=
  let entry : Entry Policy := { id := c.policy.id, pattern := c.pattern, payload := c.policy }
  { registry with routes := c.policy.routes.foldl (fun routes route => insertEntry route entry routes) registry.routes }

def add (registry : Registry) (p : Policy) : Except ConditionError Registry := do
  return registry.register (← p.compile)

/-- How many registrations an id has. -/
def countId (registry : Registry) (id : String) : Nat :=
  registry.routes.foldr (fun (_, index) n => index.count id + n) 0

/-- The registry without an id.  Routes that are left without a policy are dropped. -/
def remove (registry : Registry) (id : String) : Registry :=
  if registry.countId id = 0 then registry
  else
    let left := registry.routes.map fun (route, index) => (route, index.remove id)
    { registry with routes := left.filter fun (_, index) => !index.isEmpty }

/-- The policy instead of all registrations of its id; also how many these were. -/
def replace (registry : Registry) (p : Policy) : Except ConditionError (Nat × Registry) := do
  let c ← p.compile
  return (registry.countId p.id, (registry.remove p.id).register c)

/-! ### What is registered -/

def index? (registry : Registry) (route : String) : Option (Index Policy) := registry.routes.lookup route

def routeNames (registry : Registry) : List String := registry.routes.map (·.1)

def contains (registry : Registry) (route : String) : Bool := (registry.index? route).isSome

/-- How many policies are registered on a route. -/
def countOn (registry : Registry) (route : String) : Nat := ((registry.index? route).map Index.size).getD 0

def stats (registry : Registry) : Stats :=
  let ids := registry.routes.flatMap fun (_, index) => index.ids
  { routes := registry.routes.length, registrations := ids.length, policies := ids.eraseDups.length }

/-! ### Answering -/

/-- The policies on a route that an event matches, in the order of registration. -/
def matching (registry : Registry) (route : String) (event : Json) : List Policy :=
  ((registry.index? route).map (·.matching event)).getD []

/-- The directives of a policy that go with a kind of verdict. -/
def directives (p : Policy) : Option VerdictKind → List Directive
  | some .rights => p.logging.onAny ++ p.logging.onPermit
  | some .response | some .redirect => p.logging.onAny ++ p.logging.onDeny
  | none => p.logging.onAny

def logFor (route : String) (matched : List Policy) (verdict : Verdict) : List LogEvent :=
  matched.flatMap fun p => (directives p verdict.kind).map fun d => ⟨route, p.id, d⟩

/-- The answer to an event on a route. -/
def answerEvent (registry : Registry) (route : String) (event : Json) : Answer :=
  let matched := registry.matching route event
  let verdict := resolve matched
  { verdict, log := if registry.options.emitLogs then logFor route matched verdict else [] }

/-- The answer to a request on a route. -/
def answer (registry : Registry) (route : String) (request : Request) : Answer :=
  registry.answerEvent route request.toJson

end Registry

end AccessPolicy
