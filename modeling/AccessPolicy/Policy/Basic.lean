import AccessPolicy.Json.Record

/-!
# Policies

A policy is bound to routes and says what happens to a request on them that meets its condition: rights are
granted and revoked, or a response or a redirect is forced.  The greater its priority, the later it speaks.
-/

namespace AccessPolicy

structure Manifest where
  id : String := ""
  priority : Int64 := 0
  scope : String := ""
  version : String := ""
  name : String := ""
  description : String := ""
deriving DecidableEq, Repr

/-- What a policy does when its condition is met. -/
structure Effects where
  allowed : List String := []
  denied : List String := []
  redirect : Option String := none
  returnCode : Option UInt16 := none
  returnMessage : Option String := none
deriving DecidableEq, Repr

/-- A line for the log of the place named by `source`. -/
structure Directive where
  source : String := ""
  priority : Int64 := 0
  message : String := ""
deriving DecidableEq, Repr

/-- The directives for a verdict that grants rights, for one that forces an answer, and for either. -/
structure Logging where
  onPermit : List Directive := []
  onDeny : List Directive := []
  onAny : List Directive := []
deriving DecidableEq, Repr

def Logging.isEmpty (logging : Logging) : Bool :=
  logging.onPermit.isEmpty && logging.onDeny.isEmpty && logging.onAny.isEmpty

structure Policy where
  manifest : Manifest := {}
  routes : List String := []
  effects : Effects := {}
  logging : Logging := {}
  /-- The text of the pattern that a request has to match; a blank one is matched by every request. -/
  condition : String := ""
deriving DecidableEq, Repr

namespace Policy

instance : Inhabited Policy := ⟨{}⟩

def id (p : Policy) : String := p.manifest.id

def priority (p : Policy) : Int64 := p.manifest.priority

/-- The policy forces a response. -/
def forcesResponse (p : Policy) : Bool := p.effects.returnCode.isSome

/-- Where the policy sends the request; an empty target is none. -/
def redirectTarget? (p : Policy) : Option String := p.effects.redirect.filter (· ≠ "")

/-- The policy grants or revokes a right. -/
def hasRights (p : Policy) : Bool := !p.effects.allowed.isEmpty || !p.effects.denied.isEmpty

end Policy

/-! ### As JSON

What is written has its fields in the order of their declaration.
-/

open Json

def Manifest.ofJson? (value : Json) : Option Manifest := do
  let m ← members? ["id", "priority", "namespace", "version", "name", "description"] value
  return {
    id := ← field m "id" "" asString?
    priority := ← field m "priority" 0 int64?
    scope := ← field m "namespace" "" asString?
    version := ← field m "version" "" asString?
    name := ← field m "name" "" asString?
    description := ← field m "description" "" asString? }

def Manifest.toJson (m : Manifest) : Json :=
  object [("id", .string m.id), ("priority", ofInt m.priority.toInt), ("namespace", .string m.scope),
    ("version", .string m.version), ("name", .string m.name), ("description", .string m.description)]

def Effects.ofJson? (value : Json) : Option Effects := do
  let m ← members? ["allowed", "denied", "redirect", "returnCode", "returnMsg"] value
  return {
    allowed := ← field m "allowed" [] strings?
    denied := ← field m "denied" [] strings?
    redirect := ← field m "redirect" none (nullable? asString?)
    returnCode := ← field m "returnCode" none (nullable? uint16?)
    returnMessage := ← field m "returnMsg" none (nullable? asString?) }

def Effects.toJson (e : Effects) : Json :=
  object [("allowed", ofStrings e.allowed), ("denied", ofStrings e.denied),
    ("redirect", ofNullable .string e.redirect), ("returnCode", ofNullable (ofNat ·.toNat) e.returnCode),
    ("returnMsg", ofNullable .string e.returnMessage)]

def Directive.ofJson? (value : Json) : Option Directive := do
  let m ← members? ["source", "priority", "message"] value
  return {
    source := ← field m "source" "" asString?
    priority := ← field m "priority" 0 int64?
    message := ← field m "message" "" asString? }

def Directive.toJson (d : Directive) : Json :=
  object [("source", .string d.source), ("priority", ofInt d.priority.toInt), ("message", .string d.message)]

def Logging.ofJson? (value : Json) : Option Logging := do
  let m ← members? ["onPermit", "onDeny", "onAny"] value
  return {
    onPermit := ← field m "onPermit" [] (list? Directive.ofJson?)
    onDeny := ← field m "onDeny" [] (list? Directive.ofJson?)
    onAny := ← field m "onAny" [] (list? Directive.ofJson?) }

def Logging.toJson (l : Logging) : Json :=
  object [("onPermit", .array (l.onPermit.map Directive.toJson)),
    ("onDeny", .array (l.onDeny.map Directive.toJson)), ("onAny", .array (l.onAny.map Directive.toJson))]

def Policy.ofJson? (value : Json) : Option Policy := do
  let m ← members? ["manifest", "routes", "rights", "logging", "matches"] value
  return {
    manifest := ← field m "manifest" {} Manifest.ofJson?
    routes := ← field m "routes" [] strings?
    effects := ← field m "rights" {} Effects.ofJson?
    logging := ← field m "logging" {} Logging.ofJson?
    condition := ← field m "matches" "" asString? }

def Policy.toJson (p : Policy) : Json :=
  object [("manifest", p.manifest.toJson), ("routes", ofStrings p.routes), ("rights", p.effects.toJson),
    ("logging", p.logging.toJson), ("matches", .string p.condition)]

end AccessPolicy
