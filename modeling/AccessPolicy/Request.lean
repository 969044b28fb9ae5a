import AccessPolicy.Json.Record

/-!
# Rights requests

A request tells who asks for what.  Patterns are matched against its JSON form, in which every field is present.
-/

namespace AccessPolicy

structure HttpPart where
  sourceAddress : String := ""
  targetHost : String := ""
  targetPort : UInt16 := 0
  targetPath : String := ""
deriving DecidableEq, Repr

/-- What the route, the query, the body and the caller say about the request. -/
structure ContextPart where
  pathParameters : List (String × String) := []
  query : List (String × Json) := []
  body : List (String × Json) := []
  context : List (String × Json) := []
deriving Repr

structure UserPart where
  userId : String := ""
  username : String := ""
  displayName : String := ""
  emails : List String := []
  phones : List String := []
  isVerified : Bool := false
  isBlocked : Bool := false
  isActive : Bool := false
  isDeleted : Bool := false
  requiresPasswordUpdate : Bool := false
  workgroups : List String := []
  labels : List (String × String) := []
deriving DecidableEq, Repr

structure Request where
  http : HttpPart := {}
  context : ContextPart := {}
  user : UserPart := {}
deriving Repr

open Json

def HttpPart.ofJson? (value : Json) : Option HttpPart := do
  let m ← members? ["sourceIpAddress", "targetHost", "targetPort", "targetPath"] value
  return {
    sourceAddress := ← field m "sourceIpAddress" "" asString?
    targetHost := ← field m "targetHost" "" asString?
    targetPort := ← field m "targetPort" 0 uint16?
    targetPath := ← field m "targetPath" "" asString? }

def HttpPart.toJson (h : HttpPart) : Json :=
  Json.ofFields [("sourceIpAddress", .string h.sourceAddress), ("targetHost", .string h.targetHost),
    ("targetPort", ofNat h.targetPort.toNat), ("targetPath", .string h.targetPath)]

def ContextPart.ofJson? (value : Json) : Option ContextPart := do
  let m ← members? ["pathParams", "query", "body", "context"] value
  return {
    pathParameters := ← field m "pathParams" [] (entries? asString?)
    query := ← field m "query" [] (entries? some)
    body := ← field m "body" [] (entries? some)
    context := ← field m "context" [] (entries? some) }

def ofTexts (entries : List (String × String)) : Json := .object (entries.map fun (k, s) => (k, .string s))

def ContextPart.toJson (c : ContextPart) : Json :=
  Json.ofFields [("pathParams", ofTexts c.pathParameters), ("query", .object c.query), ("body", .object c.body),
    ("context", .object c.context)]

def UserPart.ofJson? (value : Json) : Option UserPart := do
  let m ← members? ["userId", "username", "displayName", "emails", "phones", "isVerified", "isBlocked", "isActive",
    "isDeleted", "requiresPasswordUpdate", "workgroups", "labels"] value
  return {
    userId := ← field m "userId" "" asString?
    username := ← field m "username" "" asString?
    displayName := ← field m "displayName" "" asString?
    emails := ← field m "emails" [] strings?
    phones := ← field m "phones" [] strings?
    isVerified := ← field m "isVerified" false bool?
    isBlocked := ← field m "isBlocked" false bool?
    isActive := ← field m "isActive" false bool?
    isDeleted := ← field m "isDeleted" false bool?
    requiresPasswordUpdate := ← field m "requiresPasswordUpdate" false bool?
    workgroups := ← field m "workgroups" [] strings?
    labels := ← field m "labels" [] (entries? asString?) }

def UserPart.toJson (u : UserPart) : Json :=
  Json.ofFields [("userId", .string u.userId), ("username", .string u.username),
    ("displayName", .string u.displayName), ("emails", ofStrings u.emails), ("phones", ofStrings u.phones),
    ("isVerified", .bool u.isVerified), ("isBlocked", .bool u.isBlocked), ("isActive", .bool u.isActive),
    ("isDeleted", .bool u.isDeleted), ("requiresPasswordUpdate", .bool u.requiresPasswordUpdate),
    ("workgroups", ofStrings u.workgroups), ("labels", ofTexts u.labels)]

def Request.ofJson? (value : Json) : Option Request := do
  let m ← members? ["httpRequest", "contextRequest", "userRightRequest"] value
  return {
    http := ← field m "httpRequest" {} HttpPart.ofJson?
    context := ← field m "contextRequest" {} ContextPart.ofJson?
    user := ← field m "userRightRequest" {} UserPart.ofJson? }

/-- The event that patterns are matched against. -/
def Request.toJson (r : Request) : Json :=
  Json.ofFields [("httpRequest", r.http.toJson), ("contextRequest", r.context.toJson),
    ("userRightRequest", r.user.toJson)]

end AccessPolicy
