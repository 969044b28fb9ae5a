import AccessPolicy.Json.Record
import AccessPolicy.Text.Lower

/-!
# Verdicts

The answer to a request: a response, a redirect or a set of rights, or nothing when no policy has a say.
-/

namespace AccessPolicy

inductive VerdictKind
  | response
  | redirect
  | rights
deriving DecidableEq, Repr

def VerdictKind.name : VerdictKind → String
  | response => "response"
  | redirect => "redirect"
  | rights => "rights"

structure ForcedResponse where
  code : Option UInt16 := none
  message : String := ""
deriving DecidableEq, Repr

structure Verdict where
  /-- None when no policy has a say. -/
  kind : Option VerdictKind := none
  response : ForcedResponse := {}
  redirect : Option String := none
  /-- In lower case, each one once. -/
  rights : List String := []
  /-- In ascending order of the keys. -/
  metadata : List (String × String) := []
deriving DecidableEq, Repr

namespace Verdict

def neutral : Verdict := {}

def isNeutral (v : Verdict) : Bool := v.kind.isNone

/-- The right is granted; case does not matter. -/
def grants (v : Verdict) (right : String) : Bool := v.rights.contains (Text.lower right)

end Verdict

open Json

/-- A name, or an object with the name as its only field and nothing in it. -/
def VerdictKind.ofJson? (value : Json) : Option VerdictKind := do
  let name ← match value with
    | .string name => some name
    | .object [(name, .null)] => some name
    | _ => none
  [response, redirect, rights].find? (·.name == name)

def ForcedResponse.ofJson? (value : Json) : Option ForcedResponse := do
  let m ← members? ["returnCode", "returnMsg"] value
  return {
    code := ← field m "returnCode" none (nullable? uint16?)
    message := ← field m "returnMsg" "" asString? }

def ForcedResponse.toJson (r : ForcedResponse) : Json :=
  object [("returnCode", ofNullable (ofNat ·.toNat) r.code), ("returnMsg", .string r.message)]

def Verdict.ofJson? (value : Json) : Option Verdict := do
  let m ← members? ["type", "response", "redirect", "rights", "metadata"] value
  return {
    kind := ← field m "type" none (nullable? VerdictKind.ofJson?)
    response := ← field m "response" {} ForcedResponse.ofJson?
    redirect := ← field m "redirect" none (nullable? asString?)
    rights := ← field m "rights" [] strings?
    metadata := ← field m "metadata" [] (entries? asString?) }

def Verdict.toJson (v : Verdict) : Json :=
  object [("type", ofNullable (fun kind => .string kind.name) v.kind), ("response", v.response.toJson),
    ("redirect", ofNullable .string v.redirect), ("rights", ofStrings v.rights),
    ("metadata", .object (v.metadata.map fun (key, text) => (key, .string text)))]

end AccessPolicy
