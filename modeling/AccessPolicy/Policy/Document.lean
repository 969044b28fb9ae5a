import AccessPolicy.Policy.Basic
import AccessPolicy.Text.Blank
import AccessPolicy.Text.Decimal

/-!
# Writing a policy as a document

One line for each element, indented by its depth.  Sections and elements that say nothing are left out, except
that the manifest, the paths and the effects are always there.  Values are written as they are: nothing is
escaped.
-/

namespace AccessPolicy.Policy

/-- Lines that each end in a line feed. -/
def ofLines (lines : List String) : String := lines.foldr (fun line rest => line ++ "\n" ++ rest) ""

def element (tag body : String) : String := "    <" ++ tag ++ ">" ++ body ++ "</" ++ tag ++ ">"

def quotedList (items : List String) : String := " ".intercalate (items.map fun s => "\"" ++ s ++ "\"")

def directiveLine (tag : String) (d : Directive) : String :=
  "    <" ++ tag ++ " source=\"" ++ d.source ++ "\" priority=\"" ++ Text.renderInt d.priority.toInt ++ "\">" ++
    d.message ++ "</" ++ tag ++ ">"

def manifestLines (m : Manifest) : List String :=
  ["  <manifest>", element "id" m.id, element "ns" m.scope, element "v" m.version, element "name" m.name,
    element "desc" m.description, element "priority" (Text.renderInt m.priority.toInt), "  </manifest>"]

def pathLines (routes : List String) : List String :=
  ["  <paths>"] ++ routes.map (element "path") ++ ["  </paths>"]

def effectLines (e : Effects) : List String :=
  ["  <effects>"] ++
    (if e.allowed.isEmpty then [] else [element "allow" (quotedList e.allowed)]) ++
    (if e.denied.isEmpty then [] else [element "deny" (quotedList e.denied)]) ++
    e.redirect.toList.map (element "redirect") ++
    e.returnMessage.toList.map (element "return") ++
    e.returnCode.toList.map (fun code => element "returncode" (Text.renderInt code.toNat)) ++
    ["  </effects>"]

def loggingLines (l : Logging) : List String :=
  if l.isEmpty then []
  else
    ["  <log>"] ++ l.onPermit.map (directiveLine "onpermit") ++ l.onDeny.map (directiveLine "ondeny") ++
      l.onAny.map (directiveLine "onany") ++ ["  </log>"]

def conditionLines (condition : String) : List String :=
  let core := Text.trimmed condition
  if core = "" then []
  else ["  <matches>", "    <match type=\"json\">" ++ core ++ "</match>", "  </matches>"]

/-- The policy as a document. -/
def document (p : Policy) : String :=
  ofLines (["<policy>"] ++ manifestLines p.manifest ++ pathLines p.routes ++ effectLines p.effects ++
    loggingLines p.logging ++ conditionLines p.condition) ++ "</policy>"

end AccessPolicy.Policy
