import AccessPolicy.Registry

/-!
# Answering step by step

An inquiry reads a registry and leaves events in a log.  The verdict is there first; then, if the registry is to log,
each matched policy is gone through in the order of registration, and its directives are put into the log one by one.
-/

namespace AccessPolicy

/-- Steps that read a registry and put events at the end of a log. -/
abbrev Inquiry := ReaderT Registry (StateM (List LogEvent))

namespace Inquiry

def emit (e : LogEvent) : Inquiry Unit := modify (· ++ [e])

/-- The directives that a policy has for verdicts of one kind; there are none for the neutral verdict. -/
def outcomeDirectives (logging : Logging) : Option VerdictKind → List Directive
  | some .rights => logging.onPermit
  | some .response | some .redirect => logging.onDeny
  | none => []

/-- A policy puts its directives into the log: those for any verdict, and after them those for the kind of this one. -/
def emitDirectives (route : String) (kind : Option VerdictKind) (p : Policy) : Inquiry Unit :=
  (p.logging.onAny ++ outcomeDirectives p.logging kind).forM fun d => emit ⟨route, p.id, d⟩

/-- The policies on a route that an event matches are resolved, and then they are logged. -/
def evaluate (route : String) (index : Index Policy) (event : Json) : Inquiry Verdict := do
  let matched := index.matching event
  let verdict := resolve matched
  if (← read).options.emitLogs then
    matched.forM (emitDirectives route verdict.kind)
  return verdict

/-- The verdict on an event; neutral on a route that is not there. -/
def judgeEvent (route : String) (event : Json) : Inquiry Verdict := do
  match (← read).index? route with
  | some index => evaluate route index event
  | none => return .neutral

/-- The verdict on a request, which is written as an event only on a route that is there. -/
def judge (route : String) (request : Request) : Inquiry Verdict := do
  match (← read).index? route with
  | some index =>
    let event := request.toJson
    evaluate route index event
  | none => return .neutral

end Inquiry

end AccessPolicy
