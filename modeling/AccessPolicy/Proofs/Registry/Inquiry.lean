import AccessPolicy.Proofs.Registry.Revocation
import AccessPolicy.Proofs.Resolution.Precedence
import AccessPolicy.Registry.Inquiry

/-!
# The log is complete and changes no verdict

Whether a registry logs is a switch that no operation reads (`logging_run`).  An inquiry gives the verdict of the answer
and puts the events of the answer behind those that the log holds already (`run_judgeEvent`, `run_judge`).  What these
events are is said by the live policies that are matched, in the order of registration, and by the kind of the verdict
(`answers_logged`).
-/

namespace AccessPolicy

/-! ### Inquiries and answers -/

namespace Inquiry

/-- The second of two inquiries finds the log as the first has left it. -/
private theorem run_bind {α β : Type} (x : Inquiry α) (f : α → Inquiry β) (registry : Registry)
    (log : List LogEvent) :
    (x >>= f).run registry log = (f (x.run registry log).1).run registry (x.run registry log).2 := rfl

/-- The events of some directives come to stand at the end of the log, in their order. -/
private theorem run_forM_emit (registry : Registry) (event : Directive → LogEvent) (directives : List Directive)
    (log : List LogEvent) :
    (directives.forM fun d => emit (event d)).run registry log = ((), log ++ directives.map event) := by
  induction directives generalizing log with
  | nil => exact congrArg (Prod.mk ()) (List.append_nil log).symm
  | cons d directives ih =>
    have hfirst : (emit (event d)).run registry log = ((), log ++ [event d]) := rfl
    rw [List.forM_eq_forM, List.forM_cons, run_bind, hfirst]
    refine (ih _).trans ?_
    rw [List.map_cons, List.append_assoc, List.singleton_append]

theorem run_emitDirectives (registry : Registry) (route : String) (kind : Option VerdictKind) (p : Policy)
    (log : List LogEvent) :
    (emitDirectives route kind p).run registry log =
      ((), log ++ (Registry.directives p kind).map fun d => ⟨route, p.id, d⟩) := by
  have hdirectives : p.logging.onAny ++ outcomeDirectives p.logging kind = Registry.directives p kind := by
    match kind with
    | some .rights | some .response | some .redirect => rfl
    | none => exact List.append_nil _
  rw [emitDirectives, run_forM_emit, hdirectives]

theorem run_forM_emitDirectives (registry : Registry) (route : String) (matched : List Policy) (verdict : Verdict)
    (log : List LogEvent) :
    (matched.forM (emitDirectives route verdict.kind)).run registry log =
      ((), log ++ Registry.logFor route matched verdict) := by
  induction matched generalizing log with
  | nil => exact congrArg (Prod.mk ()) (List.append_nil log).symm
  | cons p matched ih =>
    have hcons : Registry.logFor route (p :: matched) verdict =
        (Registry.directives p verdict.kind).map (fun d => ⟨route, p.id, d⟩) ++
          Registry.logFor route matched verdict := rfl
    rw [List.forM_eq_forM, List.forM_cons, run_bind, run_emitDirectives]
    refine (ih _).trans ?_
    rw [hcons, List.append_assoc]

theorem run_evaluate (registry : Registry) (route : String) (index : Index Policy) (event : Json)
    (log : List LogEvent) :
    (evaluate route index event).run registry log =
      (resolve (index.matching event), log ++ if registry.options.emitLogs then
        Registry.logFor route (index.matching event) (resolve (index.matching event)) else []) := by
  have hread : (read : Inquiry Registry).run registry log = (registry, log) := rfl
  rw [evaluate, run_bind, hread]
  cases registry.options.emitLogs with
  | true =>
    rw [if_pos rfl, if_pos rfl, run_bind, run_forM_emitDirectives]
    rfl
  | false =>
    rw [if_neg Bool.false_ne_true, if_neg Bool.false_ne_true, List.append_nil]
    rfl

theorem run_judgeEvent (registry : Registry) (route : String) (event : Json) (log : List LogEvent) :
    (judgeEvent route event).run registry log =
      ((registry.answerEvent route event).verdict, log ++ (registry.answerEvent route event).log) := by
  have hread : (read : Inquiry Registry).run registry log = (registry, log) := rfl
  rw [judgeEvent, run_bind, hread, Registry.answerEvent, Registry.matching]
  cases registry.index? route with
  | some index => exact run_evaluate registry route index event log
  | none =>
    -- nothing is matched on a route that is not there, so there is nothing to log
    have hlog : (if registry.options.emitLogs then Registry.logFor route [] (resolve []) else []) = [] := ite_self _
    exact congrArg (Prod.mk (resolve [])) ((List.append_nil log).symm.trans (congrArg (log ++ ·) hlog.symm))

theorem run_judge (registry : Registry) (route : String) (request : Request) (log : List LogEvent) :
    (judge route request).run registry log =
      ((registry.answer route request).verdict, log ++ (registry.answer route request).log) :=
  run_judgeEvent registry route request.toJson log

end Inquiry

namespace Registry

/-! ### What is logged -/

/-- The registry with its log on or off. -/
def logging (registry : Registry) (on : Bool) : Registry :=
  { registry with options := { registry.options with emitLogs := on } }

/-- The live policies on a route that an event matches, in the order of registration. -/
def matchedBy (live : List CompiledPolicy) (route : String) (event : Json) : List Policy :=
  ((onRoute live route).filter (·.pattern.accepts event)).map (·.policy)

/-- Answers with the log on and off when these policies are matched, and the steps that come to them. -/
structure Logged (registry : Registry) (route : String) (matched : List Policy) (answer : Bool → Answer)
    (steps : Inquiry Verdict) : Prop where
  /-- The verdict is the same whether or not it is logged. -/
  verdict : ∀ on, (answer on).verdict = resolve matched
  silent : (answer false).log = []
  /-- Rights are logged by the directives for any verdict and those for a permission, policy after policy. -/
  granted : (resolve matched).kind = some .rights →
    (answer true).log = matched.flatMap fun p => (p.logging.onAny ++ p.logging.onPermit).map (LogEvent.mk route p.id)
  /-- A response and a redirect are logged by the directives for any verdict and those for a denial. -/
  forced : (resolve matched).kind = some .response ∨ (resolve matched).kind = some .redirect →
    (answer true).log = matched.flatMap fun p => (p.logging.onAny ++ p.logging.onDeny).map (LogEvent.mk route p.id)
  neutral : (resolve matched).isNeutral = true → (answer true).log = []
  /-- The steps give the verdict, and put the events behind those that are in the log already. -/
  steps : ∀ on log, steps.run (registry.logging on) log = ((answer on).verdict, log ++ (answer on).log)

private theorem logFor_of_kind {matched : List Policy} {kind : VerdictKind} (h : (resolve matched).kind = some kind)
    (route : String) :
    logFor route matched (resolve matched) =
      matched.flatMap fun p => (directives p (some kind)).map (LogEvent.mk route p.id) := by
  rw [logFor, h]

private theorem eq_nil_of_isNeutral {matched : List Policy} (h : (resolve matched).isNeutral = true) :
    matched = [] := by
  by_contra hne
  -- policies that are matched come to a verdict of one of the three kinds
  rcases Resolution.resolve_cases hne with ⟨-, -, p, -, hv⟩ | ⟨-, -, p, -, hv⟩ | ⟨-, -, hv⟩
  all_goals
    rw [hv] at h
    cases h

section

variable [Regex.Engine]

/-! ### The switch -/

theorem liveAfter_emitLogs (options : RegistryOptions) (on : Bool) (operations : List Operation) :
    liveAfter { options with emitLogs := on } operations = liveAfter options operations := by
  have hnext : liveNext { options with emitLogs := on } = liveNext options := by
    funext live operation
    cases operation <;> rfl
  rw [liveAfter, liveAfter, hnext]

/-- No operation reads the switch: it may as well be set before a run as after it. -/
theorem logging_run (options : RegistryOptions) (operations : List Operation) (on : Bool) :
    (run { options } operations).logging on = run { options := { options with emitLogs := on } } operations := by
  obtain ⟨h, hoptions⟩ := represents_run options operations
  obtain ⟨h', hoptions'⟩ := represents_run { options with emitLogs := on } operations
  rw [liveAfter_emitLogs] at h'
  have hlogging : Represents ((run { options } operations).logging on) (liveAfter options operations) :=
    ⟨h.tidy, h.compiled, h.entries, h.all⟩
  refine hlogging.unique h' ?_
  rw [hoptions', logging, hoptions]

/-! ### Answers -/

theorem Represents.matching {registry : Registry} {live : List CompiledPolicy} (h : Represents registry live)
    (route : String) (event : Json) : registry.matching route event = matchedBy live route event := by
  rw [matching_eq, h.entries, List.filter_map, List.map_map]
  rfl

theorem Represents.logged {registry : Registry} {live : List CompiledPolicy} (h : Represents registry live)
    (route : String) (event : Json) :
    Logged registry route (matchedBy live route event) (fun on => (registry.logging on).answerEvent route event)
      (Inquiry.judgeEvent route event) := by
  have hanswer : ∀ on, (registry.logging on).answerEvent route event =
      { verdict := resolve (matchedBy live route event)
        log := if on = true then logFor route (matchedBy live route event) (resolve (matchedBy live route event))
          else [] } := by
    intro on
    rw [← h.matching]
    rfl
  have hlog : ((registry.logging true).answerEvent route event).log =
      logFor route (matchedBy live route event) (resolve (matchedBy live route event)) := by
    rw [hanswer, if_pos rfl]
  refine ⟨fun on => ?verdict, ?silent, fun hkind => ?granted, fun hkind => ?forced, fun hneutral => ?neutral, ?steps⟩
  case verdict => rw [hanswer]
  case silent => rw [hanswer, if_neg Bool.false_ne_true]
  case granted => rw [hlog, logFor_of_kind hkind]; rfl
  case forced =>
    rcases hkind with hkind | hkind
    · rw [hlog, logFor_of_kind hkind]; rfl
    · rw [hlog, logFor_of_kind hkind]; rfl
  case neutral => rw [hlog, eq_nil_of_isNeutral hneutral]; rfl
  case steps => exact fun on => Inquiry.run_judgeEvent _ route event

/-- In every state that operations lead to, and on every route, events and requests get the same verdicts with the log
on and off, and with the log on every directive that the verdict calls for is logged once.  The state with the switch
set is the one that the operations lead to when the switch was set from the start. -/
theorem answers_logged (options : RegistryOptions) (operations : List Operation) (route : String) :
    (∀ on, (run { options } operations).logging on =
      run { options := { options with emitLogs := on } } operations) ∧
    (∀ event, Logged (run { options } operations) route (matchedBy (liveAfter options operations) route event)
      (fun on => ((run { options } operations).logging on).answerEvent route event)
      (Inquiry.judgeEvent route event)) ∧
    ∀ request : Request, Logged (run { options } operations) route
      (matchedBy (liveAfter options operations) route request.toJson)
      (fun on => ((run { options } operations).logging on).answer route request) (Inquiry.judge route request) := by
  obtain ⟨h, -⟩ := represents_run options operations
  refine ⟨logging_run options operations, h.logged route, fun request => ?_⟩
  have hlogged := h.logged route request.toJson
  exact { hlogged with steps := fun on => Inquiry.run_judge _ route request }

end

/-- The host decides, and speaks after the guest; but it was registered first, and so it is logged first. -/
example :
    let guest : Policy :=
      { manifest := { id := "guest", priority := 1 }, routes := ["/hall"]
        logging := { onAny := [{ message := "came" }], onDeny := [{ message := "was sent off" }] } }
    let host : Policy :=
      { manifest := { id := "host", priority := 2 }, routes := ["/hall"], effects := { returnCode := some 403 }
        logging := { onPermit := [{ message := "let in" }], onDeny := [{ message := "sent someone off" }] } }
    ((run { options := { emitLogs := true } } [.add host, .add guest]).answerEvent "/hall" .null).log =
      [⟨"/hall", "host", { message := "sent someone off" }⟩, ⟨"/hall", "guest", { message := "came" }⟩,
        ⟨"/hall", "guest", { message := "was sent off" }⟩] := by
  cbv

end Registry

end AccessPolicy
