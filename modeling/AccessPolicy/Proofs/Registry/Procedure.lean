import AccessPolicy.Proofs.Registry.Run
import AccessPolicy.Registry.Procedure

/-!
# Procedures go through or do nothing

A procedure that fails leaves the registry as the steps before the failure left it, so nothing in the way it is run
makes up for a change that came too early.  Each procedure is described by what it leaves (`run_add`, `run_replace`,
`run_remove`, `run_load`): all that may fail comes before the first change.  An operation therefore either goes
through as a whole or leaves the registry as it was (`allOrNothing`), and a sequence of operations leaves what it would
have left without those of them that failed (`proceedAll_passing`).
-/

namespace AccessPolicy

/-! ### Each procedure -/

namespace Procedure

variable {α β : Type}

theorem run_bind_ok {x : Procedure α} {registry next : Registry} {a : α} (h : x.run registry = .ok a next)
    (f : α → Procedure β) : (x >>= f).run registry = (f a).run next := by
  change EStateM.bind x f registry = f a next
  rw [EStateM.bind, show x registry = .ok a next from h]

theorem run_bind_error {x : Procedure α} {registry next : Registry} {cause : RegistryError}
    (h : x.run registry = .error cause next) (f : α → Procedure β) : (x >>= f).run registry = .error cause next := by
  change EStateM.bind x f registry = .error cause next
  rw [EStateM.bind, show x registry = .error cause next from h]

theorem run_register (c : CompiledPolicy) (registry : Registry) :
    (register c).run registry = .ok () (registry.register c) := by
  unfold register Registry.register
  generalize c.policy.routes = names
  induction names generalizing registry with
  | nil => rfl
  | cons route names ih => exact ih _

/-- Without registrations of an id the routes have nothing to lose. -/
private theorem map_remove_of_countId {registry : Registry} {id : String} (h : registry.countId id = 0) :
    registry.routes.map (fun (route, index) => (route, index.remove id)) = registry.routes := by
  rw [Registry.countId_eq, List.countP_eq_zero] at h
  refine (List.map_congr_left fun r hr => ?_).trans (List.map_id _)
  have hentries : (r.2.remove id).entries = r.2.entries := by
    rw [Index.entries_remove, List.filter_eq_self]
    intro e he
    simpa using h e (List.mem_flatMap.2 ⟨r, hr, he⟩)
  obtain ⟨route, ⟨entries⟩⟩ := r
  exact congrArg (fun entries => (route, (⟨entries⟩ : Index Policy))) hentries

theorem run_remove (id : String) (registry : Registry) :
    (remove id).run registry = .ok (registry.countId id) (registry.remove id) := by
  change (if 0 < registry.countId id then _ else _ : Procedure Nat) _ = _
  by_cases hzero : registry.countId id = 0
  · rw [if_neg (by omega), Registry.remove, if_pos hzero]
    have hroutes := map_remove_of_countId hzero
    change EStateM.Result.ok (registry.countId id) { registry with routes := _ } = _
    rw [hroutes]
  · rw [if_pos (by omega), Registry.remove, if_neg hzero]
    rfl

theorem run_registerNext (compiled : List CompiledPolicy) (report : LoadReport) (registry : Registry) :
    (compiled.foldlM registerNext report).run registry =
      .ok { report with registered := report.registered ++ compiled.map (·.policy.id) }
        (compiled.foldl Registry.register registry) := by
  induction compiled generalizing report registry with
  | nil => simp [EStateM.run_pure]
  | cons c compiled ih =>
    have hnext : (registerNext report c).run registry =
        .ok { report with registered := report.registered ++ [c.policy.id] } (registry.register c) :=
      run_bind_ok (run_register c registry) _
    rw [List.foldlM_cons, run_bind_ok hnext, ih, List.append_assoc, List.singleton_append]
    rfl

variable [Regex.Engine]

theorem run_add (p : Policy) (registry : Registry) :
    (add p).run registry = match registry.add p with
      | .ok next => .ok () next
      | .error cause => .error (.condition cause) registry := by
  unfold add Registry.add
  cases p.compile with
  | error cause => rfl
  | ok c => exact run_register c registry

theorem run_replace (p : Policy) (registry : Registry) :
    (replace p).run registry = match registry.replace p with
      | .ok (n, next) => .ok n next
      | .error cause => .error (.condition cause) registry := by
  unfold replace Registry.replace
  cases p.compile with
  | error cause => rfl
  | ok c =>
    change (remove p.id >>= fun removed => register c >>= fun _ => pure removed).run registry = _
    rw [run_bind_ok (run_remove p.id registry), run_bind_ok (run_register c (registry.remove p.id))]
    rfl

private theorem compileNext_ok {found : String × Policy} {c : CompiledPolicy} (h : found.2.compile = .ok c)
    (skip : Bool) (read : List CompiledPolicy × LoadReport) (registry : Registry) :
    (compileNext skip read found).run registry = .ok (read.1 ++ [c], read.2) registry := by
  rw [compileNext, h]
  rfl

/-- Conditions are read without a change.  If bad ones may be skipped or there are none, all are read. -/
theorem run_compileNext {skip : Bool} {policies : List (String × Policy)}
    (h : skip = true ∨ (compileAll policies).2 = []) (read : List CompiledPolicy × LoadReport) (registry : Registry) :
    (policies.foldlM (compileNext skip) read).run registry =
      .ok (read.1 ++ (compileAll policies).1,
        { read.2 with rejected := read.2.rejected ++ (compileAll policies).2 }) registry := by
  induction policies generalizing read with
  | nil => simp [compileAll, EStateM.run_pure]
  | cons found policies ih =>
    rw [List.foldlM_cons]
    cases hc : found.2.compile with
    | ok c =>
      rw [Registry.compileAll_cons_ok hc] at h ⊢
      rw [run_bind_ok (compileNext_ok hc skip read registry), ih h]
      simp
    | error cause =>
      rw [Registry.compileAll_cons_error hc] at h ⊢
      have hskip : skip = true := h.resolve_right (List.cons_ne_nil _ _)
      have hnext : (compileNext skip read found).run registry =
          .ok (read.1, { read.2 with rejected := read.2.rejected ++ [(found.1, cause)] }) registry := by
        rw [compileNext, hc, hskip]
        rfl
      rw [run_bind_ok hnext, ih (.inl hskip)]
      simp

/-- Where none may be skipped, the first bad condition is the error. -/
theorem run_compileNext_error {policies : List (String × Policy)} {path : String} {cause : ConditionError}
    {others : List (String × ConditionError)} (h : (compileAll policies).2 = (path, cause) :: others)
    (read : List CompiledPolicy × LoadReport) (registry : Registry) :
    (policies.foldlM (compileNext false) read).run registry = .error (.condition cause) registry := by
  induction policies generalizing read with
  | nil => cases h
  | cons found policies ih =>
    rw [List.foldlM_cons]
    cases hc : found.2.compile with
    | ok c =>
      rw [Registry.compileAll_cons_ok hc] at h
      rw [run_bind_ok (compileNext_ok hc false read registry), ih h]
    | error first =>
      rw [Registry.compileAll_cons_error hc] at h
      cases h
      refine run_bind_error ?_ _
      rw [compileNext, hc]
      rfl

/-- If bad conditions may be skipped or there are none, the policies are registered and the bad ones reported. -/
theorem run_registerAll {skip : Bool} {loaded : Loaded} (h : skip = true ∨ (compileAll loaded.policies).2 = [])
    (registry : Registry) :
    (registerAll skip loaded).run registry =
      .ok { registered := (compileAll loaded.policies).1.map (·.policy.id), fileFailures := loaded.failures,
            rejected := (compileAll loaded.policies).2 }
        ((compileAll loaded.policies).1.foldl Registry.register registry) := by
  have hread := run_compileNext h ([], { fileFailures := loaded.failures }) registry
  exact (run_bind_ok hread _).trans (run_registerNext _ _ registry)

private theorem run_load_ok (loaded : Loaded) (registry : Registry) :
    (load (.ok loaded)).run registry =
      if registry.options.skipInvalid = true then (registerAll true loaded).run registry
      else match loaded.error? with
        | some cause => .error (.load cause) registry
        | none => (registerAll false loaded).run registry := by
  change (if registry.options.skipInvalid = true then _ else _ : Procedure LoadReport) registry = _
  cases hskip : registry.options.skipInvalid with
  | true =>
    rw [if_pos rfl, if_pos rfl]
    rfl
  | false =>
    rw [if_neg Bool.false_ne_true, if_neg Bool.false_ne_true]
    cases loaded.error? <;> rfl

/-- The procedure that loads reports and leaves what a load does, and an error leaves the registry. -/
theorem run_load (found : Except LoadError Loaded) (registry : Registry) :
    (load found).run registry = match registry.load found with
      | .ok (report, next) => .ok report next
      | .error cause => .error cause registry := by
  cases found with
  | error cause => rfl
  | ok loaded =>
    rw [run_load_ok]
    simp only [Registry.load, Except.mapError, bind, Except.bind]
    by_cases hskip : registry.options.skipInvalid = true
    · rw [if_pos hskip, if_pos hskip, run_registerAll (.inl rfl)]
      rfl
    · rw [if_neg hskip, if_neg hskip]
      cases loaded.error? with
      | some cause => rfl
      | none =>
        cases hrejected : (compileAll loaded.policies).2 with
        | nil =>
          rw [run_registerAll (.inr hrejected), hrejected]
          rfl
        | cons rejected others =>
          have hread := run_compileNext_error hrejected ([], { fileFailures := loaded.failures }) registry
          exact run_bind_error hread _

end Procedure

/-! ### Operations -/

namespace Registry

variable [Regex.Engine]

/-- The steps of an operation. -/
def Operation.procedure : Operation → Procedure Outcome
  | .add p => do
    Procedure.add p
    return .added
  | .replace p => return .removed (← Procedure.replace p)
  | .remove id => return .removed (← Procedure.remove id)
  | .load system path suffix => return .loaded (← Procedure.load (system.loadAll path suffix))

/-- An operation fails with the error that refuses it, and then the registry is as it was.  Otherwise its steps come to
what the operation is. -/
theorem run_procedure (operation : Operation) (registry : Registry) :
    operation.procedure.run registry = match registry.perform operation with
      | (.refused cause, _) => .error cause registry
      | (outcome, next) => .ok outcome next := by
  cases operation with
  | add p =>
    have hrun := Procedure.run_add p registry
    simp only [perform]
    cases hadd : registry.add p with
    | ok next => rw [hadd] at hrun; exact Procedure.run_bind_ok hrun _
    | error cause => rw [hadd] at hrun; exact Procedure.run_bind_error hrun _
  | replace p =>
    have hrun := Procedure.run_replace p registry
    simp only [perform]
    cases hreplace : registry.replace p with
    | ok result => rw [hreplace] at hrun; exact Procedure.run_bind_ok hrun _
    | error cause => rw [hreplace] at hrun; exact Procedure.run_bind_error hrun _
  | remove id => exact Procedure.run_bind_ok (Procedure.run_remove id registry) _
  | load system path suffix =>
    have hrun := Procedure.run_load (system.loadAll path suffix) registry
    simp only [perform]
    cases hload : registry.load (system.loadAll path suffix) with
    | ok result => rw [hload] at hrun; exact Procedure.run_bind_ok hrun _
    | error cause => rw [hload] at hrun; exact Procedure.run_bind_error hrun _

/-- An operation goes through as a whole or does nothing. -/
structure AllOrNothing (registry : Registry) (operation : Operation) : Prop where
  /-- Steps that stop at an error leave the registry on which they began. -/
  unchanged : ∀ cause next, operation.procedure.run registry = .error cause next → next = registry
  /-- The errors are those with which the operation is refused. -/
  fails_iff : ∀ cause, (∃ next, operation.procedure.run registry = .error cause next) ↔
    (registry.perform operation).1 = .refused cause
  /-- Steps that go through do all that the operation does. -/
  passes_iff : ∀ outcome next, operation.procedure.run registry = .ok outcome next ↔
    registry.perform operation = (outcome, next) ∧ ∀ cause, outcome ≠ .refused cause

theorem allOrNothing (registry : Registry) (operation : Operation) : AllOrNothing registry operation := by
  have hrun := run_procedure operation registry
  refine ⟨?_, ?_, ?_⟩
  · intro cause next h
    rw [h] at hrun
    split at hrun <;> cases hrun
    rfl
  · intro cause
    rw [hrun]
    split
    · rename_i refusal left hperform
      simp [hperform]
    · rename_i outcome left hpass hperform
      constructor
      · rintro ⟨next, h⟩
        cases h
      · intro h
        rw [hperform] at h
        exact (hpass cause h).elim
  · intro outcome next
    rw [hrun]
    split
    · rename_i refusal left hperform
      constructor
      · intro h
        cases h
      · rintro ⟨h, hpass⟩
        rw [hperform] at h
        cases h
        exact absurd rfl (hpass refusal)
    · rename_i outcome' left hpass hperform
      rw [hperform]
      constructor
      · intro h
        cases h
        exact ⟨rfl, hpass⟩
      · rintro ⟨h, -⟩
        cases h
        rfl

/-! ### Sequences of operations -/

/-- The registry that the steps of an operation leave, whether or not they go through. -/
def proceed (registry : Registry) (operation : Operation) : Registry :=
  match operation.procedure.run registry with
  | .ok _ next => next
  | .error _ next => next

/-- The registry that operations leave, one after the other. -/
def proceedAll (registry : Registry) (operations : List Operation) : Registry := operations.foldl proceed registry

/-- The operations that do not fail, each on the registry that those before it have left. -/
def passing (registry : Registry) : List Operation → List Operation
  | [] => []
  | operation :: operations =>
    match operation.procedure.run registry with
    | .ok _ next => operation :: passing next operations
    | .error _ next => passing next operations

private theorem perform_refused {registry : Registry} {operation : Operation} {cause : RegistryError}
    (h : (registry.perform operation).1 = .refused cause) : (registry.perform operation).2 = registry := by
  cases operation with
  | add p =>
    simp only [perform] at h ⊢
    cases hadd : registry.add p with
    | ok next => rw [hadd] at h; cases h
    | error cause => rfl
  | replace p =>
    simp only [perform] at h ⊢
    cases hreplace : registry.replace p with
    | ok result => rw [hreplace] at h; cases h
    | error cause => rfl
  | remove id => cases h
  | load system path suffix =>
    simp only [perform] at h ⊢
    cases hload : registry.load (system.loadAll path suffix) with
    | ok result => rw [hload] at h; cases h
    | error cause => rfl

/-- Step by step or at once, the same registry is left. -/
theorem proceedAll_eq_run (registry : Registry) (operations : List Operation) :
    proceedAll registry operations = run registry operations := by
  have hstep : ∀ registry operation, proceed registry operation = (registry.perform operation).2 := by
    intro registry operation
    have hwhole := allOrNothing registry operation
    cases hrun : operation.procedure.run registry with
    | ok outcome next =>
      rw [proceed, hrun, ((hwhole.passes_iff outcome next).1 hrun).1]
    | error cause next =>
      rw [proceed, hrun, perform_refused ((hwhole.fails_iff cause).1 ⟨next, hrun⟩)]
      exact hwhole.unchanged cause next hrun
  rw [proceedAll, run, funext fun registry => funext (hstep registry)]

theorem proceedAll_cons_ok {registry next : Registry} {operation : Operation} {outcome : Outcome}
    (h : operation.procedure.run registry = .ok outcome next) (operations : List Operation) :
    proceedAll registry (operation :: operations) = proceedAll next operations := by
  rw [proceedAll, List.foldl_cons, proceed, h]
  rfl

/-- Operations behind one that failed begin on the registry that it began on. -/
theorem proceedAll_cons_error {registry next : Registry} {operation : Operation} {cause : RegistryError}
    (h : operation.procedure.run registry = .error cause next) (operations : List Operation) :
    proceedAll registry (operation :: operations) = proceedAll registry operations := by
  rw [proceedAll, List.foldl_cons, proceed, h]
  exact congrArg (proceedAll · operations) ((allOrNothing registry operation).unchanged cause next h)

theorem proceedAll_passing (registry : Registry) (operations : List Operation) :
    proceedAll registry (passing registry operations) = proceedAll registry operations := by
  induction operations generalizing registry with
  | nil => rfl
  | cons operation operations ih =>
    cases hrun : operation.procedure.run registry with
    | ok outcome next => rw [passing, hrun, proceedAll_cons_ok hrun, proceedAll_cons_ok hrun, ih]
    | error cause next =>
      obtain rfl : next = registry := (allOrNothing registry operation).unchanged cause next hrun
      rw [passing, hrun, proceedAll_cons_error hrun]
      exact ih next

/-- Operations that fail leave no trace.  On the registry after any others, one that fails changes nothing; and of a
sequence, which step by step leaves what it leaves at once, those that fail may be left out. -/
theorem failures_leave_no_trace (registry : Registry) (operations : List Operation) :
    (∀ operation, AllOrNothing (proceedAll registry operations) operation) ∧
      proceedAll registry operations = run registry operations ∧
      proceedAll registry (passing registry operations) = proceedAll registry operations :=
  ⟨allOrNothing _, proceedAll_eq_run registry operations, proceedAll_passing registry operations⟩

end Registry

end AccessPolicy
