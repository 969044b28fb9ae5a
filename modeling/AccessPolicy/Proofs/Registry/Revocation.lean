import AccessPolicy.Proofs.Registry.Run

/-!
# Removing an id as if it had never been there

The live policies without an id are those of the run in which nothing concerned that id (`without_liveAfter`): what
concerns the id only comes and goes among its own policies, and everything else neither sees them nor moves the
others.  A registry is determined by its live policies (`Represents.unique`), so removing an id leaves the registry
of that other run (`run_without_removed`).
-/

namespace AccessPolicy.Registry

/-- The operation registers policies of the id, or removes them. -/
def Operation.concerns (id : String) : Operation → Bool
  | add p | replace p => p.id = id
  | remove other => other = id
  | load _ _ _ => false

/-! ### Live policies without an id -/

theorem without_append (id : String) (live more : List CompiledPolicy) :
    without id (live ++ more) = without id live ++ without id more :=
  List.filter_append live more

theorem without_eq_self {id : String} {live : List CompiledPolicy} (h : ∀ c ∈ live, c.policy.id ≠ id) :
    without id live = live := by
  apply List.filter_eq_self.2
  intro c hc
  simpa using h c hc

theorem without_without (id : String) (live : List CompiledPolicy) :
    without id (without id live) = without id live := by
  apply without_eq_self
  intro c hc
  simpa using (List.mem_filter.1 hc).2

theorem without_comm (id other : String) (live : List CompiledPolicy) :
    without id (without other live) = without other (without id live) :=
  List.filter_comm ..

variable {id : String}

/-- A policy of the id is not seen behind the others. -/
theorem without_concat_of_eq {c : CompiledPolicy} (h : c.policy.id = id) (live : List CompiledPolicy) :
    without id (live ++ [c]) = without id live := by
  have hself : without id [c] = [] := by simp [without, h]
  rw [without_append, hself, List.append_nil]

/-- A policy of another id stays behind the others. -/
theorem without_concat_of_ne {c : CompiledPolicy} (h : c.policy.id ≠ id) (live : List CompiledPolicy) :
    without id (live ++ [c]) = without id live ++ [c] := by
  have hself : without id [c] = [c] := without_eq_self (by simpa using h)
  rw [without_append, hself]

section

variable [Regex.Engine]

/-! ### A registry is determined by its live policies -/

theorem Represents.unique {registry other : Registry} {live : List CompiledPolicy} (h : Represents registry live)
    (h' : Represents other live) (hoptions : registry.options = other.options) : registry = other := by
  have hroutes : registry.routes = other.routes := by
    apply h.tidy.ext h'.tidy
    intro route
    rw [h.entries, h'.entries]
  obtain ⟨options, routes⟩ := registry
  obtain ⟨options', routes'⟩ := other
  cases hoptions
  cases hroutes
  rfl

theorem run_append (registry : Registry) (operations later : List Operation) :
    run registry (operations ++ later) = run (run registry operations) later :=
  List.foldl_append

/-! ### Runs without an id -/

/-- A load brings no policy of the id.  Nothing is asked of other operations. -/
def Operation.Spares (options : RegistryOptions) (id : String) : Operation → Prop
  | load system path suffix => ∀ c ∈ admitted options (system.loadAll path suffix), c.policy.id ≠ id
  | _ => True

variable {options : RegistryOptions}

/-- What concerns an id is not seen without it. -/
theorem without_liveNext_of_concerns {operation : Operation} (h : operation.concerns id = true)
    (live : List CompiledPolicy) : without id (liveNext options live operation) = without id live := by
  cases operation with
  | add p =>
    have hid : p.id = id := by simpa [Operation.concerns] using h
    rw [liveNext]
    cases hc : p.compile with
    | error cause => rfl
    | ok c =>
      obtain rfl : c.policy = p := compile_policy hc
      exact without_concat_of_eq hid live
  | replace p =>
    obtain rfl : p.id = id := by simpa [Operation.concerns] using h
    rw [liveNext]
    cases hc : p.compile with
    | error cause => rfl
    | ok c =>
      obtain rfl : c.policy = p := compile_policy hc
      exact (without_concat_of_eq rfl _).trans (without_without _ live)
  | remove other =>
    obtain rfl : other = id := by simpa [Operation.concerns] using h
    exact without_without other live
  | load system path suffix => exact absurd h Bool.false_ne_true

/-- What does not concern an id does the same without it. -/
theorem without_liveNext {operation : Operation} (h : operation.concerns id = false)
    (hspares : operation.Spares options id) (live : List CompiledPolicy) :
    without id (liveNext options live operation) = liveNext options (without id live) operation := by
  cases operation with
  | add p =>
    have hid : p.id ≠ id := by simpa [Operation.concerns] using h
    rw [liveNext, liveNext]
    cases hc : p.compile with
    | error cause => rfl
    | ok c =>
      obtain rfl : c.policy = p := compile_policy hc
      exact without_concat_of_ne hid live
  | replace p =>
    have hid : p.id ≠ id := by simpa [Operation.concerns] using h
    rw [liveNext, liveNext]
    cases hc : p.compile with
    | error cause => rfl
    | ok c =>
      obtain rfl : c.policy = p := compile_policy hc
      show without _ (without _ live ++ [c]) = without _ (without _ live) ++ [c]
      rw [without_concat_of_ne hid, without_comm]
  | remove other => exact without_comm id other live
  | load system path suffix =>
    show without _ (live ++ admitted _ _) = without _ live ++ admitted _ _
    rw [without_append, without_eq_self hspares]

/-- By induction on the run: an operation that concerns the id is not seen, any other does what it does without. -/
theorem without_liveAfter {operations : List Operation}
    (hspares : ∀ operation ∈ operations, operation.Spares options id) :
    without id (liveAfter options operations) =
      liveAfter options (operations.filter fun operation => !operation.concerns id) := by
  induction operations using List.reverseRecOn with
  | nil => rfl
  | append_singleton operations operation ih =>
    have hbefore := ih fun other hother => hspares other (List.mem_append_left _ hother)
    have hlast : operation.Spares options id := hspares operation (by simp)
    have hlive : ∀ operations, liveAfter options (operations ++ [operation]) =
        liveNext options (liveAfter options operations) operation := by
      intro operations
      simp [liveAfter]
    rw [hlive, List.filter_append]
    cases h : operation.concerns id with
    | true =>
      rw [without_liveNext_of_concerns h, hbefore]
      simp [h]
    | false =>
      rw [without_liveNext h hlast, hbefore]
      simp [h, hlive]

/-! ### Registries without an id -/

/-- An id that is removed leaves no trace of any operation that concerned it: the registry is that of the run without
these operations, and stays so whatever comes later.  Loads may be among the operations if they bring no policy of the
id. -/
theorem run_without_removed (options : RegistryOptions) (operations : List Operation) (id : String)
    (hspares : ∀ operation ∈ operations, operation.Spares options id) (later : List Operation) :
    run { options } (operations ++ .remove id :: later) =
      run { options } ((operations.filter fun operation => !operation.concerns id) ++ later) := by
  have hremoved := represents_run options (operations ++ [.remove id])
  have hspared := represents_run options (operations.filter fun operation => !operation.concerns id)
  have hlive : liveAfter options (operations ++ [.remove id]) =
      liveAfter options (operations.filter fun operation => !operation.concerns id) := by
    rw [← without_liveAfter hspares]
    simp [liveAfter, liveNext]
  rw [hlive] at hremoved
  have hsame : run { options } (operations ++ [.remove id]) =
      run { options } (operations.filter fun operation => !operation.concerns id) :=
    hremoved.1.unique hspared.1 (hremoved.2.trans hspared.2.symm)
  rw [List.append_cons, run_append, hsame, run_append]

end

/-- A guest that is registered twice, moved to another route and registered once more, beside a host that stays. -/
theorem run_without_removed_guest :
    let guest : Policy := { manifest := { id := "guest" }, routes := ["/hall", "/room"] }
    let moved : Policy := { manifest := { id := "guest" }, routes := ["/garden"] }
    let host : Policy := { manifest := { id := "host" }, routes := ["/hall"] }
    let operations : List Operation :=
      [.add guest, .add host, .add guest, .replace moved, .remove "host", .add guest, .add host,
        .load FileTree.empty.system "d" ""]
    (∀ operation ∈ operations, operation.Spares {} "guest") ∧
      run {} (operations ++ [.remove "guest", .add host]) =
        run {} [.add host, .remove "host", .add host, .load FileTree.empty.system "d" "", .add host] ∧
      (run {} operations).routeNames = ["/garden", "/hall", "/room"] ∧
      (run {} (operations ++ [.remove "guest", .add host])).routeNames = ["/hall"] := by
  intro guest moved host operations
  have hspares : ∀ operation ∈ operations, operation.Spares {} "guest" := by
    have hnone : ∀ c ∈ admitted {} (FileTree.empty.system.loadAll "d" ""), c.policy.id ≠ "guest" := by
      have hmissing : FileTree.empty.system.loadAll "d" "" = .error (.directory "d" (.system .notFound)) := by cbv
      rw [hmissing]
      exact List.forall_mem_nil _
    simpa [operations, Operation.Spares] using hnone
  refine ⟨hspares, run_without_removed {} operations "guest" hspares [.add host], ?_, ?_⟩
  · cbv
  · cbv

end AccessPolicy.Registry
