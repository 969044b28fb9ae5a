import AccessPolicy.Proofs.Registry.Run

/-!
# Loading a directory is adding its policies

A load reads all conditions before it registers the first policy.  It comes to the same as adding the policies one
by one in the order of the walk (`addEach`): the registry afterwards, what was added and what was refused agree
(`addEach_eq`).  When nothing may be skipped, a load goes through exactly if the one that skips has nothing to
report, and then there is no difference between the two (`load_directory`).
-/

namespace AccessPolicy.Registry

/-- The registry with bad files and bad policies passed over in a load, or not. -/
def skipping (registry : Registry) (skip : Bool) : Registry :=
  { registry with options := { registry.options with skipInvalid := skip } }

/-- What came of adding policies one by one. -/
structure Additions where
  registry : Registry
  /-- The ids of the policies that were added. -/
  added : List String := []
  /-- The others, by their paths. -/
  refused : List (String × ConditionError) := []

/-- The report on policies that were added one by one, and on the files that could not be read. -/
def Additions.report (additions : Additions) (failures : List FileFailure) : LoadReport :=
  { registered := additions.added, fileFailures := failures, rejected := additions.refused }

/-- Registering does not ask for the mode. -/
private theorem foldl_register_skipping (registry : Registry) (skip : Bool) (cs : List CompiledPolicy) :
    cs.foldl register (registry.skipping skip) = (cs.foldl register registry).skipping skip := by
  induction cs generalizing registry with
  | nil => rfl
  | cons c cs ih => exact ih (registry.register c)

section

variable [Regex.Engine]

/-- One more policy, from the file at a path; a registry that refuses it stays as it is. -/
def Additions.next (additions : Additions) (found : String × Policy) : Additions :=
  match additions.registry.add found.2 with
  | .ok registry => { additions with registry, added := additions.added ++ [found.2.id] }
  | .error cause => { additions with refused := additions.refused ++ [(found.1, cause)] }

/-- The policies are added in their order. -/
def addEach (registry : Registry) (policies : List (String × Policy)) : Additions :=
  policies.foldl Additions.next { registry }

theorem next_of_compile_ok (additions : Additions) {found : String × Policy} {c : CompiledPolicy}
    (h : found.2.compile = .ok c) :
    additions.next found =
      { additions with registry := additions.registry.register c, added := additions.added ++ [c.policy.id] } := by
  have hid : found.2.id = c.policy.id := by rw [compile_policy h]
  simp [Additions.next, add, h, hid, bind, Except.bind, pure, Except.pure]

theorem next_of_compile_error (additions : Additions) {found : String × Policy} {cause : ConditionError}
    (h : found.2.compile = .error cause) :
    additions.next found = { additions with refused := additions.refused ++ [(found.1, cause)] } := by
  simp [Additions.next, add, h, bind, Except.bind]

private theorem foldl_next (policies : List (String × Policy)) (additions : Additions) :
    policies.foldl Additions.next additions =
      { registry := (compileAll policies).1.foldl register additions.registry
        added := additions.added ++ (compileAll policies).1.map (·.policy.id)
        refused := additions.refused ++ (compileAll policies).2 } := by
  induction policies generalizing additions with
  | nil => simp [compileAll]
  | cons found policies ih =>
    rw [List.foldl_cons, ih]
    cases h : found.2.compile with
    | ok c => rw [next_of_compile_ok additions h, compileAll_cons_ok h]; simp
    | error cause => rw [next_of_compile_error additions h, compileAll_cons_error h]; simp

/-- All conditions can be read first and the policies registered afterwards. -/
theorem addEach_eq (registry : Registry) (policies : List (String × Policy)) :
    registry.addEach policies =
      { registry := (compileAll policies).1.foldl register registry
        added := (compileAll policies).1.map (·.policy.id)
        refused := (compileAll policies).2 } := by
  simp [addEach, foldl_next]

/-! ### The two modes -/

/-- What a load of a directory comes to in the two modes, in terms of the policies that were read there. -/
structure LoadsByAdding (registry : Registry) (found : Except LoadError Loaded) (policies : List (String × Policy))
    (failures : List FileFailure) (additions : Additions) : Prop where
  /-- With bad policies passed over, a load is these additions. -/
  skipped : (registry.skipping true).load found = .ok (additions.report failures, additions.registry)
  /-- With nothing passed over, it goes through exactly if there would have been nothing to report. -/
  isOk_iff : (∃ outcome, (registry.skipping false).load found = .ok outcome) ↔
    (additions.report failures).isClean = true
  /-- It then leaves the same registry and the same report. -/
  same : (additions.report failures).isClean = true →
    (registry.skipping false).load found = .ok (additions.report failures, additions.registry.skipping false)
  /-- Files that failed refuse the directory, all of them together. -/
  refused_files : failures ≠ [] → (registry.skipping false).load found = .error (.load (.files failures))
  /-- If no file failed, the first condition that is no pattern does. -/
  refused_condition : failures = [] → ∀ before path p after cause, policies = before ++ (path, p) :: after →
    (∀ r ∈ before, r.2.compile.isOk = true) → p.compile = .error cause →
    (registry.skipping false).load found = .error (.condition cause)

theorem load_strict (registry : Registry) (loaded : Loaded) :
    (registry.skipping false).load (.ok loaded) =
      match loaded.failures, (compileAll loaded.policies).2 with
      | [], [] =>
        .ok ({ registered := (compileAll loaded.policies).1.map (·.policy.id) },
          (compileAll loaded.policies).1.foldl register (registry.skipping false))
      | [], (_, cause) :: _ => .error (.condition cause)
      | failures, _ => .error (.load (.files failures)) := by
  simp only [load, skipping, Except.mapError, bind, Except.bind, Loaded.error?]
  cases hfailures : loaded.failures with
  | nil => cases hrejected : (compileAll loaded.policies).2 <;> rfl
  | cons failure failures => rfl

private theorem compileAll_before {before : List (String × Policy)} (h : ∀ r ∈ before, r.2.compile.isOk = true)
    (policies : List (String × Policy)) : (compileAll (before ++ policies)).2 = (compileAll policies).2 := by
  induction before with
  | nil => rfl
  | cons r before ih =>
    have hr : r.2.compile.isOk = true := h r (by simp)
    cases hc : r.2.compile with
    | error cause => rw [hc] at hr; exact absurd hr Bool.false_ne_true
    | ok c => rw [List.cons_append, compileAll_cons_ok hc, ih fun q hq => h q (by simp [hq])]

/-- Whatever was loaded, registering it is adding its policies one by one, and the two modes differ only when something
is wrong with a file or a condition. -/
theorem loadsByAdding (registry : Registry) (loaded : Loaded) :
    LoadsByAdding registry (.ok loaded) loaded.policies loaded.failures
      ((registry.skipping true).addEach loaded.policies) := by
  have hclean : (((registry.skipping true).addEach loaded.policies).report loaded.failures).isClean = true ↔
      loaded.failures = [] ∧ (compileAll loaded.policies).2 = [] := by
    rw [addEach_eq]
    simp [Additions.report, LoadReport.isClean]
  have hsame : (((registry.skipping true).addEach loaded.policies).report loaded.failures).isClean = true →
      (registry.skipping false).load (.ok loaded) =
        .ok (((registry.skipping true).addEach loaded.policies).report loaded.failures,
          ((registry.skipping true).addEach loaded.policies).registry.skipping false) := by
    intro hc
    obtain ⟨hfailures, hrejected⟩ := hclean.1 hc
    rw [load_strict, hfailures, hrejected, addEach_eq, foldl_register_skipping, foldl_register_skipping]
    simp only [Additions.report, hrejected]
    rfl
  constructor
  · rw [addEach_eq]
    rfl
  · refine ⟨fun ⟨outcome, hload⟩ => ?_, fun hc => ⟨_, hsame hc⟩⟩
    rw [load_strict] at hload
    split at hload
    · rename_i hfailures hrejected
      exact hclean.2 ⟨hfailures, hrejected⟩
    · cases hload
    · cases hload
  · exact hsame
  · intro hne
    rw [load_strict]
    split
    · rename_i hfailures _
      exact absurd hfailures hne
    · rename_i hfailures _
      exact absurd hfailures hne
    · rfl
  · intro hfailures before path p after cause hsplit hbefore hcause
    have hrejected : (compileAll loaded.policies).2 = (path, cause) :: (compileAll after).2 := by
      rw [hsplit, compileAll_before hbefore, compileAll_cons_error hcause]
    rw [load_strict, hfailures, hrejected]

/-- Loading a directory is adding the policies that were read there one by one, and the two modes differ only when
something is wrong with a file or a condition. -/
theorem load_directory (registry : Registry) {system : FileSystem} {path suffix : String} {loaded : Loaded}
    (h : system.loadAll path suffix = .ok loaded) :
    LoadsByAdding registry (system.loadAll path suffix) loaded.policies loaded.failures
      ((registry.skipping true).addEach loaded.policies) := by
  rw [h]
  exact loadsByAdding registry loaded

end

/-- A directory with a policy, a text that is none, a policy whose condition is no pattern, an unreadable file and a
directory that cannot be listed. -/
def mixed : FileSystem where
  root := .directory [("d", .directory
    [("a.policy", .file "<policy><manifest><id>home</id></manifest><paths><path>/</path></paths></policy>".toUTF8),
      ("b.policy", .file "<policy>".toUTF8),
      ("c.policy", .file "<policy><matches><match>[]</match></matches></policy>".toUTF8),
      ("d.policy", .sealed .permissionDenied),
      ("e", .closed .permissionDenied)])]

/-- The policy that can be registered. -/
def home : Policy := { manifest := { id := "home" }, routes := ["/"] }

/-- What is read there. -/
def mixedLoaded : Loaded where
  policies := [("d/a.policy", home), ("d/c.policy", { condition := "[]" })]
  failures := [⟨"d/b.policy", .document (.unclosed "policy")⟩, ⟨"d/d.policy", .read (.system .permissionDenied)⟩,
    ⟨"d/e", .read (.listing "d/e" .permissionDenied)⟩]

set_option maxRecDepth 4000 in
/-- The one policy is registered and all else is reported; with nothing passed over, the files refuse the load. -/
theorem load_directory_mixed :
    mixed.loadAll "d" ".policy" = .ok mixedLoaded ∧
      LoadsByAdding {} (mixed.loadAll "d" ".policy") mixedLoaded.policies mixedLoaded.failures
        ((({} : Registry).skipping true).addEach mixedLoaded.policies) ∧
      (({} : Registry).skipping true).load (mixed.loadAll "d" ".policy") =
        .ok ({ registered := ["home"], fileFailures := mixedLoaded.failures
               rejected := [("d/c.policy", ⟨"", .rootNotObject⟩)] },
          { routes := [("/", Index.insert {} { id := "home", pattern := .all, payload := home })] }) ∧
      (({} : Registry).skipping false).load (mixed.loadAll "d" ".policy") =
        .error (.load (.files mixedLoaded.failures)) := by
  have hread : mixed.loadAll "d" ".policy" = .ok mixedLoaded := by cbv
  have hloads := load_directory {} hread
  refine ⟨hread, hloads, ?_, hloads.refused_files (by simp [mixedLoaded])⟩
  rw [hloads.skipped]
  cbv

end AccessPolicy.Registry
