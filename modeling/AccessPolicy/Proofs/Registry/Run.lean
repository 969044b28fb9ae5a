import AccessPolicy.Proofs.Registry.Routes
import AccessPolicy.Proofs.Repeats
import AccessPolicy.Registry.Directory

/-!
# Runs of a registry

A registry is changed by four operations, and an operation that is refused changes nothing (`perform`).  Whatever
the run, the registry is determined by one list, that of the policies that are live: those that were registered
and not removed since, in the order of registration (`liveAfter`).  `Represents` ties the two together: each route
holds the live policies that name it, in their order.  One operation keeps the tie (`Represents.perform`), so
every run does; what a registry answers is then read off the list (`run_accounts`).
-/

namespace AccessPolicy.Registry

/-! ### Policies on their routes -/

/-- The live policies without those of an id. -/
def without (id : String) (live : List CompiledPolicy) : List CompiledPolicy := live.filter (·.policy.id ≠ id)

/-- The live policies on a route, each as often as it names the route. -/
def onRoute (live : List CompiledPolicy) (route : String) : List CompiledPolicy :=
  live.flatMap fun c => List.replicate (c.policy.routes.count route) c

/-- How often the live policies of an id name a route. -/
def occurrences (id : String) (live : List CompiledPolicy) : Nat :=
  ((live.filter (·.policy.id = id)).map (·.policy.routes.length)).sum

/-- Dropping the entries of an id is dropping its policies. -/
private theorem filter_flatMap_replicate (id : String) (times : CompiledPolicy → Nat) (live : List CompiledPolicy) :
    (live.flatMap fun c => List.replicate (times c) (entryOf c)).filter (·.id ≠ id) =
      (without id live).flatMap fun c => List.replicate (times c) (entryOf c) := by
  unfold without
  induction live with
  | nil => rfl
  | cons c live ih =>
    rw [List.flatMap_cons, List.filter_append, ih]
    by_cases hid : c.policy.id = id
    · simp [hid, entryOf]
    · simp [hid, entryOf]

theorem map_onRoute (live : List CompiledPolicy) (route : String) :
    (onRoute live route).map entryOf =
      live.flatMap fun c => List.replicate (c.policy.routes.count route) (entryOf c) := by
  simp [onRoute, List.map_flatMap]

/-- The routes one by one, each with its entries counted. -/
private theorem Tidy.countOn {registry : Registry} (h : Tidy registry.routes) :
    registry.routeNames.map registry.countOn = registry.routes.map (·.2.entries.length) := by
  have := congrArg (List.map List.length) h.map_entriesOn
  simpa [routeNames, countOn_eq, Function.comp_def] using this

/-! ### Options -/

theorem options_register (registry : Registry) (c : CompiledPolicy) :
    (registry.register c).options = registry.options := rfl

private theorem options_foldl_register (registry : Registry) (cs : List CompiledPolicy) :
    (cs.foldl Registry.register registry).options = registry.options := by
  induction cs generalizing registry with
  | nil => rfl
  | cons c cs ih => rw [List.foldl_cons, ih, options_register]

private theorem options_remove (registry : Registry) (id : String) :
    (registry.remove id).options = registry.options := by
  unfold remove
  split <;> rfl

/-! ### Operations -/

variable [Regex.Engine]

inductive Operation
  | add (p : Policy)
  | replace (p : Policy)
  | remove (id : String)
  /-- The directory at a path of a file system is loaded. -/
  | load (system : FileSystem) (path suffix : String)

inductive Outcome
  | added
  | removed (registrations : Nat)
  | loaded (report : LoadReport)
  | refused (cause : RegistryError)

/-- The ids that an operation says it registered from a directory. -/
def Outcome.registered : Outcome → List String
  | loaded report => report.registered
  | _ => []

/-- One operation; one that is refused leaves the registry as it is. -/
def perform (registry : Registry) : Operation → Outcome × Registry
  | .add p =>
    match registry.add p with
    | .ok next => (.added, next)
    | .error cause => (.refused (.condition cause), registry)
  | .replace p =>
    match registry.replace p with
    | .ok (n, next) => (.removed n, next)
    | .error cause => (.refused (.condition cause), registry)
  | .remove id => (.removed (registry.countId id), registry.remove id)
  | .load system path suffix =>
    match registry.load (system.loadAll path suffix) with
    | .ok (report, next) => (.loaded report, next)
    | .error cause => (.refused cause, registry)

/-- The registry after a run. -/
def run (registry : Registry) (operations : List Operation) : Registry :=
  operations.foldl (fun registry operation => (registry.perform operation).2) registry

/-! ### Live policies -/

/-- The policies that a load registers: all whose conditions are patterns, or none when something is wrong and
nothing may be skipped. -/
def admitted (options : RegistryOptions) : Except LoadError Loaded → List CompiledPolicy
  | .error _ => []
  | .ok loaded =>
    if options.skipInvalid ∨ (loaded.failures = [] ∧ ∀ r ∈ loaded.policies, r.2.compile.isOk) then
      loaded.policies.filterMap fun r => r.2.compile.toOption
    else []

/-- The live policies after one more operation. -/
def liveNext (options : RegistryOptions) (live : List CompiledPolicy) : Operation → List CompiledPolicy
  | .add p =>
    match p.compile with
    | .ok c => live ++ [c]
    | .error _ => live
  | .replace p =>
    match p.compile with
    | .ok c => without p.id live ++ [c]
    | .error _ => live
  | .remove id => without id live
  | .load system path suffix => live ++ admitted options (system.loadAll path suffix)

/-- The live policies after a run of a registry that was empty. -/
def liveAfter (options : RegistryOptions) (operations : List Operation) : List CompiledPolicy :=
  operations.foldl (liveNext options) []

/-! ### The registry and its live policies -/

/-- The registry holds these live policies and nothing else. -/
structure Represents (registry : Registry) (live : List CompiledPolicy) : Prop where
  tidy : Tidy registry.routes
  compiled : ∀ c ∈ live, c.policy.compile = .ok c
  entries : ∀ route, entriesOn registry.routes route = (onRoute live route).map entryOf
  all : (allEntries registry.routes).Perm (live.flatMap fun c => List.replicate c.policy.routes.length (entryOf c))

theorem represents_empty (options : RegistryOptions) : Represents { options } [] where
  tidy := Tidy.nil
  compiled := by simp
  entries := fun _ => rfl
  all := List.Perm.refl _

/-- A policy that compiles to something compiles to itself with a pattern. -/
theorem compile_policy {p : Policy} {c : CompiledPolicy} (h : p.compile = .ok c) : c.policy = p := by
  unfold Policy.compile at h
  split at h
  · injection h with h; rw [← h]
  · cases h

theorem Represents.register {registry : Registry} {live : List CompiledPolicy} (h : Represents registry live)
    {c : CompiledPolicy} (hc : c.policy.compile = .ok c) : Represents (registry.register c) (live ++ [c]) where
  tidy := h.tidy.register c
  compiled := by
    intro x hx
    rcases List.mem_append.1 hx with hx | hx
    · exact h.compiled x hx
    · rw [List.mem_singleton.1 hx]; exact hc
  entries := by
    intro route
    rw [entriesOn_register h.tidy, h.entries]
    simp [onRoute]
  all := by
    refine (allEntries_register registry c).trans ?_
    rw [List.flatMap_append]
    simpa using h.all.append_right _

theorem Represents.remove {registry : Registry} {live : List CompiledPolicy} (h : Represents registry live)
    (id : String) : Represents (registry.remove id) (without id live) where
  tidy := h.tidy.remove id
  compiled := fun c hc => h.compiled c (List.mem_filter.1 hc).1
  entries := by
    intro route
    rw [entriesOn_remove h.tidy, h.entries, map_onRoute, map_onRoute, filter_flatMap_replicate]
  all := by
    rw [allEntries_remove, ← filter_flatMap_replicate]
    exact h.all.filter _

theorem Represents.foldl_register {registry : Registry} {live cs : List CompiledPolicy}
    (h : Represents registry live) (hcs : ∀ c ∈ cs, c.policy.compile = .ok c) :
    Represents (cs.foldl Registry.register registry) (live ++ cs) := by
  induction cs generalizing registry live with
  | nil => simpa using h
  | cons c cs ih =>
    have := ih (h.register (hcs c (by simp))) fun x hx => hcs x (List.mem_cons_of_mem _ hx)
    simpa using this

/-! ### What a load registers -/

theorem compileAll_cons_ok {path : String} {p : Policy} {c : CompiledPolicy} (h : p.compile = .ok c)
    (policies : List (String × Policy)) :
    compileAll ((path, p) :: policies) = (c :: (compileAll policies).1, (compileAll policies).2) := by
  simp only [compileAll, h]

theorem compileAll_cons_error {path : String} {p : Policy} {e : ConditionError} (h : p.compile = .error e)
    (policies : List (String × Policy)) :
    compileAll ((path, p) :: policies) = ((compileAll policies).1, (path, e) :: (compileAll policies).2) := by
  simp only [compileAll, h]

private theorem compileAll_fst (policies : List (String × Policy)) :
    (compileAll policies).1 = policies.filterMap fun r => r.2.compile.toOption := by
  induction policies with
  | nil => rfl
  | cons r policies ih =>
    cases hc : r.2.compile with
    | ok c => rw [compileAll_cons_ok hc, List.filterMap_cons_some (by rw [hc]; rfl), ih]
    | error e => rw [compileAll_cons_error hc, List.filterMap_cons_none (by rw [hc]; rfl), ih]

private theorem compileAll_snd (policies : List (String × Policy)) :
    (compileAll policies).2 = [] ↔ ∀ r ∈ policies, r.2.compile.isOk := by
  induction policies with
  | nil => simp [compileAll]
  | cons r policies ih =>
    rw [List.forall_mem_cons]
    cases hc : r.2.compile with
    | ok c =>
      rw [compileAll_cons_ok hc, ih]
      exact (and_iff_right rfl).symm
    | error e =>
      rw [compileAll_cons_error hc]
      exact ⟨fun h => (List.cons_ne_nil _ _ h).elim, fun h => absurd h.1 Bool.false_ne_true⟩

theorem compile_of_mem_admitted {options : RegistryOptions} {loaded : Except LoadError Loaded} {c : CompiledPolicy}
    (h : c ∈ admitted options loaded) : c.policy.compile = .ok c := by
  unfold admitted at h
  split at h
  · simp at h
  · split at h
    · obtain ⟨r, -, hr⟩ := List.mem_filterMap.1 h
      cases hc : r.2.compile with
      | error e => rw [hc] at hr; cases hr
      | ok d =>
        rw [hc] at hr
        injection hr with hr
        rw [← hr, compile_policy hc, hc]
    · simp at h

/-- A load either registers and reports the admitted policies, or is refused and admits none. -/
theorem load_cases (registry : Registry) (loaded : Except LoadError Loaded) :
    (∃ report, registry.load loaded =
        .ok (report, (admitted registry.options loaded).foldl Registry.register registry) ∧
      report.registered = (admitted registry.options loaded).map (·.policy.id)) ∨
    ∃ cause, registry.load loaded = .error cause ∧ admitted registry.options loaded = [] := by
  cases loaded with
  | error e => exact Or.inr ⟨.load e, rfl, rfl⟩
  | ok loaded =>
    simp only [Registry.load, Except.mapError, bind, Except.bind, pure, Except.pure, admitted, ← compileAll_fst,
      ← compileAll_snd]
    by_cases hskip : registry.options.skipInvalid
    · simp [hskip]
    · cases hf : loaded.failures with
      | cons f fs => simp [Loaded.error?, hf, hskip, throw, throwThe, MonadExceptOf.throw]
      | nil =>
        cases hr : (compileAll loaded.policies).2 with
        | cons r rs => simp [Loaded.error?, hf, hskip, throw, throwThe, MonadExceptOf.throw]
        | nil => simp [Loaded.error?, hf]

/-! ### One operation and a run -/

theorem Represents.perform {registry : Registry} {live : List CompiledPolicy} (h : Represents registry live)
    (operation : Operation) :
    Represents (registry.perform operation).2 (liveNext registry.options live operation) := by
  cases operation with
  | add p =>
    cases hc : p.compile with
    | error e => simpa [Registry.perform, Registry.add, liveNext, hc, bind, Except.bind] using h
    | ok c =>
      have hcc : c.policy.compile = .ok c := by rw [compile_policy hc, hc]
      simpa [Registry.perform, Registry.add, liveNext, hc, bind, Except.bind, pure, Except.pure] using h.register hcc
  | replace p =>
    cases hc : p.compile with
    | error e => simpa [Registry.perform, Registry.replace, liveNext, hc, bind, Except.bind] using h
    | ok c =>
      have hcc : c.policy.compile = .ok c := by rw [compile_policy hc, hc]
      simpa [Registry.perform, Registry.replace, liveNext, hc, bind, Except.bind, pure, Except.pure] using
        (h.remove p.id).register hcc
  | remove id => exact h.remove id
  | load system path suffix =>
    simp only [Registry.perform, liveNext]
    rcases load_cases registry (system.loadAll path suffix) with ⟨report, hload, -⟩ | ⟨cause, hload, hnone⟩
    · rw [hload]
      exact h.foldl_register fun c hc => compile_of_mem_admitted hc
    · rw [hload, hnone, List.append_nil]
      exact h

theorem options_perform (registry : Registry) (operation : Operation) :
    (registry.perform operation).2.options = registry.options := by
  cases operation with
  | add p =>
    cases hc : p.compile with
    | error e => simp [perform, add, hc, bind, Except.bind]
    | ok c => simp [perform, add, hc, bind, Except.bind, pure, Except.pure, options_register]
  | replace p =>
    cases hc : p.compile with
    | error e => simp [perform, replace, hc, bind, Except.bind]
    | ok c => simp [perform, replace, hc, bind, Except.bind, pure, Except.pure, options_register, options_remove]
  | remove id => exact options_remove registry id
  | load system path suffix =>
    simp only [perform]
    rcases load_cases registry (system.loadAll path suffix) with ⟨report, hload, -⟩ | ⟨cause, hload, -⟩
    · rw [hload]
      exact options_foldl_register _ _
    · rw [hload]

theorem represents_run (options : RegistryOptions) (operations : List Operation) :
    Represents (run { options } operations) (liveAfter options operations) ∧
      (run { options } operations).options = options := by
  induction operations using List.reverseRecOn with
  | nil => exact ⟨represents_empty options, rfl⟩
  | append_singleton operations operation ih =>
    obtain ⟨hrep, hoptions⟩ := ih
    have hrun : run { options } (operations ++ [operation]) = ((run { options } operations).perform operation).2 := by
      simp [run]
    have hlive : liveAfter options (operations ++ [operation]) =
        liveNext options (liveAfter options operations) operation := by
      simp [liveAfter]
    rw [hrun, hlive]
    refine ⟨?_, by rw [options_perform, hoptions]⟩
    have := hrep.perform operation
    rwa [hoptions] at this

/-! ### What a registry answers -/

/-- All that a registry answers, said in terms of the live policies. -/
structure Accounts (registry : Registry) (live : List CompiledPolicy) : Prop where
  /-- Each route holds the live policies that name it, as often as they do, in their order. -/
  entries : ∀ route, entriesOn registry.routes route = (onRoute live route).map entryOf
  /-- A live policy stands with the pattern that its condition is. -/
  compiled : ∀ c ∈ live, c.policy.compile = .ok c
  /-- A route is there exactly when something stands on it. -/
  present : ∀ route, route ∈ registry.routeNames ↔ entriesOn registry.routes route ≠ []
  /-- Removing an id removes each time that one of its policies names a route. -/
  removed : ∀ id, (registry.perform (.remove id)).1 = .removed (occurrences id live)
  /-- Replacing a policy counts what removing its id counts. -/
  replaced : ∀ p n, (registry.perform (.replace p)).1 = .removed n ↔ p.compile.isOk ∧ n = occurrences p.id live
  /-- A policy is added exactly when its condition is a pattern. -/
  added : ∀ p, (registry.perform (.add p)).1 = .added ↔ p.compile.isOk
  /-- A load reports the policies that it registers. -/
  loaded : ∀ system path suffix, (registry.perform (.load system path suffix)).1.registered =
    (admitted registry.options (system.loadAll path suffix)).map (·.policy.id)
  /-- The routes, the entries on them and the different ids among these. -/
  stats : registry.stats =
    { routes := (live.flatMap (·.policy.routes)).toFinset.card
      registrations := ∑ route ∈ (live.flatMap (·.policy.routes)).toFinset, registry.countOn route
      policies := ((live.filter (·.policy.routes ≠ [])).map (·.policy.id)).toFinset.card }
  /-- An event is answered from the policies on the route whose patterns it matches. -/
  verdict : ∀ route event, (registry.answerEvent route event).verdict =
    resolve (((onRoute live route).filter (·.pattern.accepts event)).map (·.policy))

theorem Represents.mem_routeNames {registry : Registry} {live : List CompiledPolicy} (h : Represents registry live)
    (route : String) : route ∈ registry.routeNames ↔ route ∈ live.flatMap (·.policy.routes) := by
  rw [routeNames, h.tidy.mem_iff, h.entries, Ne, List.map_eq_nil_iff, onRoute, List.flatMap_eq_nil_iff]
  simp [List.count_eq_zero]

theorem Represents.countId {registry : Registry} {live : List CompiledPolicy} (h : Represents registry live)
    (id : String) : registry.countId id = occurrences id live := by
  rw [countId_eq, List.countP_eq_length_filter, (h.all.filter _).length_eq, occurrences]
  clear h
  induction live with
  | nil => rfl
  | cons c live ih => by_cases hid : c.policy.id = id <;> simp_all [entryOf]

theorem Represents.stats {registry : Registry} {live : List CompiledPolicy} (h : Represents registry live) :
    registry.stats =
      { routes := (live.flatMap (·.policy.routes)).toFinset.card
        registrations := ∑ route ∈ (live.flatMap (·.policy.routes)).toFinset, registry.countOn route
        policies := ((live.filter (·.policy.routes ≠ [])).map (·.policy.id)).toFinset.card } := by
  have hnames : (live.flatMap (·.policy.routes)).toFinset = registry.routeNames.toFinset := by
    ext route
    rw [List.mem_toFinset, List.mem_toFinset, h.mem_routeNames]
  have hnodup : registry.routeNames.Nodup := h.tidy.nodup
  have hids := flatMap_ids registry.routes
  rw [hnames, List.sum_toFinset _ hnodup, List.toFinset_card_of_nodup hnodup, h.tidy.countOn]
  refine (Stats.mk.injEq ..).mpr ⟨by simp [routeNames], ?_, ?_⟩
  · rw [hids, List.length_map, allEntries, List.length_flatMap]
  · rw [length_eraseDups, hids]
    congr 1
    ext id
    rw [List.mem_toFinset, List.mem_toFinset, (h.all.map _).mem_iff]
    simp only [List.map_flatMap, List.mem_flatMap, List.mem_map, List.mem_replicate, List.mem_filter]
    constructor
    · rintro ⟨c, hc, e, ⟨hne, rfl⟩, rfl⟩
      exact ⟨c, ⟨hc, by simpa [List.length_eq_zero_iff] using hne⟩, rfl⟩
    · rintro ⟨c, ⟨hc, hne⟩, rfl⟩
      exact ⟨c, hc, entryOf c, ⟨by simpa [List.length_eq_zero_iff] using hne, rfl⟩, rfl⟩

theorem Represents.verdict {registry : Registry} {live : List CompiledPolicy} (h : Represents registry live)
    (route : String) (event : Json) :
    (registry.answerEvent route event).verdict =
      resolve (((onRoute live route).filter (·.pattern.accepts event)).map (·.policy)) := by
  unfold answerEvent
  rw [matching_eq, h.entries, List.filter_map, List.map_map]
  rfl

/-- After every run the registry answers as its live policies say. -/
theorem run_accounts (options : RegistryOptions) (operations : List Operation) :
    Accounts (run { options } operations) (liveAfter options operations) := by
  obtain ⟨h, -⟩ := represents_run options operations
  exact {
    entries := h.entries
    compiled := h.compiled
    present := h.tidy.mem_iff
    removed := fun id => by rw [perform, h.countId]
    replaced := by
      intro p n
      cases hc : p.compile with
      | error e => simp [perform, replace, hc, bind, Except.bind, Except.isOk, Except.toBool]
      | ok c =>
        simp only [perform, replace, hc, bind, Except.bind, pure, Except.pure, h.countId, Outcome.removed.injEq]
        exact ⟨fun he => ⟨rfl, he.symm⟩, fun he => he.2.symm⟩
    added := by
      intro p
      cases hc : p.compile <;>
        simp [perform, add, hc, bind, Except.bind, pure, Except.pure, Except.isOk, Except.toBool]
    loaded := by
      intro system path suffix
      rw [perform]
      rcases load_cases (run { options } operations) (system.loadAll path suffix) with
        ⟨report, hload, hids⟩ | ⟨cause, hload, hnone⟩
      · rw [hload]; exact hids
      · rw [hload, hnone]; rfl
    stats := h.stats
    verdict := h.verdict }

end AccessPolicy.Registry
