import AccessPolicy.Audit
import AccessPolicy.Proofs.Loading
import AccessPolicy.Proofs.Registry.Directory

/-!
# What an audit tells of a directory

An audit accounts for every file that is selected, and for every directory that cannot be listed, once (`Covers`,
`covers_ofLoaded`).  It passes over what is wrong there, and yet it tells what comes of a load that passes over nothing
(`ofLoaded_cases`).
-/

namespace AccessPolicy.Audit

open FileTree Registry

/-! ### Ids that stand for several policies -/

theorem mem_duplicates (a : Audit) (id : String) : id ∈ a.duplicates ↔ 1 < a.registered.count id := by
  rw [duplicates, List.mem_mergeSort, List.mem_eraseDups, List.mem_filter, decide_eq_true_iff]
  refine and_iff_right_of_imp fun h => List.count_pos_iff.1 ?_
  omega

theorem pairwise_duplicates (a : Audit) : a.duplicates.Pairwise (· < ·) := by
  have hnodup : a.duplicates.Nodup := (List.mergeSort_perm _ _).nodup_iff.2 (nodup_eraseDups _)
  have hsorted : a.duplicates.Pairwise (· ≤ ·) := List.pairwise_mergeSort' (· ≤ ·) _
  exact (hsorted.and hnodup).imp fun h => lt_of_le_of_ne h.1 h.2

theorem duplicates_eq_nil (a : Audit) : a.duplicates = [] ↔ a.registered.Nodup := by
  rw [List.eq_nil_iff_forall_not_mem, List.nodup_iff_count_le_one]
  refine forall_congr' fun id => ?_
  rw [mem_duplicates, not_lt]

theorem passes_iff (a : Audit) (strict : Bool) :
    a.passes strict = true ↔ a.failures = [] ∧ (strict = true → a.registered.Nodup) := by
  rw [← duplicates_eq_nil]
  cases strict <;> simp [passes]

/-! ### The files -/

section

variable [Regex.Engine]

/-- The audit tells of each of these files once: its policy is registered, or the file is among the failures, as a
directory that cannot be listed is. -/
structure Covers (path : String) (files : List FileBelow) (a : Audit) : Prop where
  /-- The ids of the registered policies, in the order of their files. -/
  registered : a.registered = (files.filterMap (·.compiled? path)).map (·.policy.id)
  /-- The files that are no policies, in their order, and then those whose conditions are no patterns, in theirs. -/
  failures : a.failures = (files.filterMap (·.failure? path)).map (fun f => (f.path, f.cause.message)) ++
    (files.filterMap (·.rejection? path)).map fun r => (r.1, r.2.message)
  once : a.registered.length + a.failures.length = files.length
  ascending : a.duplicates.Pairwise (· < ·)
  repeated : ∀ id, id ∈ a.duplicates ↔ 1 < a.registered.count id
  /-- The number of the different routes of the registered policies. -/
  routes : a.routes = ((files.filterMap (·.compiled? path)).flatMap (·.policy.routes)).toFinset.card

/-- An audit of what was loaded, whatever it was. -/
theorem ofLoaded_ok (loaded : Loaded) :
    ofLoaded (.ok loaded) = .ok {
      registered := (compileAll loaded.policies).1.map (·.policy.id)
      failures := loaded.failures.map (fun f => (f.path, f.cause.message)) ++
        (compileAll loaded.policies).2.map fun r => (r.1, r.2.message)
      routes := ((compileAll loaded.policies).1.foldl register { options := { skipInvalid := true } }).stats.routes } :=
  rfl

/-- The audit of a directory accounts for the files that are selected there. -/
theorem covers_ofLoaded (path suffix : String) (entries : List (FileName × FileTree)) :
    ∃ a, ofLoaded (loadFrom path suffix (.ok (.directory entries))) = .ok a ∧
      a.Covers path (selected suffix entries) := by
  rw [loadFrom_directory, ofLoaded_ok]
  simp only [compileAll_policies]
  generalize selected suffix entries = files
  have hcompiled : ∀ c ∈ files.filterMap (·.compiled? path), c.policy.compile = .ok c := by
    intro c hc
    obtain ⟨f, -, hf⟩ := List.mem_filterMap.1 hc
    exact FileBelow.compile_of_compiled? hf
  have hregistry := (represents_empty { skipInvalid := true }).foldl_register hcompiled
  refine ⟨_, rfl, { registered := rfl, failures := rfl, once := ?_, ascending := pairwise_duplicates _
                    repeated := mem_duplicates _, routes := ?_ }⟩
  · simpa using length_fates path files
  · rw [hregistry.stats, List.nil_append]

/-- Of a directory that cannot be listed the audit tells that it cannot be listed. -/
theorem ofLoaded_closed (path suffix : String) (cause : OsError) :
    ofLoaded (loadFrom path suffix (.ok (.closed cause))) =
      .ok { registered := [], failures := [(path, (FileError.read (.listing path cause)).message)], routes := 0 } :=
  rfl

/-! ### Loading with nothing passed over -/

/-- A load into an empty registry that passes over nothing. -/
def loadWhole (options : RegistryOptions) (found : Except LoadError Loaded) :
    Except RegistryError (LoadReport × Registry) := (({ options } : Registry).skipping false).load found

/-- An audit and a load that passes over nothing see the same: the audit is refused as the load is, or it has nothing to
tell and the load goes through, or it has failures and a file or a condition refuses the load. -/
theorem ofLoaded_cases (options : RegistryOptions) (found : Except LoadError Loaded) :
    (∃ cause, found = .error cause ∧ ofLoaded found = .error (.load cause) ∧
      loadWhole options found = .error (.load cause)) ∨
    ∃ a, ofLoaded found = .ok a ∧
      ((∃ report registry, loadWhole options found = .ok (report, registry) ∧
        a.failures = [] ∧ a.registered = report.registered) ∨
      a.failures ≠ [] ∧
        ((∃ failures, loadWhole options found = .error (.load (.files failures))) ∨
          ∃ cause, loadWhole options found = .error (.condition cause))) := by
  cases found with
  | error cause => exact .inl ⟨cause, rfl, rfl, rfl⟩
  | ok loaded =>
    refine .inr ⟨_, ofLoaded_ok loaded, ?_⟩
    rw [loadWhole, load_strict]
    cases hfailures : loaded.failures with
    | cons failure failures => exact .inr ⟨by simp, .inl ⟨_, rfl⟩⟩
    | nil =>
      cases hrejected : (compileAll loaded.policies).2 with
      | nil => exact .inl ⟨_, _, rfl, rfl, rfl⟩
      | cons r rejected => exact .inr ⟨by simp, .inr ⟨_, rfl⟩⟩

end

end AccessPolicy.Audit
