import AccessPolicy.Proofs.FileTree.Walk
import AccessPolicy.Proofs.Registry.Run

/-!
# What becomes of the files of a directory

Each file that is selected by its name fails to be read as a policy, or is rejected for its condition, or is registered
(`FileBelow.fate`); a directory that cannot be listed fails.  What is loaded from a directory, and what is compiled of
it, are the files of one fate each, in the order of the walk (`loadFrom_directory`, `compileAll_policies`).
-/

namespace AccessPolicy.FileTree

namespace FileBelow

/-- The policy in the file, as it is read from a path. -/
def policy (path : String) (f : FileBelow) : Except FileError Policy := Policy.ofText (f.found path).text

def failure? (path : String) (f : FileBelow) : Option FileFailure :=
  match f.policy path with
  | .error cause => some ⟨(f.found path).path, cause⟩
  | .ok _ => none

/-- The policy in the file with the path of the file. -/
def policy? (path : String) (f : FileBelow) : Option (String × Policy) :=
  (f.policy path).toOption.map fun p => ((f.found path).path, p)

/-- The file's name is a text that ends in the suffix, or it is no file but a directory that cannot be listed. -/
inductive Selected (suffix : String) (f : FileBelow) : Prop
  | file {content : Except OsError ByteArray} : f.content = .file content → f.name.HasSuffix suffix → Selected suffix f
  | closed {cause : OsError} : f.content = .closed cause → Selected suffix f

theorem isSelected_iff {path suffix : String} {f : FileBelow} :
    (f.found path).isSelected suffix = true ↔ f.Selected suffix := by
  rw [Found.isSelected, show (f.found path).content = f.content from rfl]
  cases hcontent : f.content with
  | file content =>
    refine FileName.hasSuffix_iff.trans ⟨.file hcontent, ?_⟩
    rintro (⟨-, hsuffix⟩ | ⟨hclosed⟩)
    · exact hsuffix
    · rw [hcontent] at hclosed
      cases hclosed
  | closed cause => exact iff_of_true rfl (.closed hcontent)

end FileBelow

/-- The files below a directory that are selected, and the directories that cannot be listed. -/
def selected (suffix : String) (entries : List (FileName × FileTree)) : List FileBelow :=
  (filesBelow entries).filter fun f => (f.found "").isSelected suffix

theorem mem_selected {suffix : String} {entries : List (FileName × FileTree)} {f : FileBelow} :
    f ∈ selected suffix entries ↔ (∃ entry ∈ entries, Leads entry.1 entry.2 f) ∧ f.Selected suffix := by
  rw [selected, List.mem_filter, mem_filesBelow, FileBelow.isSelected_iff]

theorem pairwise_selected {suffix : String} {entries : List (FileName × FileTree)} (h : Ordered (.directory entries)) :
    ((selected suffix entries).map (·.names)).Pairwise (· < ·) :=
  (pairwise_filesBelow entries h).sublist (List.filter_sublist.map _)

/-! ### Loading -/

theorem foldl_addFile (path : String) (files : List FileBelow) (loaded : Loaded) :
    files.foldl (fun loaded f => loaded.addFile (f.found path).path (f.policy path)) loaded =
      { policies := loaded.policies ++ files.filterMap (·.policy? path)
        failures := loaded.failures ++ files.filterMap (·.failure? path) } := by
  induction files generalizing loaded with
  | nil => simp
  | cons f files ih =>
    rw [List.foldl_cons, ih]
    cases h : f.policy path with
    | ok p =>
      simp [Loaded.addFile, FileBelow.policy?, FileBelow.failure?, h, Except.toOption]
    | error cause =>
      simp [Loaded.addFile, FileBelow.policy?, FileBelow.failure?, h, Except.toOption]

/-- The selected files are loaded or fail, all in the order of the walk. -/
theorem loadFrom_directory (path suffix : String) (entries : List (FileName × FileTree)) :
    loadFrom path suffix (.ok (.directory entries)) =
      .ok { policies := (selected suffix entries).filterMap (·.policy? path)
            failures := (selected suffix entries).filterMap (·.failure? path) } := by
  have hfiles : (walkEntries path entries).filter (·.isSelected suffix) =
      (selected suffix entries).map (·.found path) := by
    rw [walkEntries_eq, List.filter_map]
    rfl
  rw [loadFrom, loadEach, hfiles, List.foldl_map]
  exact congrArg Except.ok (foldl_addFile path (selected suffix entries) {})

/-- A path is refused as a whole only if no directory is there. -/
theorem directory_of_loadFrom {path suffix : String} {found : Except OsError FileTree} {cause : LoadError}
    (h : loadFrom path suffix found = .error cause) : ∃ reason, cause = .directory path reason := by
  unfold loadFrom at h
  split at h <;> cases h <;> exact ⟨_, rfl⟩

/-! ### Compiling -/

/-- What becomes of a file. -/
inductive Fate
  | failed (cause : FileError)
  | rejected (cause : ConditionError)
  | registered (c : CompiledPolicy)

variable [Regex.Engine]

namespace FileBelow

def fate (path : String) (f : FileBelow) : Fate :=
  match f.policy path with
  | .error cause => .failed cause
  | .ok p =>
    match p.compile with
    | .error cause => .rejected cause
    | .ok c => .registered c

def rejection? (path : String) (f : FileBelow) : Option (String × ConditionError) :=
  match f.fate path with
  | .rejected cause => some ((f.found path).path, cause)
  | _ => none

def compiled? (path : String) (f : FileBelow) : Option CompiledPolicy :=
  match f.fate path with
  | .registered c => some c
  | _ => none

theorem compile_of_compiled? {path : String} {f : FileBelow} {c : CompiledPolicy} (h : f.compiled? path = some c) :
    c.policy.compile = .ok c := by
  unfold compiled? fate at h
  cases hpolicy : f.policy path with
  | error cause =>
    rw [hpolicy] at h
    cases h
  | ok p =>
    rw [hpolicy] at h
    cases hc : p.compile with
    | error cause =>
      simp only [hc] at h
      cases h
    | ok compiled =>
      simp only [hc] at h
      cases h
      rw [Registry.compile_policy hc, hc]

end FileBelow

/-- Of the policies in files, those are compiled whose files are registered, and the others are rejected. -/
theorem compileAll_policies (path : String) (files : List FileBelow) :
    compileAll (files.filterMap (·.policy? path)) =
      (files.filterMap (·.compiled? path), files.filterMap (·.rejection? path)) := by
  induction files with
  | nil => rfl
  | cons f files ih =>
    cases h : f.policy path with
    | error cause =>
      have hnone : f.policy? path = none ∧ f.compiled? path = none ∧ f.rejection? path = none := by
        simp [FileBelow.policy?, FileBelow.compiled?, FileBelow.rejection?, FileBelow.fate, h, Except.toOption]
      rw [List.filterMap_cons_none hnone.1, List.filterMap_cons_none hnone.2.1, List.filterMap_cons_none hnone.2.2, ih]
    | ok p =>
      have hpolicy : f.policy? path = some ((f.found path).path, p) := by
        simp [FileBelow.policy?, h, Except.toOption]
      rw [List.filterMap_cons_some hpolicy]
      cases hc : p.compile with
      | ok c =>
        have hfate : f.compiled? path = some c ∧ f.rejection? path = none := by
          simp [FileBelow.compiled?, FileBelow.rejection?, FileBelow.fate, h, hc]
        rw [Registry.compileAll_cons_ok hc, ih, List.filterMap_cons_some hfate.1, List.filterMap_cons_none hfate.2]
      | error cause =>
        have hfate : f.compiled? path = none ∧ f.rejection? path = some ((f.found path).path, cause) := by
          simp [FileBelow.compiled?, FileBelow.rejection?, FileBelow.fate, h, hc]
        rw [Registry.compileAll_cons_error hc, ih, List.filterMap_cons_none hfate.1,
          List.filterMap_cons_some hfate.2]

/-- Each file has one fate. -/
theorem length_fates (path : String) (files : List FileBelow) :
    (files.filterMap (·.compiled? path)).length +
      ((files.filterMap (·.failure? path)).length + (files.filterMap (·.rejection? path)).length) = files.length := by
  induction files with
  | nil => rfl
  | cons f files ih =>
    rw [List.length_cons, ← ih]
    cases h : f.policy path with
    | error cause =>
      simp [FileBelow.compiled?, FileBelow.failure?, FileBelow.rejection?, FileBelow.fate, h]
      omega
    | ok p =>
      cases hc : p.compile <;>
        simp [FileBelow.compiled?, FileBelow.failure?, FileBelow.rejection?, FileBelow.fate, h, hc] <;>
        omega

end AccessPolicy.FileTree
