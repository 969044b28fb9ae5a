import AccessPolicy.Proofs.Loading

/-!
# Each file for itself

A load sorts the files of a directory that are selected by their names: each adds its policy or its failure, a directory
that cannot be listed adds a failure, and nothing else is added (`Sorts`).  What a file adds depends on its own content
alone, so that another content of one file changes what this file adds and leaves the rest as it was (`loadAll_sorts`).
-/

namespace AccessPolicy

/-- What was loaded first, and then what was loaded after it. -/
instance : Append Loaded := ⟨fun a b => ⟨a.policies ++ b.policies, a.failures ++ b.failures⟩⟩

theorem Loaded.append_def (a b : Loaded) : a ++ b = ⟨a.policies ++ b.policies, a.failures ++ b.failures⟩ := rfl

namespace FileTree

/-! ### What a file adds -/

/-- The file adds its policy, or its failure, and nothing else; a directory that cannot be listed adds a failure. -/
inductive FileBelow.Adds (path : String) (f : FileBelow) : Loaded → Prop
  | policy {content : ByteArray} {text : String} {p : Policy} : f.content = .file (.ok content) →
    String.fromUTF8? content = some text → Policy.parse text = .ok p →
    f.Adds path { policies := [((f.found path).path, p)] }
  | document {content : ByteArray} {text : String} {cause : DocumentError} : f.content = .file (.ok content) →
    String.fromUTF8? content = some text → Policy.parse text = .error cause →
    f.Adds path { failures := [⟨(f.found path).path, .document cause⟩] }
  | notText {content : ByteArray} : f.content = .file (.ok content) → String.fromUTF8? content = none →
    f.Adds path { failures := [⟨(f.found path).path, .read .notText⟩] }
  | sealed {cause : OsError} : f.content = .file (.error cause) →
    f.Adds path { failures := [⟨(f.found path).path, .read (.system cause)⟩] }
  | closed {cause : OsError} : f.content = .closed cause →
    f.Adds path { failures := [⟨(f.found path).path, .read (.listing (f.found path).path cause)⟩] }

/-- The files add to what is loaded one after the other. -/
inductive Sorts (path : String) : List FileBelow → Loaded → Prop
  | nil : Sorts path [] {}
  | cons {f : FileBelow} {files : List FileBelow} {own loaded : Loaded} : f.Adds path own → Sorts path files loaded →
    Sorts path (f :: files) (own ++ loaded)

/-- What is loaded of the files. -/
def loadedOf (path : String) (files : List FileBelow) : Loaded where
  policies := files.filterMap (·.policy? path)
  failures := files.filterMap (·.failure? path)

theorem loadedOf_append (path : String) (files more : List FileBelow) :
    loadedOf path (files ++ more) = loadedOf path files ++ loadedOf path more := by
  rw [Loaded.append_def, loadedOf, List.filterMap_append, List.filterMap_append]
  rfl

theorem loadedOf_singleton (path : String) (f : FileBelow) :
    loadedOf path [f] = ({} : Loaded).addFile (f.found path).path (f.policy path) :=
  (foldl_addFile path [f] {}).symm

theorem adds_loadedOf (path : String) (f : FileBelow) : f.Adds path (loadedOf path [f]) := by
  rw [loadedOf_singleton, FileBelow.policy, Found.text, show (f.found path).content = f.content from rfl]
  cases hcontent : f.content with
  | closed cause => exact .closed hcontent
  | file content =>
    cases content with
    | error cause => exact .sealed hcontent
    | ok content =>
      show f.Adds path (({} : Loaded).addFile (f.found path).path (Policy.ofText (decode content)))
      rw [decode]
      cases htext : String.fromUTF8? content with
      | none => exact .notText hcontent htext
      | some text =>
        show f.Adds path (({} : Loaded).addFile (f.found path).path ((Policy.parse text).mapError .document))
        cases hresult : Policy.parse text with
        | error cause => exact .document hcontent htext hresult
        | ok p => exact .policy hcontent htext hresult

theorem sorts_loadedOf (path : String) (files : List FileBelow) : Sorts path files (loadedOf path files) := by
  induction files with
  | nil => exact .nil
  | cons f files ih =>
    rw [← List.singleton_append, loadedOf_append]
    exact .cons (adds_loadedOf path f) ih

/-! ### Another content of a file -/

/-- A file with this content, or one that cannot be read. -/
def ofContent : Except OsError ByteArray → FileTree
  | .ok content => .file content
  | .error cause => .sealed cause

/-- The entries become the others when the file among them or below them gets this content. -/
inductive Rewritten (content : Except OsError ByteArray) :
    FileBelow → List (FileName × FileTree) → List (FileName × FileTree) → Prop
  | here {before after : List (FileName × FileTree)} {name : FileName} {old : Except OsError ByteArray} :
    Rewritten content ⟨[], name, .file old⟩ (before ++ (name, ofContent old) :: after)
      (before ++ (name, ofContent content) :: after)
  | under {before after entries entries' : List (FileName × FileTree)} {name : FileName} {f : FileBelow} :
    Rewritten content f entries entries' →
    Rewritten content (f.under name) (before ++ (name, .directory entries) :: after)
      (before ++ (name, .directory entries') :: after)

theorem filesBelow_append (entries more : List (FileName × FileTree)) :
    filesBelow (entries ++ more) = filesBelow entries ++ filesBelow more := by
  induction entries with
  | nil => rfl
  | cons entry entries ih => rw [List.cons_append, filesBelow, filesBelow, ih, List.append_assoc]

theorem filesAt_ofContent (name : FileName) (content : Except OsError ByteArray) :
    filesAt name (ofContent content) = [⟨[], name, .file content⟩] := by
  cases content <;> rfl

/-- The walk comes to the same files in the same order. -/
theorem Rewritten.exists_split {content : Except OsError ByteArray} {f : FileBelow}
    {entries entries' : List (FileName × FileTree)} (h : Rewritten content f entries entries') :
    ∃ before after, filesBelow entries = before ++ [f] ++ after ∧
      filesBelow entries' = before ++ [{ f with content := .file content }] ++ after := by
  induction h with
  | @here before after name old =>
    refine ⟨filesBelow before, filesBelow after, ?_, ?_⟩
    · rw [filesBelow_append, filesBelow, filesAt_ofContent, List.append_assoc]
    · rw [filesBelow_append, filesBelow, filesAt_ofContent, List.append_assoc]
  | @under before after entries entries' name f _ ih =>
    obtain ⟨earlier, later, hfiles, hfiles'⟩ := ih
    refine ⟨filesBelow before ++ earlier.map (·.under name), later.map (·.under name) ++ filesBelow after, ?_, ?_⟩
    · rw [filesBelow_append, filesBelow, filesAt, hfiles]
      simp
    · rw [filesBelow_append, filesBelow, filesAt, hfiles']
      simp [FileBelow.under]

/-- The file is told by its name before and after. -/
theorem isSelected_of_rewritten {content : Except OsError ByteArray} {f : FileBelow}
    {entries entries' : List (FileName × FileTree)} (suffix : String) (h : Rewritten content f entries entries') :
    (f.found "").isSelected suffix = f.name.hasSuffix suffix ∧
      (FileBelow.found "" { f with content := .file content }).isSelected suffix = f.name.hasSuffix suffix := by
  refine ⟨?_, rfl⟩
  induction h with
  | here => rfl
  | under _ ih => exact ih

/-! ### Loading a directory -/

/-- What is loaded from a directory with these entries. -/
structure LoadsEach (path suffix : String) (entries : List (FileName × FileTree)) (loaded : Loaded) : Prop where
  /-- The files whose names have the suffix and the directories that cannot be listed, in the order of the names that
  lead to them, and nothing else. -/
  sorts : ∃ files : List FileBelow,
    (∀ f, f ∈ files ↔ (∃ entry ∈ entries, Leads entry.1 entry.2 f) ∧ f.Selected suffix) ∧
    (files.map (·.names)).Pairwise (· < ·) ∧ Sorts path files loaded
  /-- With another content of one file, what another load gives is the same but for what this file adds. -/
  isolated : ∀ {system : FileSystem} {entries' : List (FileName × FileTree)} {f : FileBelow}
    {content : Except OsError ByteArray}, system.find path = .ok (.directory entries') →
    Rewritten content f entries entries' → ∃ before own own' after, loaded = before ++ own ++ after ∧
      system.loadAll path suffix = .ok (before ++ own' ++ after) ∧
      (f.name.HasSuffix suffix → f.Adds path own ∧ { f with content := .file content }.Adds path own') ∧
      (¬f.name.HasSuffix suffix → own = {} ∧ own' = {})

/-- Where a directory is found, every file below it that is selected by its name is loaded or fails, and each is loaded
as if it were alone. -/
theorem loadAll_sorts {system : FileSystem} {path : String} {entries : List (FileName × FileTree)} (suffix : String)
    (hfound : system.find path = .ok (.directory entries)) (hsystem : system.root.Ordered) :
    ∃ loaded, system.loadAll path suffix = .ok loaded ∧ LoadsEach path suffix entries loaded := by
  have hload : ∀ {system : FileSystem} {entries : List (FileName × FileTree)},
      system.find path = .ok (.directory entries) →
        system.loadAll path suffix = .ok (loadedOf path (selected suffix entries)) := by
    intro system entries hfound
    rw [FileSystem.loadAll, hfound, loadFrom_directory]
    rfl
  refine ⟨_, hload hfound, ?_, ?_⟩
  · exact ⟨selected suffix entries, fun f => mem_selected,
      pairwise_selected (FileSystem.ordered_of_find hfound hsystem), sorts_loadedOf path _⟩
  · intro system' entries' f content hfound' hrewritten
    obtain ⟨before, after, hfiles, hfiles'⟩ := hrewritten.exists_split
    have hname := isSelected_of_rewritten suffix hrewritten
    refine ⟨loadedOf path (before.filter fun g => (g.found "").isSelected suffix),
      loadedOf path ([f].filter fun g => (g.found "").isSelected suffix),
      loadedOf path ([{ f with content := .file content }].filter fun g => (g.found "").isSelected suffix),
      loadedOf path (after.filter fun g => (g.found "").isSelected suffix), ?_, ?_, ?_, ?_⟩
    · rw [selected, hfiles, List.filter_append, List.filter_append, loadedOf_append, loadedOf_append]
    · rw [hload hfound', selected, hfiles', List.filter_append, List.filter_append, loadedOf_append, loadedOf_append]
    · intro hsuffix
      have hsuffix : f.name.hasSuffix suffix = true := FileName.hasSuffix_iff.2 hsuffix
      rw [List.filter_singleton, List.filter_singleton, hname.1, hname.2, hsuffix]
      exact ⟨adds_loadedOf path f, adds_loadedOf path _⟩
    · intro hsuffix
      have hsuffix : f.name.hasSuffix suffix = false := by
        rwa [← FileName.hasSuffix_iff, Bool.not_eq_true] at hsuffix
      rw [List.filter_singleton, List.filter_singleton, hname.1, hname.2, hsuffix]
      exact ⟨rfl, rfl⟩

/-- A directory with a name that has the suffix, a link, a file that is no text and a file whose name is none. -/
def shelf : List (FileName × FileTree) :=
  [("a.policy", .directory [("b.policy", .file "<policy></policy>".toUTF8)]), ("c.policy", .link "a.policy"),
    ("d.policy", .file ⟨#[0xFF]⟩),
    (⟨0xFF :: (".policy" : FileName).bytes⟩, .file "<policy></policy>".toUTF8)]

theorem ordered_shelf : Ordered (.directory [("s", .directory shelf)]) := by
  simp +decide [shelf]

/-- The directory alone in a file system. -/
def room : FileSystem where
  root := .directory [("s", .directory shelf)]

theorem loadAll_sorts_shelf :
    room.find "s" = .ok (.directory shelf) ∧ room.root.Ordered ∧
      room.loadAll "s" ".policy" =
        .ok { policies := [("s/a.policy/b.policy", {})], failures := [⟨"s/d.policy", .read .notText⟩] } ∧
      LoadsEach "s" ".policy" shelf
        { policies := [("s/a.policy/b.policy", {})], failures := [⟨"s/d.policy", .read .notText⟩] } := by
  have hfound : room.find "s" = .ok (.directory shelf) := by cbv
  obtain ⟨loaded, hload, hsorts⟩ := loadAll_sorts ".policy" hfound ordered_shelf
  have hloaded : room.loadAll "s" ".policy" =
      .ok { policies := [("s/a.policy/b.policy", {})], failures := [⟨"s/d.policy", .read .notText⟩] } := by
    rw [FileSystem.loadAll, hfound]
    cbv
  rw [hloaded] at hload
  cases hload
  exact ⟨hfound, ordered_shelf, hloaded, hsorts⟩

end FileTree

end AccessPolicy
