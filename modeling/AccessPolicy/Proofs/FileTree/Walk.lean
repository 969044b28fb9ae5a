import Mathlib.Data.List.Lex
import Mathlib.Data.String.Basic
import AccessPolicy.FileSystem

/-!
# The files that a walk comes to

A file below a directory is told by the names of the directories on the way to it and by its own (`Leads`), and so is
a directory that cannot be listed.  A walk comes to all of them and to nothing else (`walkEntries_eq`,
`mem_filesBelow`), and in a tree whose directories have their entries in order it comes to each of them once, in the
order of these names (`pairwise_filesBelow`).
-/

namespace AccessPolicy

/-! ### Names -/

namespace FileName

/-- The name is a text that ends in the suffix. -/
def HasSuffix (suffix : String) (name : FileName) : Prop :=
  ∃ text, name.text? = some text ∧ suffix.toList <:+ text.toList

theorem hasSuffix_iff {suffix : String} {name : FileName} : name.hasSuffix suffix = true ↔ name.HasSuffix suffix := by
  unfold hasSuffix HasSuffix
  cases name.text? <;> simp

end FileName

namespace FileTree

/-- A file below a directory, readable or not, or a directory that cannot be listed. -/
structure FileBelow where
  /-- The names of the directories on the way, from above. -/
  directories : List FileName
  name : FileName
  content : Content

/-- The names that lead to the file. -/
def FileBelow.names (f : FileBelow) : List FileName := f.directories ++ [f.name]

/-- The file below one more directory. -/
def FileBelow.under (directory : FileName) (f : FileBelow) : FileBelow :=
  { f with directories := directory :: f.directories }

/-- The file as a walk from a path comes to it. -/
def FileBelow.found (path : String) (f : FileBelow) : Found :=
  ⟨join (f.directories.foldl join path) f.name, f.name, f.content⟩

/-- An entry is the file, or is a directory that has the file somewhere below it. -/
inductive Leads : FileName → FileTree → FileBelow → Prop
  | file (name : FileName) (content : ByteArray) : Leads name (.file content) ⟨[], name, .file (.ok content)⟩
  | sealed (name : FileName) (cause : OsError) : Leads name (.sealed cause) ⟨[], name, .file (.error cause)⟩
  | closed (name : FileName) (cause : OsError) : Leads name (.closed cause) ⟨[], name, .closed cause⟩
  | under (name : FileName) {entry : FileName × FileTree} {entries : List (FileName × FileTree)} {f : FileBelow} :
    entry ∈ entries → Leads entry.1 entry.2 f → Leads name (.directory entries) (f.under name)

/-- In the directories of the tree the entries stand in ascending order of their names, one to a name. -/
inductive Ordered : FileTree → Prop
  | file (content : ByteArray) : Ordered (.file content)
  | sealed (cause : OsError) : Ordered (.sealed cause)
  | closed (cause : OsError) : Ordered (.closed cause)
  | link (target : String) : Ordered (.link target)
  | directory {entries : List (FileName × FileTree)} : (entries.map Prod.fst).Pairwise (· < ·) →
    (∀ entry ∈ entries, Ordered entry.2) → Ordered (.directory entries)

attribute [simp] Ordered.file Ordered.sealed Ordered.closed Ordered.link

@[simp] theorem ordered_directory {entries : List (FileName × FileTree)} :
    Ordered (.directory entries) ↔ (entries.map Prod.fst).Pairwise (· < ·) ∧ ∀ entry ∈ entries, Ordered entry.2 := by
  constructor
  · intro h
    cases h with
    | directory hnames hentries => exact ⟨hnames, hentries⟩
  · rintro ⟨hnames, hentries⟩
    exact .directory hnames hentries

/-! ### All files -/

mutual

/-- The files at and below an entry. -/
def filesAt (name : FileName) : FileTree → List FileBelow
  | file content => [⟨[], name, .file (.ok content)⟩]
  | sealed cause => [⟨[], name, .file (.error cause)⟩]
  | directory entries => (filesBelow entries).map (·.under name)
  | closed cause => [⟨[], name, .closed cause⟩]
  | link _ => []

/-- The files below a directory, entry by entry. -/
def filesBelow : List (FileName × FileTree) → List FileBelow
  | [] => []
  | (name, tree) :: entries => filesAt name tree ++ filesBelow entries

end

mutual

theorem walk_eq (path : String) (name : FileName) (tree : FileTree) :
    walk (join path name) name tree = (filesAt name tree).map (·.found path) :=
  match tree with
  | .file _ | .sealed _ | .closed _ | .link _ => rfl
  | .directory entries => by
    rw [walk, filesAt, walkEntries_eq (join path name) entries, List.map_map]
    rfl

/-- A walk comes to the files below the directory. -/
theorem walkEntries_eq (path : String) (entries : List (FileName × FileTree)) :
    walkEntries path entries = (filesBelow entries).map (·.found path) :=
  match entries with
  | [] => rfl
  | (name, tree) :: entries => by
    rw [walkEntries, filesBelow, List.map_append, walk_eq path name tree, walkEntries_eq path entries]

end

mutual

theorem mem_filesAt (name : FileName) (tree : FileTree) (f : FileBelow) : f ∈ filesAt name tree ↔ Leads name tree f :=
  match tree with
  | .file _ | .sealed _ | .closed _ => by
    rw [filesAt, List.mem_singleton]
    constructor
    · rintro rfl
      constructor
    · rintro ⟨⟩
      rfl
  | .link target => by
    rw [filesAt]
    exact iff_of_false List.not_mem_nil nofun
  | .directory entries => by
    rw [filesAt, List.mem_map]
    constructor
    · rintro ⟨g, hg, rfl⟩
      obtain ⟨entry, hentry, h⟩ := (mem_filesBelow entries g).1 hg
      exact .under name hentry h
    · intro h
      cases h with
      | under _ hentry h => exact ⟨_, (mem_filesBelow entries _).2 ⟨_, hentry, h⟩, rfl⟩

/-- The files below a directory are those to which its entries lead. -/
theorem mem_filesBelow (entries : List (FileName × FileTree)) (f : FileBelow) :
    f ∈ filesBelow entries ↔ ∃ entry ∈ entries, Leads entry.1 entry.2 f :=
  match entries with
  | [] => by
    rw [filesBelow]
    exact iff_of_false List.not_mem_nil nofun
  | (name, tree) :: entries => by
    rw [filesBelow, List.mem_append, mem_filesAt name tree f, mem_filesBelow entries f, List.exists_mem_cons_iff]

end

/-! ### Each file once, in order -/

/-- What an entry leads to has the name of the entry in front. -/
theorem Leads.exists_names {name : FileName} {tree : FileTree} {f : FileBelow} (h : Leads name tree f) :
    ∃ rest, f.names = name :: rest := by
  cases h with
  | file _ _ => exact ⟨[], rfl⟩
  | sealed _ _ => exact ⟨[], rfl⟩
  | closed _ _ => exact ⟨[], rfl⟩
  | @under _ _ _ g _ _ => exact ⟨g.names, rfl⟩

mutual

theorem pairwise_filesAt (name : FileName) (tree : FileTree) (h : Ordered tree) :
    ((filesAt name tree).map (·.names)).Pairwise (· < ·) :=
  match tree with
  | .file _ | .sealed _ | .closed _ => List.pairwise_singleton _ _
  | .link _ => List.Pairwise.nil
  | .directory entries => by
    have hinner := pairwise_filesBelow entries h
    rw [List.pairwise_map] at hinner
    rw [filesAt, List.map_map, List.pairwise_map]
    refine hinner.imp fun hlt => ?_
    exact List.cons_lt_cons_iff.2 (.inr ⟨rfl, hlt⟩)

theorem pairwise_filesBelow (entries : List (FileName × FileTree)) (h : Ordered (.directory entries)) :
    ((filesBelow entries).map (·.names)).Pairwise (· < ·) :=
  match entries with
  | [] => List.Pairwise.nil
  | (name, tree) :: entries => by
    obtain ⟨hnames, hentries⟩ := ordered_directory.1 h
    obtain ⟨hfirst, hnames⟩ := List.pairwise_cons.1 hnames
    obtain ⟨htree, hentries⟩ := List.forall_mem_cons.1 hentries
    rw [filesBelow, List.map_append, List.pairwise_append]
    refine ⟨pairwise_filesAt name tree htree, pairwise_filesBelow entries (.directory hnames hentries), ?_⟩
    intro names hmem names' hmem'
    obtain ⟨f, hf, rfl⟩ := List.mem_map.1 hmem
    obtain ⟨f', hf', rfl⟩ := List.mem_map.1 hmem'
    obtain ⟨rest, hrest⟩ := ((mem_filesAt name tree f).1 hf).exists_names
    obtain ⟨entry, hentry, hleads⟩ := (mem_filesBelow entries f').1 hf'
    obtain ⟨rest', hrest'⟩ := hleads.exists_names
    rw [hrest, hrest']
    exact List.cons_lt_cons_iff.2 (.inl (hfirst entry.1 (List.mem_map_of_mem hentry)))

end

/-! ### Where a path leads -/

theorem mem_of_lookup {entries : List (FileName × FileTree)} {name : FileName} {tree : FileTree}
    (h : entries.lookup name = some tree) : (name, tree) ∈ entries := by
  obtain ⟨before, after, rfl, -⟩ := List.lookup_eq_some_iff.1 h
  simp

/-- By induction on the way: above and below an ordered directory all is ordered. -/
theorem ordered_of_follow {links : Nat} {ancestors : List FileTree} {here tree : FileTree} {names : List String}
    (h : follow links ancestors here names = .ok tree) (hhere : Ordered here)
    (hancestors : ∀ ancestor ∈ ancestors, Ordered ancestor) : Ordered tree := by
  fun_induction follow links ancestors here names with
  | case1 =>
    cases h
    exact hhere
  | case2 _ _ _ _ _ _ ih => exact ih h hhere hancestors
  | case3 _ _ _ _ ih => exact ih h hhere nofun
  | case4 _ _ _ parent rest _ ih =>
    obtain ⟨hparent, hrest⟩ := List.forall_mem_cons.1 hancestors
    exact ih h hparent hrest
  | case8 ancestors _ _ entries _ _ _ _ _ _ _ ih =>
    have hroot : Ordered (ancestors.getLast?.getD (directory entries)) := by
      cases hlast : ancestors.getLast? with
      | none => exact hhere
      | some root => exact hancestors root (List.mem_of_getLast? hlast)
    exact ih h hroot nofun
  | case9 _ _ _ _ _ _ _ _ _ _ _ ih => exact ih h hhere hancestors
  | case10 _ _ _ _ _ _ _ next _ hnext ih =>
    have hbelow : Ordered next := (ordered_directory.1 hhere).2 _ (mem_of_lookup hnext)
    exact ih h hbelow (List.forall_mem_cons.2 ⟨hhere, hancestors⟩)
  | case11 _ _ _ _ ih => exact ih h hhere hancestors
  | case5 | case6 | case7 | case12 | case13 => cases h

/-! ### What shows itself at a path -/

theorem ordered_outOfReach {tree : FileTree} (h : Ordered tree) : Ordered tree.outOfReach := by
  cases tree with
  | file content => exact .sealed _
  | sealed cause => exact .sealed _
  | directory entries => exact .closed _
  | closed cause => exact .closed _
  | link target => exact h

/-- The names are the same, whatever can be reached. -/
theorem map_fst_seenEntries (size : Nat) (entries : List (FileName × FileTree)) :
    (seenEntries size entries).map Prod.fst = entries.map Prod.fst := by
  induction entries with
  | nil => rfl
  | cons entry entries ih => rw [seenEntries, List.map_cons, List.map_cons, ih]

mutual

theorem ordered_seen (size : Nat) (tree : FileTree) (h : Ordered tree) : Ordered (seen size tree) :=
  match tree with
  | .file _ | .sealed _ | .closed _ | .link _ => h
  | .directory entries => by
    obtain ⟨hnames, hentries⟩ := ordered_directory.1 h
    rw [seen]
    refine .directory ?_ (ordered_seenEntries size entries hentries)
    rwa [map_fst_seenEntries]

theorem ordered_seenEntries (size : Nat) (entries : List (FileName × FileTree))
    (h : ∀ entry ∈ entries, Ordered entry.2) : ∀ entry ∈ seenEntries size entries, Ordered entry.2 :=
  match entries with
  | [] => nofun
  | (name, tree) :: entries => by
    obtain ⟨htree, hentries⟩ := List.forall_mem_cons.1 h
    rw [seenEntries]
    refine List.forall_mem_cons.2 ⟨?_, ordered_seenEntries size entries hentries⟩
    split
    · exact ordered_seen _ tree htree
    · exact ordered_outOfReach htree

end

end FileTree

namespace FileSystem

theorem find_eq_ok {system : FileSystem} {path : String} {found : FileTree} :
    system.find path = .ok found ↔
      ∃ tree, system.node path = .ok tree ∧ tree.seen (FileTree.sizeBefore path) = found := by
  rw [find]
  cases system.node path <;> simp [Except.map]

/-- A name is a path on its own. -/
theorem node_name (system : FileSystem) {name : String} (hzero : name.contains '\x00' = false) (hne : name ≠ "")
    (hsize : ¬ FileTree.maxPath < name.utf8ByteSize) (hsplit : Text.splitText '/' name = [name])
    (hrelative : FileTree.isAbsolute name = false) :
    system.node name = FileTree.follow FileTree.maxLinks [] system.root (system.workplace ++ [name]) := by
  rw [node, hzero, if_neg Bool.false_ne_true, if_neg hne, if_neg hsize, hrelative, hsplit]
  rfl

/-- What is at a path of an ordered file system is ordered. -/
theorem ordered_of_find {system : FileSystem} {found : FileTree} {path : String} (h : system.find path = .ok found)
    (hsystem : system.root.Ordered) : found.Ordered := by
  obtain ⟨tree, hnode, rfl⟩ := find_eq_ok.1 h
  apply FileTree.ordered_seen
  unfold node at hnode
  split at hnode
  · cases hnode
  · split at hnode
    · cases hnode
    · split at hnode
      · cases hnode
      · exact FileTree.ordered_of_follow hnode hsystem nofun

end FileSystem

end AccessPolicy
