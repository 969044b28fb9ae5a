import Mathlib
import AccessPolicy.Registry

/-!
# The routes of a registry

A registry keeps its routes in ascending order and none of them empty (`Tidy`).  What stands on a route is
therefore a function of its name (`entriesOn`), and each operation is described by what it does to that function:
an entry is put at the end of one route (`entriesOn_insertEntry`), a policy at the end of each route it names, once
for each time (`entriesOn_register`), and removing an id filters every route (`entriesOn_remove`).  All entries
together, whatever their routes, are kept track of up to their order (`allEntries`).
-/

namespace AccessPolicy.Registry

/-- The routes stand in ascending order, one to a name, and each has an entry. -/
structure Tidy (routes : List (String × Index Policy)) : Prop where
  ascending : (routes.map Prod.fst).Pairwise (· < ·)
  inhabited : ∀ r ∈ routes, r.2.entries ≠ []

/-- The entries on a route; none on a route that is not there. -/
def entriesOn (routes : List (String × Index Policy)) (route : String) : List (Entry Policy) :=
  ((routes.lookup route).map Index.entries).getD []

/-- The entries on all routes. -/
def allEntries (routes : List (String × Index Policy)) : List (Entry Policy) := routes.flatMap (·.2.entries)

/-! ### Looking a route up -/

@[simp] theorem entriesOn_nil (route : String) : entriesOn [] route = [] := rfl

theorem entriesOn_cons (name : String) (index : Index Policy) (routes : List (String × Index Policy))
    (route : String) :
    entriesOn ((name, index) :: routes) route = if route = name then index.entries else entriesOn routes route := by
  unfold entriesOn
  rw [List.lookup_cons]
  by_cases h : route = name
  · simp [h]
  · simp [h, beq_eq_false_iff_ne.2 h]

theorem entriesOn_of_notMem {routes : List (String × Index Policy)} {route : String}
    (h : route ∉ routes.map Prod.fst) : entriesOn routes route = [] := by
  induction routes with
  | nil => rfl
  | cons r routes ih =>
    simp only [List.map_cons, List.mem_cons, not_or] at h
    rw [entriesOn_cons, if_neg h.1, ih h.2]

theorem Tidy.nil : Tidy [] := ⟨List.Pairwise.nil, by simp⟩

private theorem Tidy.tail {r : String × Index Policy} {routes : List (String × Index Policy)}
    (h : Tidy (r :: routes)) : Tidy routes :=
  ⟨(List.pairwise_cons.1 h.ascending).2, fun x hx => h.inhabited x (List.mem_cons_of_mem _ hx)⟩

private theorem Tidy.lt_of_mem_tail {r : String × Index Policy} {routes : List (String × Index Policy)}
    (h : Tidy (r :: routes)) {name : String} (hname : name ∈ routes.map Prod.fst) : r.1 < name :=
  (List.pairwise_cons.1 h.ascending).1 name hname

theorem Tidy.nodup {routes : List (String × Index Policy)} (h : Tidy routes) : (routes.map Prod.fst).Nodup :=
  h.ascending.imp fun hlt => ne_of_lt hlt

/-- A route is there exactly when something stands on it. -/
theorem Tidy.mem_iff {routes : List (String × Index Policy)} (h : Tidy routes) (route : String) :
    route ∈ routes.map Prod.fst ↔ entriesOn routes route ≠ [] := by
  induction routes with
  | nil => simp
  | cons r routes ih =>
    rw [entriesOn_cons, List.map_cons, List.mem_cons]
    by_cases hr : route = r.1
    · simp [hr, h.inhabited r (by simp)]
    · simp [hr, ih h.tail]

/-- The routes are their names, each with the entries that stand on it. -/
theorem Tidy.map_names {routes : List (String × Index Policy)} (h : Tidy routes) :
    (routes.map Prod.fst).map (fun route => (route, ⟨entriesOn routes route⟩)) = routes := by
  induction routes with
  | nil => rfl
  | cons r routes ih =>
    have hne : ∀ name ∈ routes.map Prod.fst, entriesOn (r :: routes) name = entriesOn routes name := by
      intro name hname
      have := h.lt_of_mem_tail hname
      rw [entriesOn_cons, if_neg (ne_of_gt this)]
    have htail : (routes.map Prod.fst).map (fun route => (route, (⟨entriesOn (r :: routes) route⟩ : Index Policy))) =
        (routes.map Prod.fst).map fun route => (route, ⟨entriesOn routes route⟩) :=
      List.map_congr_left fun name hname => by rw [hne name hname]
    rw [List.map_cons, List.map_cons, htail, ih h.tail, entriesOn_cons, if_pos rfl]

/-- The routes one by one are the routes by name. -/
theorem Tidy.map_entriesOn {routes : List (String × Index Policy)} (h : Tidy routes) :
    (routes.map Prod.fst).map (entriesOn routes) = routes.map (·.2.entries) := by
  have hentries := congrArg (List.map (·.2.entries)) h.map_names
  rw [List.map_map] at hentries
  exact hentries

/-- Only the entries on each route matter. -/
theorem Tidy.ext {routes others : List (String × Index Policy)} (h : Tidy routes) (h' : Tidy others)
    (hentries : ∀ route, entriesOn routes route = entriesOn others route) : routes = others := by
  have hmem : ∀ route, route ∈ routes.map Prod.fst ↔ route ∈ others.map Prod.fst := by
    intro route
    rw [h.mem_iff, h'.mem_iff, hentries]
  have hnames : routes.map Prod.fst = others.map Prod.fst := by
    apply List.Perm.eq_of_pairwise' h.ascending h'.ascending
    exact (List.perm_ext_iff_of_nodup h.nodup h'.nodup).2 hmem
  rw [← h.map_names, ← h'.map_names, hnames, funext hentries]

/-! ### Putting an entry on a route -/

theorem mem_insertEntry {route name : String} {entry : Entry Policy} {routes : List (String × Index Policy)} :
    name ∈ (insertEntry route entry routes).map Prod.fst ↔ name = route ∨ name ∈ routes.map Prod.fst := by
  induction routes with
  | nil => simp [insertEntry]
  | cons r routes ih =>
    unfold insertEntry
    split
    · simp
    · split
      · rename_i h
        simp [h]
      · simp only [List.map_cons, List.mem_cons, ih]
        exact or_left_comm

theorem entriesOn_insertEntry (route : String) (entry : Entry Policy) {routes : List (String × Index Policy)}
    (h : Tidy routes) (name : String) :
    entriesOn (insertEntry route entry routes) name =
      entriesOn routes name ++ if name = route then [entry] else [] := by
  induction routes with
  | nil =>
    rw [insertEntry, entriesOn_cons]
    by_cases hn : name = route <;> simp [hn, Index.insert]
  | cons r routes ih =>
    unfold insertEntry
    split
    · rename_i hlt
      rw [entriesOn_cons]
      by_cases hn : name = route
      · -- the route is smaller than all that are there, so it is a new one
        have hnew : route ∉ (r :: routes).map Prod.fst := by
          intro hmem
          rcases List.mem_cons.1 hmem with he | hmem
          · exact lt_irrefl _ (he ▸ hlt)
          · exact lt_irrefl _ (hlt.trans (h.lt_of_mem_tail hmem))
        rw [hn, entriesOn_of_notMem hnew]
        simp [Index.insert]
      · simp [hn]
    · split
      · rename_i he
        rw [entriesOn_cons, entriesOn_cons]
        by_cases hn : name = r.1
        · simp [hn, he]
        · simp [hn, he]
      · rename_i hne
        rw [entriesOn_cons, entriesOn_cons, ih h.tail]
        by_cases hn : name = r.1
        · simp [hn, Ne.symm hne]
        · simp [hn]

theorem Tidy.insertEntry (route : String) (entry : Entry Policy) {routes : List (String × Index Policy)}
    (h : Tidy routes) : Tidy (insertEntry route entry routes) := by
  induction routes with
  | nil => exact ⟨by simp [Registry.insertEntry], by simp [Registry.insertEntry, Index.insert]⟩
  | cons r routes ih =>
    unfold Registry.insertEntry
    split
    · rename_i hlt
      refine ⟨List.pairwise_cons.2 ⟨?_, h.ascending⟩, ?_⟩
      · intro name hname
        rcases List.mem_cons.1 hname with rfl | hname
        · exact hlt
        · exact hlt.trans (h.lt_of_mem_tail hname)
      · intro x hx
        rcases List.mem_cons.1 hx with rfl | hx
        · simp [Index.insert]
        · exact h.inhabited x hx
    · split
      · refine ⟨h.ascending, ?_⟩
        intro x hx
        rcases List.mem_cons.1 hx with rfl | hx
        · simp
        · exact h.inhabited x (List.mem_cons_of_mem _ hx)
      · rename_i hlt hne
        have hgt : r.1 < route := lt_of_le_of_ne (not_lt.1 hlt) (Ne.symm hne)
        refine ⟨List.pairwise_cons.2 ⟨?_, (ih h.tail).ascending⟩, ?_⟩
        · intro name hname
          rcases mem_insertEntry.1 hname with rfl | hname
          · exact hgt
          · exact h.lt_of_mem_tail hname
        · intro x hx
          rcases List.mem_cons.1 hx with rfl | hx
          · exact h.inhabited _ (by simp)
          · exact (ih h.tail).inhabited x hx

theorem allEntries_insertEntry (route : String) (entry : Entry Policy) (routes : List (String × Index Policy)) :
    (allEntries (insertEntry route entry routes)).Perm (allEntries routes ++ [entry]) := by
  induction routes with
  | nil => simp [insertEntry, allEntries, Index.insert]
  | cons r routes ih =>
    unfold insertEntry
    split
    · simp only [allEntries, List.flatMap_cons, Index.entries_insert, List.nil_append]
      exact List.perm_append_comm
    · split
      · simp only [allEntries, List.flatMap_cons, Index.entries_insert, List.append_assoc]
        exact List.perm_append_comm.append_left _
      · simp only [allEntries, List.flatMap_cons, List.append_assoc]
        exact ih.append_left _

/-! ### Registering a policy -/

/-- The entry that a policy has on each of its routes. -/
def entryOf (c : CompiledPolicy) : Entry Policy := { id := c.policy.id, pattern := c.pattern, payload := c.policy }

private theorem entriesOn_foldl_insertEntry (entry : Entry Policy) (names : List String)
    {routes : List (String × Index Policy)} (h : Tidy routes) (name : String) :
    Tidy (names.foldl (fun routes route => insertEntry route entry routes) routes) ∧
      entriesOn (names.foldl (fun routes route => insertEntry route entry routes) routes) name =
        entriesOn routes name ++ List.replicate (names.count name) entry := by
  induction names generalizing routes with
  | nil => simp [h]
  | cons route names ih =>
    obtain ⟨htidy, hentries⟩ := ih (h.insertEntry route entry)
    refine ⟨htidy, ?_⟩
    rw [List.foldl_cons, hentries, entriesOn_insertEntry route entry h, List.append_assoc, List.count_cons]
    by_cases hn : name = route
    · simp [hn, List.replicate_succ]
    · simp [hn, Ne.symm hn]

private theorem allEntries_foldl_insertEntry (entry : Entry Policy) (names : List String)
    (routes : List (String × Index Policy)) :
    (allEntries (names.foldl (fun routes route => insertEntry route entry routes) routes)).Perm
      (allEntries routes ++ List.replicate names.length entry) := by
  induction names generalizing routes with
  | nil => simp
  | cons route names ih =>
    refine (ih (insertEntry route entry routes)).trans ?_
    refine ((allEntries_insertEntry route entry routes).append_right _).trans ?_
    rw [List.append_assoc, List.length_cons, List.replicate_succ]
    exact List.Perm.refl _

theorem Tidy.register {registry : Registry} (h : Tidy registry.routes) (c : CompiledPolicy) :
    Tidy (registry.register c).routes := (entriesOn_foldl_insertEntry (entryOf c) c.policy.routes h "").1

/-- A policy goes to the end of each route, once for each time that it names the route. -/
theorem entriesOn_register {registry : Registry} (h : Tidy registry.routes) (c : CompiledPolicy) (route : String) :
    entriesOn (registry.register c).routes route =
      entriesOn registry.routes route ++ List.replicate (c.policy.routes.count route) (entryOf c) :=
  (entriesOn_foldl_insertEntry (entryOf c) c.policy.routes h route).2

theorem allEntries_register (registry : Registry) (c : CompiledPolicy) :
    (allEntries (registry.register c).routes).Perm
      (allEntries registry.routes ++ List.replicate c.policy.routes.length (entryOf c)) :=
  allEntries_foldl_insertEntry (entryOf c) c.policy.routes registry.routes

/-! ### Removing an id -/

/-- The routes without the entries of an id; none that is left empty. -/
private def dropId (id : String) (routes : List (String × Index Policy)) : List (String × Index Policy) :=
  (routes.map fun (route, index) => (route, index.remove id)).filter fun (_, index) => !index.isEmpty

private theorem dropId_cons (id : String) (r : String × Index Policy) (routes : List (String × Index Policy)) :
    dropId id (r :: routes) =
      if (r.2.remove id).entries = [] then dropId id routes else (r.1, r.2.remove id) :: dropId id routes := by
  by_cases h : (r.2.remove id).entries = []
  · rw [if_pos h, dropId, List.map_cons, List.filter_cons_of_neg (by simpa [Index.isEmpty] using h), dropId]
  · rw [if_neg h, dropId, List.map_cons, List.filter_cons_of_pos (by simpa [Index.isEmpty] using h), dropId]

private theorem mem_dropId {id name : String} {routes : List (String × Index Policy)}
    (h : name ∈ (dropId id routes).map Prod.fst) : name ∈ routes.map Prod.fst := by
  induction routes with
  | nil => simp [dropId] at h
  | cons r routes ih =>
    rw [dropId_cons] at h
    split at h
    · exact List.mem_cons_of_mem _ (ih h)
    · rcases List.mem_cons.1 h with rfl | h
      · simp
      · exact List.mem_cons_of_mem _ (ih h)

private theorem Tidy.dropId (id : String) {routes : List (String × Index Policy)} (h : Tidy routes) :
    Tidy (dropId id routes) := by
  induction routes with
  | nil => exact Tidy.nil
  | cons r routes ih =>
    rw [dropId_cons]
    split
    · exact ih h.tail
    · rename_i hne
      refine ⟨List.pairwise_cons.2 ⟨?_, (ih h.tail).ascending⟩, ?_⟩
      · exact fun name hname => h.lt_of_mem_tail (mem_dropId hname)
      · intro x hx
        rcases List.mem_cons.1 hx with rfl | hx
        · exact hne
        · exact (ih h.tail).inhabited x hx

private theorem entriesOn_dropId (id : String) {routes : List (String × Index Policy)} (h : Tidy routes)
    (route : String) :
    entriesOn (dropId id routes) route = (entriesOn routes route).filter (·.id ≠ id) := by
  induction routes with
  | nil => rfl
  | cons r routes ih =>
    rw [dropId_cons, entriesOn_cons]
    split
    · rename_i hnil
      by_cases hr : route = r.1
      · have hnew : route ∉ (Registry.dropId id routes).map Prod.fst := by
          intro hmem
          exact lt_irrefl _ (hr ▸ h.lt_of_mem_tail (mem_dropId hmem))
        rw [if_pos hr, entriesOn_of_notMem hnew]
        exact hnil.symm
      · rw [if_neg hr, ih h.tail]
    · rw [entriesOn_cons]
      split
      · rfl
      · exact ih h.tail

private theorem allEntries_dropId (id : String) (routes : List (String × Index Policy)) :
    allEntries (dropId id routes) = (allEntries routes).filter (·.id ≠ id) := by
  induction routes with
  | nil => rfl
  | cons r routes ih =>
    have hcons : allEntries (r :: routes) = r.2.entries ++ allEntries routes := rfl
    rw [dropId_cons, hcons, List.filter_append, ← ih]
    split
    · rename_i hnil
      rw [← Index.entries_remove, hnil, List.nil_append]
    · rfl

theorem countId_eq (registry : Registry) (id : String) :
    registry.countId id = (allEntries registry.routes).countP (·.id = id) := by
  obtain ⟨options, routes⟩ := registry
  simp only [countId, allEntries]
  induction routes with
  | nil => rfl
  | cons r routes ih => rw [List.foldr_cons, ih, List.flatMap_cons, List.countP_append]; rfl

/-- Whether or not the id is registered, removing it filters the routes. -/
private theorem remove_routes (registry : Registry) (id : String) :
    (registry.countId id = 0 ∧ (registry.remove id).routes = registry.routes) ∨
      (registry.remove id).routes = dropId id registry.routes := by
  unfold remove
  split
  · exact Or.inl ⟨‹_›, rfl⟩
  · exact Or.inr rfl

private theorem mem_allEntries {routes : List (String × Index Policy)} {route : String} {e : Entry Policy}
    (h : e ∈ entriesOn routes route) : e ∈ allEntries routes := by
  induction routes with
  | nil => simp at h
  | cons r routes ih =>
    rw [entriesOn_cons] at h
    split at h
    · exact List.mem_append_left _ h
    · exact List.mem_append_right _ (ih h)

theorem Tidy.remove {registry : Registry} (h : Tidy registry.routes) (id : String) :
    Tidy (registry.remove id).routes := by
  rcases remove_routes registry id with ⟨_, hr⟩ | hr
  · rwa [hr]
  · rw [hr]; exact h.dropId id

theorem entriesOn_remove {registry : Registry} (h : Tidy registry.routes) (id route : String) :
    entriesOn (registry.remove id).routes route = (entriesOn registry.routes route).filter (·.id ≠ id) := by
  rcases remove_routes registry id with ⟨hzero, hr⟩ | hr
  · rw [countId_eq, List.countP_eq_zero] at hzero
    rw [hr, List.filter_eq_self.2]
    exact fun e he => by simpa using hzero e (mem_allEntries he)
  · rw [hr, entriesOn_dropId id h]

theorem allEntries_remove (registry : Registry) (id : String) :
    allEntries (registry.remove id).routes = (allEntries registry.routes).filter (·.id ≠ id) := by
  rcases remove_routes registry id with ⟨hzero, hr⟩ | hr
  · rw [countId_eq, List.countP_eq_zero] at hzero
    rw [hr, List.filter_eq_self.2]
    exact fun e he => by simpa using hzero e he
  · rw [hr, allEntries_dropId id]

/-! ### What is told of the routes -/

theorem countOn_eq (registry : Registry) (route : String) :
    registry.countOn route = (entriesOn registry.routes route).length := by
  unfold countOn entriesOn index?
  cases registry.routes.lookup route <;> rfl

theorem matching_eq (registry : Registry) (route : String) (event : Json) :
    registry.matching route event =
      ((entriesOn registry.routes route).filter (·.pattern.accepts event)).map Entry.payload := by
  unfold matching entriesOn index?
  cases registry.routes.lookup route <;> rfl

theorem flatMap_ids (routes : List (String × Index Policy)) :
    routes.flatMap (fun r => r.2.ids) = (allEntries routes).map (·.id) := by
  simp [allEntries, List.map_flatMap, Index.ids]

theorem registrations_eq (registry : Registry) :
    registry.stats.registrations = (allEntries registry.routes).length := by
  rw [← List.length_map (·.id), ← flatMap_ids]
  rfl

end AccessPolicy.Registry
