import AccessPolicy.Proofs.Policy.Sound
import AccessPolicy.Proofs.Registry.Revocation

/-!
# A policy that was read is registered once on each of its routes

Reading a document drops blank routes and repeated ones, so adding the policy counts one up on each of its routes
(`countOn_register`) and, if its id is new, removing the id takes back exactly that (`remove_register`).
-/

namespace AccessPolicy

namespace Registry

variable {registry : Registry} {c : CompiledPolicy}

/-! ### One more policy -/

theorem countOn_register (h : Tidy registry.routes) (c : CompiledPolicy) (route : String) :
    (registry.register c).countOn route = registry.countOn route + c.policy.routes.count route := by
  rw [countOn_eq, countOn_eq, entriesOn_register h, List.length_append, List.length_replicate]

theorem registrations_register (registry : Registry) (c : CompiledPolicy) :
    (registry.register c).stats.registrations = registry.stats.registrations + c.policy.routes.length := by
  rw [registrations_eq, registrations_eq, (allEntries_register registry c).length_eq, List.length_append,
    List.length_replicate]

theorem countId_register (registry : Registry) (c : CompiledPolicy) :
    (registry.register c).countId c.policy.id = registry.countId c.policy.id + c.policy.routes.length := by
  have hown : (List.replicate c.policy.routes.length (entryOf c)).countP (·.id = c.policy.id) =
      c.policy.routes.length := by
    simp [List.countP_replicate, entryOf]
  rw [countId_eq, countId_eq, (allEntries_register registry c).countP_eq, List.countP_append, hown]

/-- An id is new if no entry stands under it. -/
theorem countId_eq_zero {id : String} : registry.countId id = 0 ↔ ∀ r ∈ registry.routes, r.2.contains id = false := by
  rw [countId_eq, List.countP_eq_zero]
  simp only [allEntries, List.mem_flatMap, Index.contains, List.any_eq_false]
  constructor
  · intro h r hr e he
    exact h e ⟨r, hr, he⟩
  · rintro h e ⟨r, hr, he⟩
    exact h r hr e he

/-- A policy of a new id comes and goes without a trace. -/
theorem remove_register (h : Tidy registry.routes) (hnew : registry.countId c.policy.id = 0) :
    (registry.register c).remove c.policy.id = registry := by
  have hself : registry.remove c.policy.id = registry := by rw [remove, if_pos hnew]
  have hroutes : ((registry.register c).remove c.policy.id).routes = registry.routes := by
    refine ((h.register c).remove c.policy.id).ext h fun route => ?_
    have hothers : (entriesOn registry.routes route).filter (·.id ≠ c.policy.id) = entriesOn registry.routes route := by
      rw [← entriesOn_remove h, hself]
    rw [entriesOn_remove (h.register c), entriesOn_register h, List.filter_append, hothers]
    simp [entryOf]
  have hoptions : ((registry.register c).remove c.policy.id).options = registry.options :=
    options_perform (registry.register c) (.remove c.policy.id)
  calc (registry.register c).remove c.policy.id
      = ⟨((registry.register c).remove c.policy.id).options, ((registry.register c).remove c.policy.id).routes⟩ := rfl
    _ = registry := by rw [hroutes, hoptions]

/-- What a registry gains when a policy is added to it. -/
structure Gains (before : Registry) (p : Policy) (after : Registry) : Prop where
  /-- One policy on each of its routes, and none on any other. -/
  counts : ∀ route, after.countOn route = before.countOn route + if route ∈ p.routes then 1 else 0
  registrations : after.stats.registrations = before.stats.registrations + p.routes.length
  /-- If nothing was registered under its id, removing the id takes back all that was gained. -/
  removable : (∀ r ∈ before.routes, r.2.contains p.id = false) →
    after.perform (.remove p.id) = (.removed p.routes.length, before)

theorem gains_register (h : Tidy registry.routes) (hroutes : c.policy.routes.Nodup) :
    Gains registry c.policy (registry.register c) := by
  constructor
  case counts =>
    intro route
    rw [countOn_register h, hroutes.count]
  case registrations => exact registrations_register registry c
  case removable =>
    intro hnew
    have hzero : registry.countId c.policy.id = 0 := countId_eq_zero.2 hnew
    rw [perform, countId_register, hzero, Nat.zero_add, remove_register h hzero]

end Registry

/-- The routes of a policy that was read are trimmed texts that are not empty, each one once.  Added to a registry in
any state that operations lead to, the policy is therefore registered once on each of them. -/
theorem parse_registers {document : String} {p : Policy} (h : Policy.parse document = .ok p) :
    (∀ route ∈ p.routes, route ≠ "" ∧ Text.trimmed route = route) ∧ p.routes.Nodup ∧
      ∀ options operations, p.compile.isOk = true →
        ∃ next, (Registry.run { options } operations).perform (.add p) = (.added, next) ∧
          (Registry.run { options } operations).Gains p next := by
  have hsound := sound_of_parse h
  refine ⟨fun route hroute => ⟨?_, ?_⟩, hsound.nodup, fun options operations hpattern => ?_⟩
  · rintro rfl
    exact hsound.nonempty hroute
  · exact (hsound.texts .path (by decide) route hroute).ofList_trim
  · obtain ⟨hrepresents, -⟩ := Registry.represents_run options operations
    cases hc : p.compile with
    | error cause =>
      rw [hc] at hpattern
      cases hpattern
    | ok c =>
      obtain rfl : c.policy = p := Registry.compile_policy hc
      refine ⟨_, ?_, Registry.gains_register hrepresents.tidy hsound.nodup⟩
      simp only [Registry.perform, Registry.add, hc, bind, Except.bind, pure, Except.pure]

set_option maxRecDepth 4000 in
/-- A policy that names the hall twice, once after a blank, and a route that is empty; another policy is in the hall
already. -/
theorem parse_registers_hall :
    let document := "<policy><paths><path>hall</path><path/><path> hall</path><path>room</path></paths></policy>"
    let guest : Policy := { routes := ["hall", "room"] }
    let host : Policy := { manifest := { id := "host" }, routes := ["hall", "hall"] }
    Policy.parse document = .ok guest ∧ guest.compile.isOk = true ∧
      (∃ next, (Registry.run {} [.add host]).perform (.add guest) = (.added, next) ∧
        (Registry.run {} [.add host]).Gains guest next) ∧
      ∀ r ∈ (Registry.run {} [.add host]).routes, r.2.contains guest.id = false := by
  intro document guest host
  have hread : Policy.parse document = .ok guest := by cbv
  have hpattern : guest.compile.isOk = true := by cbv
  obtain ⟨-, -, hgains⟩ := parse_registers hread
  refine ⟨hread, hpattern, hgains {} [.add host] hpattern, ?_⟩
  cbv
  decide

end AccessPolicy
