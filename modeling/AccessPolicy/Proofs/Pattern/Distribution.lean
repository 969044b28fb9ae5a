import Mathlib
import AccessPolicy.Proofs.Pattern.Accepts
import AccessPolicy.Proofs.Pattern.Recognition

/-!
# Splitting and merging patterns

Alternatives are disjunctions and fields are conjunctions, wherever in a pattern they stand.  A pattern with a hole is a
`Context`: the hole is an object at any depth, within fields and within choices.  What the object in the hole asks as a
disjunction, the whole pattern asks as one (`satisfies_fill`), since nothing around a hole negates: an array only asks
for an element, and a choice for one of several.  So the alternatives of a leaf or of an `$or` can be dealt out to two
patterns, a leaf can be written as an `$or`, and an object can be cut into two (`alternatives_distribute`).
-/

namespace AccessPolicy

variable {C : Convention} {fields left right before after : List (String × Json)} {key : String} {value : Option Json}

/-! ### Fields one by one -/

/-- What a field of a pattern asks of a value. -/
def EntrySatisfies (C : Convention) (field : String × Json) (value : Option Json) : Prop :=
  if field.1 = "$or" then ChoiceSatisfies C field.2 value
  else FieldSatisfies C field.2 (Constraint.member value field.1)

theorem satisfies_iff_forall : Satisfies C fields value ↔ ∀ field ∈ fields, EntrySatisfies C field value := by
  induction fields with
  | nil => simp [satisfies_nil]
  | cons field fields ih =>
    rw [satisfies_cons, ih, List.forall_mem_cons]
    rfl

theorem satisfies_entry {pattern : Json} :
    Satisfies C (before ++ (key, pattern) :: after) value ↔
      EntrySatisfies C (key, pattern) value ∧ Satisfies C (before ++ after) value := by
  simp only [satisfies_iff_forall, List.forall_mem_append, List.forall_mem_cons]
  exact and_left_comm

/-- A field that asks for one of two things. -/
theorem satisfies_entry_or {whole first second : Json}
    (h : EntrySatisfies C (key, whole) value ↔
      EntrySatisfies C (key, first) value ∨ EntrySatisfies C (key, second) value) :
    Satisfies C (before ++ (key, whole) :: after) value ↔
      Satisfies C (before ++ (key, first) :: after) value ∨ Satisfies C (before ++ (key, second) :: after) value := by
  rw [satisfies_entry, satisfies_entry, satisfies_entry, h, or_and_right]

/-- Alternatives, or choices, in two parts. -/
theorem entrySatisfies_append {xs ys : List Json} :
    EntrySatisfies C (key, .array (xs ++ ys)) value ↔
      EntrySatisfies C (key, .array xs) value ∨ EntrySatisfies C (key, .array ys) value := by
  unfold EntrySatisfies
  by_cases hkey : key = "$or"
  · simp only [if_pos hkey, choiceSatisfies_array, List.mem_append, or_and_right, exists_or]
  · simp only [if_neg hkey, fieldSatisfies_array, List.mem_append, or_and_right, exists_or]

/-! ### Patterns within patterns -/

/-- The values that a pattern of its own is held against: the objects in an array, or one value. -/
def views : Option Json → List (Option Json)
  | some (.array items) => (items.filter (·.isObject)).map some
  | some (.object members) => [some (.object members)]
  | _ => [none]

theorem fieldSatisfies_object :
    FieldSatisfies C (.object fields) value ↔ ∃ view ∈ views value, Satisfies C fields view := by
  constructor
  · intro h
    cases h with
    | element hitem hobject h => exact ⟨_, by simp [views, hitem, hobject], h⟩
    | object h => exact ⟨_, List.mem_singleton.2 rfl, h⟩
    | missing hplain h =>
      refine ⟨none, ?_, h⟩
      unfold views
      split
      · exact absurd (hplain _ rfl).1 (by simp [Json.isArray])
      · exact absurd (hplain _ rfl).2 (by simp [Json.isObject])
      · exact List.mem_singleton.2 rfl
  · rintro ⟨view, hview, h⟩
    unfold views at hview
    split at hview
    · obtain ⟨item, hitem, rfl⟩ := List.mem_map.1 hview
      obtain ⟨hitem, hobject⟩ := List.mem_filter.1 hitem
      exact .element hitem hobject h
    · obtain rfl := List.mem_singleton.1 hview
      exact .object h
    · rename_i harray hobject
      obtain rfl := List.mem_singleton.1 hview
      refine .missing (fun v hv => ?_) h
      cases v <;> simp_all [Json.isArray, Json.isObject]

theorem choiceSatisfies_choice {earlier later : List Json} :
    ChoiceSatisfies C (.array (earlier ++ .object fields :: later)) value ↔
      Satisfies C fields value ∨ ChoiceSatisfies C (.array (earlier ++ later)) value := by
  simp only [choiceSatisfies_array, List.mem_append, List.mem_cons]
  constructor
  · rintro ⟨others, hearlier | heq | hlater, h⟩
    · exact .inr ⟨others, .inl hearlier, h⟩
    · cases heq
      exact .inl h
    · exact .inr ⟨others, .inr hlater, h⟩
  · rintro (h | ⟨others, hearlier | hlater, h⟩)
    · exact ⟨fields, .inr (.inl rfl), h⟩
    · exact ⟨others, .inl hearlier, h⟩
    · exact ⟨others, .inr (.inr hlater), h⟩

namespace Pattern

/-- A pattern with a hole, where the fields of an object are missing. -/
inductive Context
  | hole
  /-- The hole is in the object that a field holds. -/
  | field (before : List (String × Json)) (key : String) (inner : Context) (after : List (String × Json))
  /-- The hole is in one of the choices. -/
  | choice (before : List (String × Json)) (earlier : List Json) (inner : Context) (later : List Json)
    (after : List (String × Json))

/-- The pattern with fields in its hole. -/
def Context.fill : Context → List (String × Json) → List (String × Json)
  | hole, fields => fields
  | field before key inner after, fields => before ++ (key, .object (inner.fill fields)) :: after
  | choice before earlier inner later after, fields =>
    before ++ ("$or", .array (earlier ++ .object (inner.fill fields) :: later)) :: after

/-- By induction on what is around the hole: none of it negates. -/
theorem satisfies_fill (context : Context)
    (h : ∀ value, Satisfies C fields value ↔ Satisfies C left value ∨ Satisfies C right value) (value : Option Json) :
    Satisfies C (context.fill fields) value ↔
      Satisfies C (context.fill left) value ∨ Satisfies C (context.fill right) value := by
  induction context generalizing value with
  | hole => exact h value
  | field before key inner after ih =>
    apply satisfies_entry_or
    unfold EntrySatisfies
    by_cases hkey : key = "$or"
    · -- choices are no object
      have hnone : ∀ others, ¬ChoiceSatisfies C (.object others) value := nofun
      simp only [if_pos hkey, hnone, or_self]
    · simp only [if_neg hkey, fieldSatisfies_object, ih, and_or_left, exists_or]
  | choice before earlier inner later after ih =>
    apply satisfies_entry_or
    simp only [EntrySatisfies, if_true, choiceSatisfies_choice, ih]
    exact or_or_distrib_right

/-! ### Well-formed patterns -/

theorem wellFormed_iff_forall : WellFormed fields ↔ ∀ field ∈ fields, FieldWellFormed field.1 field.2 := by
  induction fields with
  | nil => simp [wellFormed_nil]
  | cons field fields ih => rw [wellFormed_cons, ih, List.forall_mem_cons]

theorem wellFormed_entry {pattern : Json} :
    WellFormed (before ++ (key, pattern) :: after) ↔ FieldWellFormed key pattern ∧ WellFormed (before ++ after) := by
  simp only [wellFormed_iff_forall, List.forall_mem_append, List.forall_mem_cons]
  exact and_left_comm

theorem wellFormed_fill (context : Context) (h : WellFormed fields → WellFormed left)
    (hfill : WellFormed (context.fill fields)) : WellFormed (context.fill left) := by
  induction context with
  | hole => exact h hfill
  | field before key inner after ih =>
    obtain ⟨hfield, hothers⟩ := wellFormed_entry.1 hfill
    obtain ⟨hkey, hinner⟩ := fieldWellFormed_object.1 hfield
    exact wellFormed_entry.2 ⟨fieldWellFormed_object.2 ⟨hkey, ih hinner⟩, hothers⟩
  | choice before earlier inner later after ih =>
    obtain ⟨hfield, hothers⟩ := wellFormed_entry.1 hfill
    refine wellFormed_entry.2 ⟨?_, hothers⟩
    simp only [fieldWellFormed_array, if_true, List.forall_mem_append, List.forall_mem_cons,
      choiceWellFormed_object] at hfield ⊢
    obtain ⟨-, hearlier, hinner, hlater⟩ := hfield
    exact ⟨by simp, hearlier, ih hinner, hlater⟩

/-- Some of the alternatives, or of the choices. -/
theorem wellFormed_some {items some : List Json} (hne : some ≠ []) (hsub : ∀ item ∈ some, item ∈ items)
    (h : WellFormed (before ++ (key, .array items) :: after)) : WellFormed (before ++ (key, .array some) :: after) := by
  obtain ⟨hfield, hothers⟩ := wellFormed_entry.1 h
  obtain ⟨-, hitems⟩ := fieldWellFormed_array.1 hfield
  exact wellFormed_entry.2 ⟨fieldWellFormed_array.2 ⟨hne, fun item hitem => hitems item (hsub item hitem)⟩, hothers⟩

/-! ### A leaf as choices -/

/-- One choice for each alternative, with a leaf that has no other. -/
def asChoices (key : String) (alternatives : List Json) : Json :=
  .array (alternatives.map fun alternative => .object [(key, .array [alternative])])

theorem choiceSatisfies_asChoices (hkey : key ≠ "$or") {alternatives : List Json} :
    ChoiceSatisfies C (asChoices key alternatives) value ↔
      FieldSatisfies C (.array alternatives) (Constraint.member value key) := by
  have hleaf : ∀ alternative, Satisfies C [(key, .array [alternative])] value ↔
      AlternativeHolds C alternative (Constraint.member value key) := by
    intro alternative
    rw [satisfies_cons, if_neg hkey, and_iff_left (satisfies_nil value), fieldSatisfies_array]
    simp
  rw [asChoices, choiceSatisfies_array, fieldSatisfies_array]
  constructor
  · rintro ⟨others, hmem, h⟩
    obtain ⟨alternative, halternative, heq⟩ := List.mem_map.1 hmem
    cases heq
    exact ⟨alternative, halternative, (hleaf alternative).1 h⟩
  · rintro ⟨alternative, halternative, h⟩
    exact ⟨_, List.mem_map_of_mem halternative, (hleaf alternative).2 h⟩

theorem satisfies_asChoices (hkey : key ≠ "$or") {alternatives : List Json}
    (hperm : fields.Perm (("$or", asChoices key alternatives) :: (before ++ after))) (value : Option Json) :
    Satisfies C (before ++ (key, .array alternatives) :: after) value ↔ Satisfies C fields value := by
  have hchoices : EntrySatisfies C ("$or", asChoices key alternatives) value ↔
      EntrySatisfies C (key, .array alternatives) value := by
    unfold EntrySatisfies
    rw [if_pos rfl, if_neg hkey]
    exact choiceSatisfies_asChoices hkey
  have hfields : Satisfies C fields value ↔
      EntrySatisfies C ("$or", asChoices key alternatives) value ∧ Satisfies C (before ++ after) value := by
    simp only [satisfies_iff_forall, hperm.mem_iff, List.forall_mem_cons]
  rw [satisfies_entry, hfields, hchoices]

theorem wellFormed_asChoices (hkey : key ≠ "$or") {alternatives : List Json}
    (hperm : fields.Perm (("$or", asChoices key alternatives) :: (before ++ after)))
    (h : WellFormed (before ++ (key, .array alternatives) :: after)) : WellFormed fields := by
  obtain ⟨hfield, hothers⟩ := wellFormed_entry.1 h
  obtain ⟨hne, hitems⟩ := fieldWellFormed_array.1 hfield
  simp only [if_neg hkey] at hitems
  have hchoices : FieldWellFormed "$or" (asChoices key alternatives) := by
    refine .choices (by simpa using hne) ?_
    intro choice hchoice
    obtain ⟨alternative, halternative, rfl⟩ := List.mem_map.1 hchoice
    have hleaf : FieldWellFormed key (.array [alternative]) :=
      .leaf hkey (List.cons_ne_nil _ _) (by simpa using hitems alternative halternative)
    exact .object (wellFormed_cons.2 ⟨hleaf, wellFormed_nil⟩)
  rw [wellFormed_iff_forall]
  intro field hmem
  rcases List.mem_cons.1 (hperm.mem_iff.1 hmem) with rfl | hmem
  · exact hchoices
  · exact wellFormed_iff_forall.1 hothers field hmem

/-! ### What patterns accept -/

/-- Three objects are patterns, and what the first says of an event is made of what the other two say. -/
def Combines (join : Bool → Bool → Bool) (whole first second : List (String × Json)) : Prop :=
  ∃ p q r, ofJson (.object whole) = .ok p ∧ ofJson (.object first) = .ok q ∧ ofJson (.object second) = .ok r ∧
    ∀ event, p.accepts event = join (q.accepts event) (r.accepts event)

theorem exists_ofJson (h : WellFormed fields) :
    ∃ p, ofJson (.object fields) = .ok p ∧
      ∀ event, p.accepts event = true ↔ Satisfies .rounded fields (some event) := by
  obtain ⟨p, hp⟩ := ofJson_isOk.2 ⟨fields, rfl, h⟩
  exact ⟨p, hp, fun event => accepts_iff_of_fits hp (fits_rounded _ event)⟩

theorem combines_or (hwhole : WellFormed fields) (hleft : WellFormed left) (hright : WellFormed right)
    (h : ∀ value, Satisfies .rounded fields value ↔ Satisfies .rounded left value ∨ Satisfies .rounded right value) :
    Combines or fields left right := by
  obtain ⟨p, hp, hpaccepts⟩ := exists_ofJson hwhole
  obtain ⟨q, hq, hqaccepts⟩ := exists_ofJson hleft
  obtain ⟨r, hr, hraccepts⟩ := exists_ofJson hright
  refine ⟨p, q, r, hp, hq, hr, fun event => ?_⟩
  rw [Bool.eq_iff_iff, Bool.or_eq_true, hpaccepts, hqaccepts, hraccepts, h]

theorem combines_and (hperm : fields.Perm (left ++ right)) (hwhole : WellFormed fields) :
    Combines and fields left right := by
  have hparts : WellFormed left ∧ WellFormed right := by
    simpa only [wellFormed_iff_forall, hperm.mem_iff, List.forall_mem_append] using hwhole
  obtain ⟨p, hp, hpaccepts⟩ := exists_ofJson hwhole
  obtain ⟨q, hq, hqaccepts⟩ := exists_ofJson hparts.1
  obtain ⟨r, hr, hraccepts⟩ := exists_ofJson hparts.2
  refine ⟨p, q, r, hp, hq, hr, fun event => ?_⟩
  rw [Bool.eq_iff_iff, Bool.and_eq_true, hpaccepts, hqaccepts, hraccepts]
  simp only [satisfies_iff_forall, hperm.mem_iff, List.forall_mem_append]

/-- Anywhere in a pattern the alternatives of a leaf, or the choices of an `$or`, can be dealt out to two patterns of
which one has to accept; a leaf can be written as an `$or`, which takes its place among the fields of the object; and
the fields of an object can be dealt out to two patterns that both have to accept. -/
theorem alternatives_distribute :
    (∀ (context : Context) (before after : List (String × Json)) (key : String) (xs ys : List Json),
      xs ≠ [] → ys ≠ [] → WellFormed (context.fill (before ++ (key, .array (xs ++ ys)) :: after)) →
      Combines or (context.fill (before ++ (key, .array (xs ++ ys)) :: after))
        (context.fill (before ++ (key, .array xs) :: after)) (context.fill (before ++ (key, .array ys) :: after))) ∧
    (∀ (context : Context) (before after fields : List (String × Json)) (key : String) (alternatives : List Json),
      key ≠ "$or" → fields.Perm (("$or", asChoices key alternatives) :: (before ++ after)) →
      WellFormed (context.fill (before ++ (key, .array alternatives) :: after)) →
      ∃ p q, ofJson (.object (context.fill (before ++ (key, .array alternatives) :: after))) = .ok p ∧
        ofJson (.object (context.fill fields)) = .ok q ∧ ∀ event, p.accepts event = q.accepts event) ∧
    ∀ fields left right : List (String × Json), fields.Perm (left ++ right) → WellFormed fields →
      Combines and fields left right := by
  refine ⟨?_, ?_, fun fields left right => combines_and⟩
  · intro context before after key xs ys hxs hys h
    have hleft : WellFormed (context.fill (before ++ (key, .array xs) :: after)) :=
      wellFormed_fill context (wellFormed_some hxs fun x hx => List.mem_append_left ys hx) h
    have hright : WellFormed (context.fill (before ++ (key, .array ys) :: after)) :=
      wellFormed_fill context (wellFormed_some hys fun y hy => List.mem_append_right xs hy) h
    exact combines_or h hleft hright (satisfies_fill context fun _ => satisfies_entry_or entrySatisfies_append)
  · intro context before after fields key alternatives hkey hperm h
    obtain ⟨p, hp, hpaccepts⟩ := exists_ofJson h
    obtain ⟨q, hq, hqaccepts⟩ := exists_ofJson (wellFormed_fill context (wellFormed_asChoices hkey hperm) h)
    have hhole : ∀ value, Satisfies .rounded (before ++ (key, .array alternatives) :: after) value ↔
        Satisfies .rounded fields value ∨ Satisfies .rounded fields value := by
      intro value
      rw [or_self]
      exact satisfies_asChoices hkey hperm value
    refine ⟨p, q, hp, hq, fun event => ?_⟩
    rw [Bool.eq_iff_iff, hpaccepts, hqaccepts, satisfies_fill context hhole, or_self]

/-- An admin or an owner, or anyone with a token: the role is a level below a choice.  An admin is let in by the first
half alone, an owner by the second, and a guest by none. -/
theorem alternatives_distribute_role :
    let admin : Json := .string "admin"
    let owner : Json := .object [("prefix", .string "own")]
    let token : Json := .object [("token", .array [.object [("exists", .bool true)]])]
    let path : String × Json := ("path", .array [.object [("prefix", .string "/a")]])
    let context : Context := .choice [] [] (.field [] "user" .hole []) [token] [path]
    let whole := context.fill [("role", .array [admin, owner])]
    let event (role : String) : Json := .object [("path", .string "/ab"), ("user", .object [("role", .string role)])]
    WellFormed whole ∧
      Combines or whole (context.fill [("role", .array [admin])]) (context.fill [("role", .array [owner])]) ∧
      (∃ p q r, ofJson (.object whole) = .ok p ∧ ofJson (.object (context.fill [("role", .array [admin])])) = .ok q ∧
        ofJson (.object (context.fill [("role", .array [owner])])) = .ok r ∧
        [p, q, r].map (·.accepts (event "admin")) = [true, true, false] ∧
        [p, q, r].map (·.accepts (event "owner")) = [true, false, true] ∧
        [p, q, r].map (·.accepts (event "guest")) = [false, false, false]) ∧
      (∃ p q, ofJson (.object whole) = .ok p ∧
        ofJson (.object (context.fill [("$or", asChoices "role" [admin, owner])])) = .ok q ∧
        ∀ event, p.accepts event = q.accepts event) ∧
      Combines and whole [path]
        [("$or", .array [.object [("user", .object [("role", .array [admin, owner])])], token])] := by
  intro admin owner token path context whole event
  have hread : ∃ p, ofJson (.object whole) = .ok p := ⟨_, rfl⟩
  obtain ⟨fields, heq, hwell⟩ := ofJson_isOk.1 hread
  obtain rfl : whole = fields := Json.object.inj heq
  obtain ⟨hor, hchoices, hand⟩ := alternatives_distribute
  refine ⟨hwell, ?_, ⟨_, _, _, rfl, rfl, rfl, by cbv, by cbv, by cbv⟩, ?_, ?_⟩
  · exact hor context [] [] "role" [admin] [owner] (List.cons_ne_nil _ _) (List.cons_ne_nil _ _) hwell
  · exact hchoices context [] [] _ "role" [admin, owner] (by decide) (List.Perm.refl _) hwell
  · exact hand whole [path] _ (List.Perm.swap _ _ _) hwell

end Pattern

end AccessPolicy
