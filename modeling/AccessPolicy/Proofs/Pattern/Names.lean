import Mathlib
import AccessPolicy.Registry

/-!
# Patterns look at the fields they name

A pattern names fields, and in some of these further fields; what it names at one level is what its constraints and all
the alternatives of an `$or` name there (`Constraint.names`).  Two events agree on names when they have the same values
under them, up to fields that are not named (`AgreeOn`); one of them can be what is left of the other when all that is
not named is taken out (`Json.restrict`).  On such events a pattern says the same, and the answers of a registry are the
same if this is so for all patterns on the route (`named_fields_decide`).
-/

namespace AccessPolicy

/-! ### What a pattern names -/

/-- What is named under the name of a field: its whole value, or fields of it. -/
inductive Named
  | whole
  | fields (names : List (String × Named))

namespace Constraint

mutual

/-- The fields that the constraint names at its level. -/
def names : Constraint → List (String × Named)
  | leaf key _ => [(key, .whole)]
  | nested key constraints => [(key, .fields (allNames constraints))]
  | anyOf choices => choiceNames choices

def allNames : List Constraint → List (String × Named)
  | [] => []
  | c :: cs => c.names ++ allNames cs

def choiceNames : List (List Constraint) → List (String × Named)
  | [] => []
  | choice :: choices => allNames choice ++ choiceNames choices

end

end Constraint

def Pattern.names (p : Pattern) : List (String × Named) := Constraint.allNames p.constraints

/-! ### Events that agree -/

/-- The values are the same, but for the fields of an object, or of the objects in an array. -/
inductive Alike (sameFields : Option Json → Option Json → Prop) : Option Json → Option Json → Prop
  | refl (value : Option Json) : Alike sameFields value value
  | object {fields fields' : List (String × Json)} :
    sameFields (some (.object fields)) (some (.object fields')) →
    Alike sameFields (some (.object fields)) (some (.object fields'))
  | array {items items' : List Json} :
    List.Forall₂ (fun item item' => item = item' ∨
      item.isObject = true ∧ item'.isObject = true ∧ sameFields (some item) (some item')) items items' →
    Alike sameFields (some (.array items)) (some (.array items'))

mutual

/-- The values under a name agree on what is named there. -/
def Named.Agrees : Named → Option Json → Option Json → Prop
  | .whole, value, value' => value = value'
  | .fields names, value, value' => Alike (AgreeOn names) value value'

/-- The events agree on what is named; all other fields may differ, or be missing in one of them. -/
def AgreeOn : List (String × Named) → Option Json → Option Json → Prop
  | [], _, _ => True
  | (key, named) :: names, event, event' =>
    named.Agrees (Constraint.member event key) (Constraint.member event' key) ∧ AgreeOn names event event'

end

theorem agreeOn_iff {names : List (String × Named)} {event event' : Option Json} :
    AgreeOn names event event' ↔
      ∀ x ∈ names, x.2.Agrees (Constraint.member event x.1) (Constraint.member event' x.1) := by
  induction names with
  | nil => simp [AgreeOn]
  | cons x names ih =>
    obtain ⟨key, named⟩ := x
    simp [AgreeOn, ih]

theorem agreeOn_append {names more : List (String × Named)} {event event' : Option Json} :
    AgreeOn (names ++ more) event event' ↔ AgreeOn names event event' ∧ AgreeOn more event event' := by
  simp only [agreeOn_iff, List.mem_append, or_imp, forall_and]

/-! ### An event without the rest -/

/-- All that is named under the name of a field. -/
def namedUnder (key : String) (names : List (String × Named)) : List Named :=
  (names.filter (·.1 = key)).map Prod.snd

/-- The fields that are named in a value. -/
def Named.inner : Named → List (String × Named)
  | whole => []
  | fields names => names

def Named.isWhole : Named → Bool
  | whole => true
  | fields _ => false

namespace Json

mutual

/-- The value with all that is named in it, and without the other fields. -/
def restrict (named : List Named) : Json → Json
  | object fields => object (if named.any (·.isWhole) then fields else restrictFields (named.flatMap (·.inner)) fields)
  | array items => array (if named.any (·.isWhole) then items else restrictItems (named.flatMap (·.inner)) items)
  | value => value

def restrictFields (names : List (String × Named)) : List (String × Json) → List (String × Json)
  | [] => []
  | (key, value) :: fields =>
    if namedUnder key names = [] then restrictFields names fields
    else (key, restrict (namedUnder key names) value) :: restrictFields names fields

/-- The objects in an array are restricted, and the rest of it stays. -/
def restrictItems (names : List (String × Named)) : List Json → List Json
  | [] => []
  | .object fields :: items => .object (restrictFields names fields) :: restrictItems names items
  | item :: items => item :: restrictItems names items

end

end Json

theorem mem_namedUnder {key : String} {names : List (String × Named)} {named : Named} :
    named ∈ namedUnder key names ↔ (key, named) ∈ names := by
  simp [namedUnder]

theorem Named.agrees_refl (named : Named) (value : Option Json) : named.Agrees value value := by
  cases named with
  | whole => rfl
  | fields names => exact .refl value

theorem AgreeOn.of_alike {names : List (String × Named)} {event event' : Option Json}
    (h : Alike (AgreeOn names) event event') : AgreeOn names event event' := by
  cases h with
  | refl => exact agreeOn_iff.2 fun x _ => x.2.agrees_refl _
  | object hfields => exact hfields
  | array _ => exact agreeOn_iff.2 fun x _ => x.2.agrees_refl none

theorem restrict_of_whole {under : List Named} (h : .whole ∈ under) (value : Json) : value.restrict under = value := by
  have hwhole : under.any (·.isWhole) = true := List.any_eq_true.2 ⟨.whole, h, rfl⟩
  cases value with
  | object fields => rw [Json.restrict, if_pos hwhole]
  | array items => rw [Json.restrict, if_pos hwhole]
  | _ => rfl

-- The induction is on the value; what is named changes from level to level.
mutual

/-- A value agrees with what is left of it. -/
theorem agrees_restrict (value : Json) {under : List Named} {named : Named} (hnamed : named ∈ under) :
    named.Agrees (some value) (some (value.restrict under)) := by
  cases named with
  | whole =>
    rw [restrict_of_whole hnamed]
    rfl
  | fields names =>
    have hinner : ∀ x ∈ names, x ∈ under.flatMap (·.inner) := fun x hx => List.mem_flatMap.2 ⟨_, hnamed, hx⟩
    match value with
    | .object fields =>
      rw [Json.restrict]
      split
      · exact .refl _
      · exact .object (agreeOn_iff.2 fun x hx => agrees_restrictFields fields (hinner x hx))
    | .array items =>
      rw [Json.restrict]
      split
      · exact .refl _
      · exact .array (alike_restrictItems items hinner)
    | .null | .bool _ | .number _ | .string _ => exact .refl _

theorem agrees_restrictFields (fields : List (String × Json)) {names : List (String × Named)} {x : String × Named}
    (hx : x ∈ names) : x.2.Agrees (fields.lookup x.1) ((Json.restrictFields names fields).lookup x.1) :=
  match fields with
  | [] => x.2.agrees_refl none
  | (key, value) :: fields => by
    have hnamed : x.2 ∈ namedUnder x.1 names := mem_namedUnder.2 hx
    rw [Json.restrictFields]
    by_cases hkey : x.1 = key
    · subst hkey
      rw [if_neg (List.ne_nil_of_mem hnamed), List.lookup_cons_self, List.lookup_cons_self]
      exact agrees_restrict value hnamed
    · have hother : ∀ (v : Json) vs, List.lookup x.1 ((key, v) :: vs) = List.lookup x.1 vs := fun v vs => by
        rw [List.lookup_cons, beq_false_of_ne hkey]
      rw [hother]
      split
      · exact agrees_restrictFields fields hx
      · rw [hother]
        exact agrees_restrictFields fields hx

theorem alike_restrictItems (items : List Json) {names more : List (String × Named)} (hnames : ∀ x ∈ names, x ∈ more) :
    List.Forall₂ (fun item item' => item = item' ∨
      item.isObject = true ∧ item'.isObject = true ∧ AgreeOn names (some item) (some item')) items
      (Json.restrictItems more items) :=
  match items with
  | [] => .nil
  | .object fields :: items =>
    have hfields : AgreeOn names (some (.object fields)) (some (.object (Json.restrictFields more fields))) :=
      agreeOn_iff.2 fun x hx => agrees_restrictFields fields (hnames x hx)
    .cons (.inr ⟨rfl, rfl, hfields⟩) (alike_restrictItems items hnames)
  | .null :: items | .bool _ :: items | .number _ :: items | .string _ :: items | .array _ :: items =>
    .cons (.inl rfl) (alike_restrictItems items hnames)

end

/-! ### Patterns say the same -/

/-- A pattern of its own looks at the value of its field, at its fields or at the objects in it. -/
theorem holds_nested_congr {key : String} {cs : List Constraint} {sameFields : Option Json → Option Json → Prop}
    (h : ∀ value value', sameFields value value' → Constraint.allHold cs value = Constraint.allHold cs value')
    {event event' : Option Json}
    (halike : Alike sameFields (Constraint.member event key) (Constraint.member event' key)) :
    (Constraint.nested key cs).holds event = (Constraint.nested key cs).holds event' := by
  rw [Constraint.holds, Constraint.holds]
  generalize Constraint.member event key = value at halike
  generalize Constraint.member event' key = value' at halike
  cases halike with
  | refl => rfl
  | object hfields => exact h _ _ hfields
  | array hitems =>
    show List.any _ _ = List.any _ _
    induction hitems with
    | nil => rfl
    | cons hitem _ ih =>
      rw [List.any_cons, List.any_cons, ih]
      rcases hitem with rfl | ⟨hobject, hobject', hfields⟩
      · rfl
      · rw [hobject, hobject', h _ _ hfields]

-- The induction is on the pattern; the events change from level to level.
mutual

theorem allHold_congr (cs : List Constraint) {event event' : Option Json}
    (h : AgreeOn (Constraint.allNames cs) event event') :
    Constraint.allHold cs event = Constraint.allHold cs event' :=
  match cs with
  | [] => rfl
  | c :: cs => by
    rw [Constraint.allNames, agreeOn_append] at h
    rw [Constraint.allHold, Constraint.allHold, holds_congr c h.1, allHold_congr cs h.2]

theorem holds_congr (c : Constraint) {event event' : Option Json} (h : AgreeOn c.names event event') :
    c.holds event = c.holds event' :=
  match c with
  | .leaf key alternatives => by
    have hvalue : Constraint.member event key = Constraint.member event' key := h.1
    rw [Constraint.holds, Constraint.holds, hvalue]
  | .nested key constraints => by
    have halike : Alike (AgreeOn (Constraint.allNames constraints)) (Constraint.member event key)
      (Constraint.member event' key) := h.1
    exact holds_nested_congr (fun _ _ => allHold_congr constraints) halike
  | .anyOf choices => by
    rw [Constraint.holds, Constraint.holds]
    exact anyHolds_congr choices h

theorem anyHolds_congr (choices : List (List Constraint)) {event event' : Option Json}
    (h : AgreeOn (Constraint.choiceNames choices) event event') :
    Constraint.anyHolds choices event = Constraint.anyHolds choices event' :=
  match choices with
  | [] => rfl
  | choice :: choices => by
    rw [Constraint.choiceNames, agreeOn_append] at h
    rw [Constraint.anyHolds, Constraint.anyHolds, allHold_congr choice h.1, anyHolds_congr choices h.2]

end

/-- A pattern sees an event as if there were nothing in it but what the pattern names. -/
theorem Pattern.accepts_restrict (p : Pattern) (event : Json) :
    p.accepts (event.restrict [.fields p.names]) = p.accepts event := by
  have hagrees : (Named.fields p.names).Agrees (some event) (some (event.restrict [.fields p.names])) :=
    agrees_restrict event List.mem_cons_self
  exact (allHold_congr p.constraints (.of_alike hagrees)).symm

theorem Registry.matching_congr {registry : Registry} {route : String} {event event' : Json}
    (h : ∀ index ∈ registry.index? route, ∀ entry ∈ index.entries,
      AgreeOn entry.pattern.names (some event) (some event')) :
    registry.matching route event = registry.matching route event' := by
  rw [matching, matching]
  cases hindex : registry.index? route with
  | none => rfl
  | some index =>
    have hfilter : index.entries.filter (·.pattern.accepts event) = index.entries.filter (·.pattern.accepts event') :=
      List.filter_congr fun entry hentry => allHold_congr entry.pattern.constraints (h index hindex entry hentry)
    rw [Option.map_some, Option.map_some, Index.matching, Index.matching, hfilter]

/-- The fields that a pattern names decide whether it accepts an event, so all others can be left out.  And an answer
depends on what the patterns on its route name, and on nothing else in the event. -/
theorem named_fields_decide :
    (∀ (p : Pattern) (event event' : Json), AgreeOn p.names (some event) (some event') →
      p.accepts event = p.accepts event') ∧
    (∀ (p : Pattern) (event : Json), p.accepts (event.restrict [.fields p.names]) = p.accepts event) ∧
    ∀ (registry : Registry) (route : String) (event event' : Json),
      (∀ index ∈ registry.index? route, ∀ entry ∈ index.entries,
        AgreeOn entry.pattern.names (some event) (some event')) →
      registry.answerEvent route event = registry.answerEvent route event' := by
  refine ⟨fun p event event' h => allHold_congr p.constraints h, Pattern.accepts_restrict,
    fun registry route event event' h => ?_⟩
  rw [Registry.answerEvent, Registry.answerEvent, Registry.matching_congr h]

set_option maxRecDepth 4000 in
/-- A user that is an admin, and one with an id or a token besides: the time and the names of users do not count. -/
theorem named_fields_decide_admin :
    let p : Pattern := ⟨[.nested "user" [.leaf "role" [.passes (.equals (.string "admin"))]],
      .anyOf [[.nested "user" [.leaf "id" [.present true]]], [.leaf "token" [.present true]]]]⟩
    let registry : Registry := { routes := [("/", ⟨[⟨"admins", p, { effects := { allowed := ["write"] } }⟩]⟩)] }
    let event : Json := .object [("time", .null), ("user",
      .array [.object [("id", .null), ("name", .string "ann"), ("role", .string "admin")], .string "guest"])]
    let event' : Json := .object [("user",
      .array [.object [("id", .null), ("role", .string "admin")], .string "guest"])]
    AgreeOn p.names (some event) (some event') ∧ p.accepts event = p.accepts event' ∧ p.accepts event = true ∧
      registry.answerEvent "/" event = registry.answerEvent "/" event' ∧
      (registry.answerEvent "/" event).verdict.rights = ["write"] := by
  intro p registry event event'
  have hrole : AgreeOn [("role", .whole)]
      (some (.object [("id", .null), ("name", .string "ann"), ("role", .string "admin")]))
      (some (.object [("id", .null), ("role", .string "admin")])) := ⟨rfl, trivial⟩
  have hid : AgreeOn [("id", .whole)]
      (some (.object [("id", .null), ("name", .string "ann"), ("role", .string "admin")]))
      (some (.object [("id", .null), ("role", .string "admin")])) := ⟨rfl, trivial⟩
  have hagree : AgreeOn p.names (some event) (some event') :=
    ⟨.array (.cons (.inr ⟨rfl, rfl, hrole⟩) (.cons (.inl rfl) .nil)),
      .array (.cons (.inr ⟨rfl, rfl, hid⟩) (.cons (.inl rfl) .nil)), rfl, trivial⟩
  refine ⟨hagree, named_fields_decide.1 p event event' hagree, by cbv,
    named_fields_decide.2.2 registry "/" event event' fun index hindex entry hentry => ?_, by cbv⟩
  obtain rfl := Option.some.inj hindex
  obtain rfl := List.mem_singleton.1 hentry
  exact hagree

end AccessPolicy
