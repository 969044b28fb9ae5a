import AccessPolicy.Pattern.Compile
import AccessPolicy.Proofs.Number.Rounding
import AccessPolicy.Proofs.Pattern.Glob

/-!
# What a pattern means

A pattern is a JSON object, and here it is read as it stands: `OperatorPasses` is the table of the operators, with a
line for each; `AlternativeHolds` says what an array stands for in the event; `Satisfies` goes down into the fields and
the choices.  What an asterisk stands for and how numbers are compared is left to a `Convention`: there is an exact one,
and the rounded one that tests of values follow.
-/

namespace AccessPolicy

/-- What a pattern leaves to its reader. -/
structure Convention where
  /-- The characters an asterisk may stand for. -/
  inRun : Char → Prop
  equal : Number → Number → Prop
  below : Number → Number → Prop

/-- An asterisk stands for anything, and numbers are compared by their values. -/
def Convention.exact : Convention where
  inRun _ := True
  equal m n := m.inUnits = n.inUnits
  below m n := m.inUnits < n.inUnits

/-- An asterisk does not go over the end of a line, and numbers are compared by their doubles, of which those that are
close are equal. -/
def Convention.rounded : Convention where
  inRun c := c ≠ '\n'
  equal m n := m.toDouble.close n.toDouble = true
  below m n := m.toDouble.signed < n.toDouble.signed

variable (C : Convention)

/-! ### Single values -/

/-- A plain value of a pattern is the same as a value. -/
inductive Json.Same : Json → Json → Prop
  | null : Same .null .null
  | bool (b : Bool) : Same (.bool b) (.bool b)
  | string (s : String) : Same (.string s) (.string s)
  | number {m n : Number} : C.equal m n → Same (.number m) (.number n)

/-- What the symbol of a comparison says of a number and the one after the symbol. -/
def Compares (symbol : String) (value bound : Number) : Prop :=
  match symbol with
  | "=" => C.equal value bound
  | "<" => C.below value bound
  | "<=" => ¬C.below bound value
  | ">" => C.below bound value
  | ">=" => ¬C.below value bound
  | _ => False

/-- A number is within bounds, each of which is a symbol and a number after it. -/
inductive Within (n : Number) : List Json → Prop
  | nil : Within n []
  | cons {symbol : String} {bound : Number} {rest : List Json} : Compares C symbol n bound →
    Within n rest → Within n (.string symbol :: .number bound :: rest)

/-- What a value passes, operator by operator. -/
def OperatorPasses (operator : String) (argument value : Json) : Prop :=
  match operator, argument, value with
  | "prefix", .string start, .string text => start.toList <+: text.toList
  | "suffix", .string stop, .string text => stop.toList <:+ text.toList
  | "equals-ignore-case", .string other, .string text => Text.lower text = Text.lower other
  | "wildcard", .string glob, .string text => Glob.Matches C.inRun glob.toList text.toList
  | "anything-but", .array excluded, value => ∀ v ∈ excluded, ¬v.Same C value
  | "anything-but", .object [("prefix", .string start)], .string text => ¬start.toList <+: text.toList
  | "anything-but", .object [("suffix", .string stop)], .string text => ¬stop.toList <:+ text.toList
  | "anything-but", .object _, _ => False
  | "anything-but", excluded, value => ¬excluded.Same C value
  | "numeric", .array bounds, .number n => Within C n bounds
  | "cidr", .string range, .string text => ∃ network address, Network.parse? range = some network ∧
      Address.parse? text = some address ∧ network.contains address = true
  | _, _, _ => False

/-- A value passes an alternative, which is an operator with its argument or a plain value. -/
def Passes (alternative value : Json) : Prop :=
  match alternative with
  | .object [(operator, argument)] => OperatorPasses C operator argument value
  | expected => expected.Same C value

/-! ### Patterns -/

/-- An alternative of a leaf holds of a value, or of a missing one.  Only `exists` can hold of a missing value, and of
an array an alternative holds if an element passes it. -/
def AlternativeHolds (alternative : Json) (value : Option Json) : Prop :=
  match alternative, value with
  | .object [("exists", .bool expected)], value => value.isSome = expected
  | _, none => False
  | alternative, some (.array items) => ∃ item ∈ items, Passes C alternative item
  | alternative, some value => Passes C alternative value

mutual

/-- A value, or a missing one, satisfies the object that has these fields. -/
inductive Satisfies : List (String × Json) → Option Json → Prop
  | intro {fields : List (String × Json)} {value : Option Json} :
    (∀ key pattern, (key, pattern) ∈ fields → key ≠ "$or" →
      FieldSatisfies pattern (Constraint.member value key)) →
    (∀ choices, ("$or", choices) ∈ fields → ChoiceSatisfies choices value) → Satisfies fields value

/-- The value of a field satisfies what the pattern has for it: a leaf, or a pattern of its own.  One element of an
array has to satisfy that pattern whole; a value that has no fields counts as one of which all fields are missing. -/
inductive FieldSatisfies : Json → Option Json → Prop
  | leaf {alternatives : List Json} {alternative : Json} {value : Option Json} : alternative ∈ alternatives →
    AlternativeHolds C alternative value → FieldSatisfies (.array alternatives) value
  | element {fields : List (String × Json)} {item : Json} {items : List Json} : item ∈ items → item.isObject = true →
    Satisfies fields (some item) → FieldSatisfies (.object fields) (some (.array items))
  | object {fields members : List (String × Json)} : Satisfies fields (some (.object members)) →
    FieldSatisfies (.object fields) (some (.object members))
  | missing {fields : List (String × Json)} {value : Option Json} :
    (∀ v ∈ value, v.isArray = false ∧ v.isObject = false) → Satisfies fields none →
    FieldSatisfies (.object fields) value

/-- The value satisfies one of the choices. -/
inductive ChoiceSatisfies : Json → Option Json → Prop
  | choice {choices : List Json} {fields : List (String × Json)} {value : Option Json} : .object fields ∈ choices →
    Satisfies fields value → ChoiceSatisfies (.array choices) value

end

variable {C}

theorem satisfies_nil (value : Option Json) : Satisfies C [] value :=
  .intro (fun _ _ hmem => absurd hmem List.not_mem_nil) (fun _ hmem => absurd hmem List.not_mem_nil)

/-- Field by field. -/
theorem satisfies_cons {key : String} {pattern : Json} {fields : List (String × Json)} {value : Option Json} :
    Satisfies C ((key, pattern) :: fields) value ↔
      (if key = "$or" then ChoiceSatisfies C pattern value
        else FieldSatisfies C pattern (Constraint.member value key)) ∧ Satisfies C fields value := by
  constructor
  · rintro ⟨hfields, hchoices⟩
    refine ⟨?_, .intro (fun k p hmem => hfields k p (List.mem_cons_of_mem _ hmem))
      (fun p hmem => hchoices p (List.mem_cons_of_mem _ hmem))⟩
    split
    · rename_i hkey
      exact hchoices pattern (by simp [hkey])
    · exact hfields key pattern (by simp) ‹_›
  · rintro ⟨hfirst, hfields, hchoices⟩
    refine .intro (fun k p hmem hk => ?_) (fun p hmem => ?_)
    · rcases List.mem_cons.1 hmem with heq | hmem
      · obtain ⟨rfl, rfl⟩ := Prod.mk.inj heq
        rwa [if_neg hk] at hfirst
      · exact hfields k p hmem hk
    · rcases List.mem_cons.1 hmem with heq | hmem
      · obtain ⟨rfl, rfl⟩ := Prod.mk.inj heq
        rwa [if_pos rfl] at hfirst
      · exact hchoices p hmem

/-! ### What is inside a value -/

/-- A value is in another one, at any depth. -/
inductive Json.Inside (value : Json) : Json → Prop
  | refl : Inside value value
  | item {item : Json} {items : List Json} : item ∈ items → Inside value item → Inside value (.array items)
  | field {key : String} {member : Json} {fields : List (String × Json)} : (key, member) ∈ fields →
    Inside value member → Inside value (.object fields)

theorem Json.Inside.trans {a b c : Json} (hab : a.Inside b) (hbc : b.Inside c) : a.Inside c := by
  induction hbc with
  | refl => exact hab
  | item hmem _ ih => exact .item hmem ih
  | field hmem _ ih => exact .field hmem ih

theorem inside_array {value : Json} {items : List Json} :
    value.Inside (.array items) ↔ value = .array items ∨ ∃ item ∈ items, value.Inside item := by
  constructor
  · rintro (_ | ⟨hmem, h⟩)
    · exact .inl rfl
    · exact .inr ⟨_, hmem, h⟩
  · rintro (rfl | ⟨item, hmem, h⟩)
    · exact .refl
    · exact .item hmem h

theorem inside_object {value : Json} {fields : List (String × Json)} :
    value.Inside (.object fields) ↔ value = .object fields ∨ ∃ field ∈ fields, value.Inside field.2 := by
  constructor
  · rintro (_ | _ | ⟨hmem, h⟩)
    · exact .inl rfl
    · exact .inr ⟨_, hmem, h⟩
  · rintro (rfl | ⟨field, hmem, h⟩)
    · exact .refl
    · exact .field hmem h

theorem inside_string {value : Json} {s : String} : value.Inside (.string s) ↔ value = .string s :=
  ⟨fun h => by cases h; rfl, fun h => h ▸ .refl⟩

theorem inside_number {value : Json} {n : Number} : value.Inside (.number n) ↔ value = .number n :=
  ⟨fun h => by cases h; rfl, fun h => h ▸ .refl⟩

theorem inside_bool {value : Json} {b : Bool} : value.Inside (.bool b) ↔ value = .bool b :=
  ⟨fun h => by cases h; rfl, fun h => h ▸ .refl⟩

/-- No text of the value goes over the end of a line. -/
def Json.OneLine (value : Json) : Prop := ∀ text, (Json.string text).Inside value → '\n' ∉ text.toList

/-- Doubles tell the numbers of a pattern from those of an event. -/
def ToldApart (pattern event : Json) : Prop :=
  ∀ m n, (Json.number m).Inside pattern → (Json.number n).Inside event → m.IsDouble ∧ n.IsDouble ∧ m.Apart n

end AccessPolicy
