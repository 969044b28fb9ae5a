import AccessPolicy.Pattern.Compile
import AccessPolicy.Proofs.Except
import AccessPolicy.Proofs.Json.Canonical
import AccessPolicy.Proofs.Text.ByteOrder

/-!
# The grammar of patterns

Which JSON objects are patterns (`WellFormed`), and what is wrong with those that are not.  The faults of an object are
met in a fixed order: its fields by the bytes of their names, the items of an array from left to right, and what is
inside a value before what follows it (`FirstFault`).  Where the fields stand in ascending order, this is the order in
which they stand (`firstFault_cons`).  A wildcard is a fault only if the engine refuses the expression of its glob.
-/

namespace AccessPolicy.Pattern

/-! ### Alternatives -/

/-- Comparisons with numbers after them, one or two. -/
inductive Bounds : List Json → Prop
  | one {symbol : String} {bound : Number} : symbol ∈ ["=", "<", "<=", ">", ">="] →
    Bounds [.string symbol, .number bound]
  | two {symbol symbol' : String} {bound bound' : Number} : symbol ∈ ["=", "<", "<=", ">", ">="] →
    symbol' ∈ ["=", "<", "<=", ">", ">="] →
    Bounds [.string symbol, .number bound, .string symbol', .number bound']

/-- What may be excluded. -/
inductive Exclusion : Json → Prop
  | value {v : Json} : v.Plain → Exclusion v
  | list {values : List Json} : (∀ v ∈ values, v.Plain) → Exclusion (.array values)
  | start (s : String) : Exclusion (.object [("prefix", .string s)])
  | stop (s : String) : Exclusion (.object [("suffix", .string s)])

variable [Regex.Engine]

/-- An operator with an argument that it can have. -/
inductive IsOperator : String → Json → Prop
  | text {operator : String} (s : String) : operator ∈ ["prefix", "suffix", "equals-ignore-case"] →
    IsOperator operator (.string s)
  | glob {s : String} : Regex.Engine.refusal? (Glob.source s) = none → IsOperator "wildcard" (.string s)
  | presence (b : Bool) : IsOperator "exists" (.bool b)
  | range {s : String} : (Network.parse? s).isSome = true → IsOperator "cidr" (.string s)
  | comparison {items : List Json} : Bounds items → IsOperator "numeric" (.array items)
  | exclusion {argument : Json} : Exclusion argument → IsOperator "anything-but" argument

inductive IsAlternative : Json → Prop
  | value {v : Json} : v.Plain → IsAlternative v
  | operator {operator : String} {argument : Json} : IsOperator operator argument →
    IsAlternative (.object [(operator, argument)])

/-- What is wrong with an operator or its argument. -/
inductive OperatorMisused : String → Json → OperatorFault → Prop
  | text {operator : String} {argument : Json} :
    operator ∈ ["prefix", "suffix", "equals-ignore-case", "wildcard", "cidr"] → (∀ s, argument ≠ .string s) →
    OperatorMisused operator argument (.needsText operator)
  | glob {s reason : String} : Regex.Engine.refusal? (Glob.source s) = some reason →
    OperatorMisused "wildcard" (.string s) (.wildcard s reason)
  | presence {argument : Json} : (∀ b, argument ≠ .bool b) → OperatorMisused "exists" argument .needsTruth
  | range {s : String} : Network.parse? s = none → OperatorMisused "cidr" (.string s) (.network s)
  | comparison {argument : Json} : (∀ items, argument = .array items → ¬Bounds items) →
    OperatorMisused "numeric" argument .numericForm
  | exclusionList {values : List Json} : ¬Exclusion (.array values) →
    OperatorMisused "anything-but" (.array values) .exclusionList
  | exclusionObject {fields : List (String × Json)} : ¬Exclusion (.object fields) →
    OperatorMisused "anything-but" (.object fields) .exclusionObject
  | unknown {operator : String} {argument : Json} :
    operator ∉ ["prefix", "suffix", "equals-ignore-case", "wildcard", "exists", "cidr", "numeric", "anything-but"] →
    OperatorMisused operator argument (.unknown operator)

/-- What is wrong with an element of a leaf. -/
inductive AlternativeFault : Json → OperatorFault → Prop
  | nestedArray (items : List Json) : AlternativeFault (.array items) .nestedArray
  | notOneKey {fields : List (String × Json)} : fields.length ≠ 1 → AlternativeFault (.object fields) .notOneKey
  | misused {operator : String} {argument : Json} {fault : OperatorFault} :
    OperatorMisused operator argument fault → AlternativeFault (.object [(operator, argument)]) fault

/-! ### Objects -/

mutual

/-- The object that has these fields is a pattern. -/
inductive WellFormed : List (String × Json) → Prop
  | intro {fields : List (String × Json)} : (∀ key value, (key, value) ∈ fields → FieldWellFormed key value) →
    WellFormed fields

/-- A field holds a pattern of its own, or alternatives, or, under the name `$or`, choices. -/
inductive FieldWellFormed : String → Json → Prop
  | nested {key : String} {fields : List (String × Json)} : key ≠ "$or" → WellFormed fields →
    FieldWellFormed key (.object fields)
  | leaf {key : String} {items : List Json} : key ≠ "$or" → items ≠ [] → (∀ item ∈ items, IsAlternative item) →
    FieldWellFormed key (.array items)
  | choices {items : List Json} : items ≠ [] → (∀ item ∈ items, ChoiceWellFormed item) →
    FieldWellFormed "$or" (.array items)

inductive ChoiceWellFormed : Json → Prop
  | object {fields : List (String × Json)} : WellFormed fields → ChoiceWellFormed (.object fields)

end

/-- The names that lead to a field, with points between them.  Empty names at the front leave no trace. -/
def dotted (keys : List String) : String := ".".intercalate (keys.dropWhile (· = ""))

mutual

/-- The fault of an object that some names lead to is that of a field, when all fields whose names have smaller bytes
are without fault. -/
inductive FirstFault : List String → List (String × Json) → PatternError → Prop
  | intro {keys : List String} {fields : List (String × Json)} {key : String} {value : Json} {e : PatternError} :
    (key, value) ∈ fields → (∀ k v, (k, v) ∈ fields → Text.bytes k < Text.bytes key → FieldWellFormed k v) →
    FieldFault keys key value e → FirstFault keys fields e

/-- What is wrong with a field of an object that some names lead to. -/
inductive FieldFault : List String → String → Json → PatternError → Prop
  | form {keys : List String} {key : String} {value : Json} : key ≠ "$or" → value.Plain →
    FieldFault keys key value (.leafForm (dotted (keys ++ [key])))
  | empty {keys : List String} {key : String} : key ≠ "$or" →
    FieldFault keys key (.array []) (.emptyLeaf (dotted (keys ++ [key])))
  | alternative {keys : List String} {key : String} {earlier later : List Json} {item : Json} {fault : OperatorFault} :
    key ≠ "$or" → (∀ a ∈ earlier, IsAlternative a) → AlternativeFault item fault →
    FieldFault keys key (.array (earlier ++ item :: later)) (.operator (dotted (keys ++ [key])) fault)
  | nested {keys : List String} {key : String} {fields : List (String × Json)} {e : PatternError} : key ≠ "$or" →
    FirstFault (keys ++ [key]) fields e → FieldFault keys key (.object fields) e
  | choices {keys : List String} {value : Json} : (∀ items, value = .array items → items = []) →
    FieldFault keys "$or" value (.choices (dotted keys))
  | choice {keys : List String} {earlier later : List Json} {item : Json} {e : PatternError} :
    (∀ c ∈ earlier, ChoiceWellFormed c) → ChoiceFault keys item e →
    FieldFault keys "$or" (.array (earlier ++ item :: later)) e

/-- A choice that is no object counts against all the choices. -/
inductive ChoiceFault : List String → Json → PatternError → Prop
  | form {keys : List String} {item : Json} : item.isObject = false → ChoiceFault keys item (.choices (dotted keys))
  | object {keys : List String} {fields : List (String × Json)} {e : PatternError} : FirstFault keys fields e →
    ChoiceFault keys (.object fields) e

end

/-! ### Shape by shape -/

theorem wellFormed_nil : WellFormed [] := .intro (by simp)

theorem wellFormed_cons {key : String} {value : Json} {fields : List (String × Json)} :
    WellFormed ((key, value) :: fields) ↔ FieldWellFormed key value ∧ WellFormed fields := by
  constructor
  · rintro ⟨h⟩
    exact ⟨h key value List.mem_cons_self, .intro fun k v hmem => h k v (List.mem_cons_of_mem _ hmem)⟩
  · rintro ⟨hfield, ⟨hfields⟩⟩
    refine .intro fun k v hmem => ?_
    rcases List.mem_cons.1 hmem with heq | hmem
    · cases heq
      exact hfield
    · exact hfields k v hmem

theorem firstFault_nil {keys : List String} {e : PatternError} : ¬FirstFault keys [] e := by
  rintro ⟨hmem, -, -⟩
  cases hmem

/-- Where the fields stand in ascending order, the smallest of them is the first. -/
theorem firstFault_cons {keys : List String} {key : String} {value : Json} {fields : List (String × Json)}
    {e : PatternError} (hsorted : (((key, value) :: fields).map Prod.fst).Pairwise (· < ·)) :
    FirstFault keys ((key, value) :: fields) e ↔
      FieldFault keys key value e ∨ FieldWellFormed key value ∧ FirstFault keys fields e := by
  have hleast : ∀ k v, (k, v) ∈ fields → key < k := by
    intro k v hmem
    exact (List.pairwise_cons.1 hsorted).1 k (List.mem_map_of_mem hmem)
  constructor
  · rintro ⟨hmem, hbefore, hfault⟩
    rcases List.mem_cons.1 hmem with heq | hmem
    · cases heq
      exact .inl hfault
    · refine .inr ⟨hbefore _ _ List.mem_cons_self (Text.lt_iff_bytes_lt.1 (hleast _ _ hmem)), .intro hmem ?_ hfault⟩
      intro k v hk hlt
      exact hbefore k v (List.mem_cons_of_mem _ hk) hlt
  · rintro (hfault | ⟨hfield, ⟨hmem, hbefore, hfault⟩⟩)
    · refine .intro List.mem_cons_self (fun k v hk hlt => ?_) hfault
      have hlt := Text.lt_iff_bytes_lt.2 hlt
      rcases List.mem_cons.1 hk with heq | hk
      · cases heq
        exact absurd hlt (lt_irrefl _)
      · exact absurd hlt (lt_asymm (hleast k v hk))
    · refine .intro (List.mem_cons_of_mem _ hmem) (fun k v hk hlt => ?_) hfault
      rcases List.mem_cons.1 hk with heq | hk
      · cases heq
        exact hfield
      · exact hbefore k v hk hlt

variable {keys : List String} {key : String} {fields : List (String × Json)} {items : List Json} {e : PatternError}

theorem fieldWellFormed_object : FieldWellFormed key (.object fields) ↔ key ≠ "$or" ∧ WellFormed fields := by
  constructor
  · intro h
    cases h with
    | nested hkey hfields => exact ⟨hkey, hfields⟩
  · rintro ⟨hkey, hfields⟩
    exact .nested hkey hfields

theorem fieldWellFormed_array : FieldWellFormed key (.array items) ↔
    items ≠ [] ∧ ∀ item ∈ items, if key = "$or" then ChoiceWellFormed item else IsAlternative item := by
  constructor
  · intro h
    cases h with
    | leaf hkey hne hitems => exact ⟨hne, by simpa [hkey] using hitems⟩
    | choices hne hitems => exact ⟨hne, by simpa using hitems⟩
  · rintro ⟨hne, hitems⟩
    by_cases hkey : key = "$or"
    · subst hkey
      exact .choices hne (by simpa using hitems)
    · exact .leaf hkey hne (by simpa [hkey] using hitems)

theorem choiceWellFormed_object : ChoiceWellFormed (.object fields) ↔ WellFormed fields := by
  constructor
  · rintro ⟨h⟩
    exact h
  · exact .object

theorem fieldFault_object (hkey : key ≠ "$or") :
    FieldFault keys key (.object fields) e ↔ FirstFault (keys ++ [key]) fields e := by
  constructor
  · intro h
    cases h with
    | form _ hplain => cases hplain
    | nested _ h => exact h
    | choices _ => exact absurd rfl hkey
  · exact .nested hkey

theorem fieldFault_array (hkey : key ≠ "$or") (hne : items ≠ []) : FieldFault keys key (.array items) e ↔
    First IsAlternative
      (fun item => ∃ fault, AlternativeFault item fault ∧ .operator (dotted (keys ++ [key])) fault = e) items := by
  constructor
  · intro h
    cases h with
    | form _ hplain => cases hplain
    | empty _ => exact absurd rfl hne
    | alternative _ hearlier hitem => exact ⟨_, _, _, rfl, hearlier, _, hitem, rfl⟩
    | choices _ => exact absurd rfl hkey
    | choice _ _ => exact absurd rfl hkey
  · rintro ⟨earlier, item, later, rfl, hearlier, fault, hitem, rfl⟩
    exact .alternative hkey hearlier hitem

theorem fieldFault_choices (hne : items ≠ []) :
    FieldFault keys "$or" (.array items) e ↔ First ChoiceWellFormed (ChoiceFault keys · e) items := by
  constructor
  · intro h
    cases h with
    | form hkey _ => exact absurd rfl hkey
    | empty hkey => exact absurd rfl hkey
    | alternative hkey _ _ => exact absurd rfl hkey
    | choices hitems => exact absurd (hitems items rfl) hne
    | choice hearlier hitem => exact ⟨_, _, _, rfl, hearlier, hitem⟩
  · rintro ⟨earlier, item, later, rfl, hearlier, hitem⟩
    exact .choice hearlier hitem

theorem choiceFault_object : ChoiceFault keys (.object fields) e ↔ FirstFault keys fields e := by
  constructor
  · intro h
    cases h with
    | form hform => cases hform
    | object h => exact h
  · exact .object

theorem fieldFault_plain {value : Json} (hplain : value.Plain) : FieldFault keys key value e ↔
    (if key = "$or" then .choices (dotted keys) else .leafForm (dotted (keys ++ [key]))) = e := by
  constructor
  · intro h
    cases h with
    | form hkey _ => exact if_neg hkey
    | choices _ => exact if_pos rfl
    | _ => cases hplain
  · rintro rfl
    split
    · rename_i hkey
      subst hkey
      exact .choices fun items heq => by cases heq ▸ hplain
    · rename_i hkey
      exact .form hkey hplain

theorem fieldFault_empty : FieldFault keys key (.array []) e ↔
    (if key = "$or" then .choices (dotted keys) else .emptyLeaf (dotted (keys ++ [key]))) = e := by
  constructor
  · generalize hvalue : Json.array [] = value
    intro h
    cases h with
    | empty hkey => exact if_neg hkey
    | choices _ => exact if_pos rfl
    | form _ hplain => cases hvalue ▸ hplain
    | _ => simp at hvalue
  · rintro rfl
    split
    · rename_i hkey
      subst hkey
      exact .choices fun items heq => by cases heq; rfl
    · rename_i hkey
      exact .empty hkey

theorem fieldFault_choices_object : FieldFault keys "$or" (.object fields) e ↔ .choices (dotted keys) = e := by
  constructor
  · intro h
    cases h with
    | form hkey _ => exact absurd rfl hkey
    | nested hkey _ => exact absurd rfl hkey
    | choices _ => rfl
  · rintro rfl
    exact .choices nofun

theorem choiceFault_form {item : Json} (hform : item.isObject = false) :
    ChoiceFault keys item e ↔ .choices (dotted keys) = e := by
  constructor
  · intro h
    cases h with
    | form _ => rfl
    | object _ => cases hform
  · rintro rfl
    exact .form hform

theorem not_choiceWellFormed {item : Json} (hform : item.isObject = false) : ¬ChoiceWellFormed item := by
  rintro ⟨-⟩
  cases hform

theorem not_fieldWellFormed {value : Json} (hplain : value.Plain) : ¬FieldWellFormed key value := by
  intro h
  cases h <;> cases hplain

end AccessPolicy.Pattern
