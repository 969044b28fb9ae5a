import AccessPolicy.Proofs.Pattern.Glob
import AccessPolicy.Proofs.Pattern.Grammar

/-!
# Which values are read as patterns

Reading goes through exactly for the values of the grammar, and otherwise gives the fault that the grammar meets first.
Both are settled for the alternatives of a leaf (`alternative_isOk`, `alternative_eq_error`) and from there for
objects, fields and choices together (`ofFields_isOk`, `ofFields_eq_error`).  For a value `ofJson_recognizes` has both;
`parse_eq_error` has the errors of a text.
-/

namespace AccessPolicy.Pattern

/-! ### The path to a field -/

theorem join_dotted (keys : List String) (key : String) : join (dotted keys) key = dotted (keys ++ [key]) := by
  unfold dotted
  rw [List.dropWhile_append]
  cases hnamed : keys.dropWhile (· = "") with
  | nil =>
    by_cases hkey : key = ""
    · subst hkey
      decide
    · simp [join, hkey, List.dropWhile]
  | cons k rest =>
    have hk : k ≠ "" := by
      intro hk
      have hhead := List.head_dropWhile_not (fun s : String => decide (s = "")) (l := keys) (by simp [hnamed])
      simp [hnamed, hk] at hhead
    have hpath : ".".intercalate (k :: rest) ≠ "" := by
      intro hempty
      cases rest with
      | nil => exact hk (by rwa [String.intercalate_singleton] at hempty)
      | cons l rest =>
        rw [String.intercalate_cons_cons, String.append_assoc, String.append_eq_empty_iff] at hempty
        exact hk hempty.1
    rw [join, if_neg hpath, List.isEmpty_cons, if_neg Bool.false_ne_true,
      String.intercalate_append_of_ne_nil (List.cons_ne_nil _ _) (List.cons_ne_nil _ _), String.intercalate_singleton]

/-! ### Alternatives -/

/-- The comparisons have one symbol each. -/
theorem ofSymbol?_isSome {symbol : String} :
    (Comparison.ofSymbol? symbol).isSome = true ↔ symbol ∈ ["=", "<", "<=", ">", ">="] := by
  unfold Comparison.ofSymbol?
  split <;> simp_all

theorem bound?_isSome {symbol bound : Json} :
    (bound? symbol bound).isSome = true ↔
      ∃ s n, symbol = .string s ∧ bound = .number n ∧ s ∈ ["=", "<", "<=", ">", ">="] := by
  cases symbol with
  | string s =>
    cases bound with
    | number n =>
      have hsome : (bound? (.string s) (.number n)).isSome = (Comparison.ofSymbol? s).isSome := by
        unfold bound?
        cases hs : Comparison.ofSymbol? s <;> simp [Json.asString?, Json.asNumber?, hs]
      rw [hsome, ofSymbol?_isSome]
      simp
    | _ => simp [bound?, Json.asString?, Json.asNumber?]
  | _ => simp [bound?, Json.asString?]

variable {β : Type} {operator : String} {argument : Json} {fault : OperatorFault}

theorem textArgument_bind_eq_ok {f : String → Except OperatorFault β} {b : β} :
    textArgument operator argument >>= f = .ok b ↔ ∃ s, argument = .string s ∧ f s = .ok b := by
  rw [bind_eq_ok]
  cases argument <;> simp [textArgument]

theorem textArgument_bind_eq_error {f : String → Except OperatorFault β} :
    textArgument operator argument >>= f = .error fault ↔
      (∀ s, argument ≠ .string s) ∧ fault = .needsText operator ∨ ∃ s, argument = .string s ∧ f s = .error fault := by
  rw [bind_eq_error]
  cases argument <;> simp [textArgument, eq_comm]

theorem numericTest_isOk :
    (∃ test, numericTest argument = .ok test) ↔ ∃ items, argument = .array items ∧ Bounds items := by
  constructor
  · rintro ⟨test, h⟩
    unfold numericTest at h
    split at h
    · rename_i symbol bound
      split at h
      · rename_i b hb
        obtain ⟨s, n, rfl, rfl, hs⟩ := bound?_isSome.1 (Option.isSome_of_eq_some hb)
        exact ⟨_, rfl, .one hs⟩
      · cases h
    · rename_i symbol bound symbol' bound'
      split at h
      · rename_i b b' hb hb'
        obtain ⟨s, n, rfl, rfl, hs⟩ := bound?_isSome.1 (Option.isSome_of_eq_some hb)
        obtain ⟨s', n', rfl, rfl, hs'⟩ := bound?_isSome.1 (Option.isSome_of_eq_some hb')
        exact ⟨_, rfl, .two hs hs'⟩
      · cases h
    · cases h
  · rintro ⟨items, rfl, hitems⟩
    cases hitems with
    | @one s n hs =>
      obtain ⟨b, hb⟩ := Option.isSome_iff_exists.1 (bound?_isSome.2 ⟨s, n, rfl, rfl, hs⟩)
      exact ⟨.numeric [b], by simp only [numericTest, hb]⟩
    | @two s s' n n' hs hs' =>
      obtain ⟨b, hb⟩ := Option.isSome_iff_exists.1 (bound?_isSome.2 ⟨s, n, rfl, rfl, hs⟩)
      obtain ⟨b', hb'⟩ := Option.isSome_iff_exists.1 (bound?_isSome.2 ⟨s', n', rfl, rfl, hs'⟩)
      exact ⟨.numeric [b, b'], by simp only [numericTest, hb, hb']⟩

theorem fault_of_numericTest (h : numericTest argument = .error fault) :
    fault = .numericForm := by
  unfold numericTest at h
  split at h
  · split at h <;> cases h
    rfl
  · split at h <;> cases h
    rfl
  · cases h
    rfl

theorem numericTest_eq_error : numericTest argument = .error fault ↔
    (∀ items, argument = .array items → ¬Bounds items) ∧ fault = .numericForm := by
  have hfails : (∃ d, numericTest argument = .error d) ↔ ∀ items, argument = .array items → ¬Bounds items := by
    simp only [exists_eq_error_iff, numericTest_isOk, not_exists, not_and]
  constructor
  · intro h
    exact ⟨hfails.1 ⟨fault, h⟩, fault_of_numericTest h⟩
  · rintro ⟨hitems, rfl⟩
    obtain ⟨d, hd⟩ := hfails.2 hitems
    rw [hd, fault_of_numericTest hd]

theorem exclusionTest_isOk : (∃ test, exclusionTest argument = .ok test) ↔ Exclusion argument := by
  constructor
  · rintro ⟨test, h⟩
    unfold exclusionTest at h
    split at h
    · split at h
      · cases h
      · rename_i values hvalues
        refine .list fun v hv => Json.plain_iff.2 ?_
        simpa using fun hshape => hvalues (List.any_eq_true.2 ⟨v, hv, hshape⟩)
    · exact .start _
    · exact .stop _
    · cases h
    · rename_i harray _ _ hobject
      refine .value (Json.plain_iff.2 ?_)
      cases argument <;> simp_all [Json.isArray, Json.isObject]
  · intro h
    cases h with
    | value h => cases h <;> exact ⟨_, rfl⟩
    | list h =>
      refine ⟨_, if_neg ?_⟩
      simp only [List.any_eq_true, not_exists, not_and]
      intro v hv
      obtain ⟨harray, hobject⟩ := Json.plain_iff.1 (h v hv)
      simp [harray, hobject]
    | start s => exact ⟨_, rfl⟩
    | stop s => exact ⟨_, rfl⟩

theorem fault_of_exclusionTest (h : exclusionTest argument = .error fault) :
    argument.isArray = true ∧ fault = .exclusionList ∨ argument.isObject = true ∧ fault = .exclusionObject := by
  unfold exclusionTest at h
  split at h
  · split at h <;> cases h
    exact .inl ⟨rfl, rfl⟩
  · cases h
  · cases h
  · cases h
    exact .inr ⟨rfl, rfl⟩
  · cases h

section

variable [Regex.Engine]

theorem exclusionTest_eq_error :
    exclusionTest argument = .error fault ↔ OperatorMisused "anything-but" argument fault := by
  have hfails : (∃ d, exclusionTest argument = .error d) ↔ ¬Exclusion argument := by
    rw [exists_eq_error_iff, exclusionTest_isOk]
  constructor
  · intro h
    have hargument := hfails.1 ⟨fault, h⟩
    rcases fault_of_exclusionTest h with ⟨hshape, rfl⟩ | ⟨hshape, rfl⟩
    · cases argument with
      | array values => exact .exclusionList hargument
      | _ => cases hshape
    · cases argument with
      | object fields => exact .exclusionObject hargument
      | _ => cases hshape
  · intro h
    generalize hoperator : "anything-but" = operator at h
    cases h with
    | exclusionList hargument =>
      obtain ⟨d, hd⟩ := hfails.2 hargument
      rcases fault_of_exclusionTest hd with ⟨-, rfl⟩ | ⟨hshape, -⟩
      · exact hd
      · cases hshape
    | exclusionObject hargument =>
      obtain ⟨d, hd⟩ := hfails.2 hargument
      rcases fault_of_exclusionTest hd with ⟨hshape, -⟩ | ⟨-, rfl⟩
      · cases hshape
      · exact hd
    | _ => simp_all [eq_comm]

theorem operatorTest_isOk : (∃ a, operatorTest operator argument = .ok a) ↔ IsOperator operator argument := by
  constructor
  · rintro ⟨a, h⟩
    unfold operatorTest at h
    split at h
    case h_4 =>
      obtain ⟨s, rfl, hs⟩ := textArgument_bind_eq_ok.1 h
      rw [Glob.compile_source] at hs
      cases hrefused : Regex.Engine.refusal? (Glob.source s) with
      | none => exact .glob hrefused
      | some reason =>
        rw [hrefused] at hs
        cases hs
    case h_5 =>
      split at h
      · exact .presence _
      · cases h
    case h_6 =>
      obtain ⟨test, htest, -⟩ := bind_eq_ok.1 h
      exact .exclusion (exclusionTest_isOk.1 ⟨test, htest⟩)
    case h_7 =>
      obtain ⟨test, htest, -⟩ := bind_eq_ok.1 h
      obtain ⟨items, rfl, hitems⟩ := numericTest_isOk.1 ⟨test, htest⟩
      exact .comparison hitems
    case h_8 =>
      obtain ⟨s, rfl, hs⟩ := textArgument_bind_eq_ok.1 h
      split at hs
      · rename_i network hnetwork
        exact .range (Option.isSome_of_eq_some hnetwork)
      · cases hs
    case h_9 => cases h
    all_goals
      obtain ⟨s, rfl, -⟩ := textArgument_bind_eq_ok.1 h
      exact .text s (by simp)
  · intro h
    cases h with
    | text s hoperator =>
      simp only [List.mem_cons, List.not_mem_nil, or_false] at hoperator
      rcases hoperator with rfl | rfl | rfl <;> exact ⟨_, rfl⟩
    | @glob s hs =>
      refine ⟨.passes (.matchesWhole (Glob.regex s)), textArgument_bind_eq_ok.2 ⟨s, rfl, ?_⟩⟩
      rw [Glob.compile_source, hs]
      rfl
    | presence b => exact ⟨_, rfl⟩
    | @range s hs =>
      obtain ⟨network, hnetwork⟩ := Option.isSome_iff_exists.1 hs
      refine ⟨.passes (.within network), textArgument_bind_eq_ok.2 ⟨s, rfl, ?_⟩⟩
      rw [hnetwork]
      rfl
    | comparison h =>
      obtain ⟨test, htest⟩ := numericTest_isOk.2 ⟨_, rfl, h⟩
      exact ⟨.passes test, bind_eq_ok.2 ⟨test, htest, rfl⟩⟩
    | exclusion h =>
      obtain ⟨test, htest⟩ := exclusionTest_isOk.2 h
      exact ⟨.passes test, bind_eq_ok.2 ⟨test, htest, rfl⟩⟩

theorem operatorTest_eq_error :
    operatorTest operator argument = .error fault ↔ OperatorMisused operator argument fault := by
  constructor
  · intro h
    unfold operatorTest at h
    split at h
    case h_4 =>
      rcases textArgument_bind_eq_error.1 h with ⟨hargument, rfl⟩ | ⟨s, rfl, hs⟩
      · exact .text (by simp) hargument
      · rw [Glob.compile_source] at hs
        cases hrefused : Regex.Engine.refusal? (Glob.source s) with
        | none =>
          rw [hrefused] at hs
          cases hs
        | some reason =>
          rw [hrefused] at hs
          cases hs
          exact .glob hrefused
    case h_5 =>
      split at h
      · cases h
      · rename_i hargument
        cases h
        exact .presence hargument
    case h_6 =>
      rcases bind_eq_error.1 h with h | ⟨_, -, h⟩
      · exact exclusionTest_eq_error.1 h
      · cases h
    case h_7 =>
      rcases bind_eq_error.1 h with h | ⟨_, -, h⟩
      · obtain ⟨hargument, rfl⟩ := numericTest_eq_error.1 h
        exact .comparison hargument
      · cases h
    case h_8 =>
      rcases textArgument_bind_eq_error.1 h with ⟨hargument, rfl⟩ | ⟨s, rfl, hs⟩
      · exact .text (by simp) hargument
      · split at hs
        · cases hs
        · rename_i hnetwork
          cases hs
          exact .range hnetwork
    case h_9 =>
      cases h
      exact .unknown (by simp_all)
    all_goals
      rcases textArgument_bind_eq_error.1 h with ⟨hargument, rfl⟩ | ⟨_, -, h⟩
      · exact .text (by simp) hargument
      · cases h
  · intro h
    cases h with
    | text hoperator hargument =>
      simp only [List.mem_cons, List.not_mem_nil, or_false] at hoperator
      rcases hoperator with rfl | rfl | rfl | rfl | rfl <;>
        exact textArgument_bind_eq_error.2 (.inl ⟨hargument, rfl⟩)
    | @glob s reason hs =>
      refine textArgument_bind_eq_error.2 (.inr ⟨s, rfl, ?_⟩)
      rw [Glob.compile_source, hs]
      rfl
    | presence hargument =>
      cases argument with
      | bool b => exact absurd rfl (hargument b)
      | _ => rfl
    | @range s hs =>
      refine textArgument_bind_eq_error.2 (.inr ⟨s, rfl, ?_⟩)
      rw [hs]
      rfl
    | comparison hargument => exact bind_eq_error.2 (.inl (numericTest_eq_error.2 ⟨hargument, rfl⟩))
    | exclusionList hargument => exact bind_eq_error.2 (.inl (exclusionTest_eq_error.2 (.exclusionList hargument)))
    | exclusionObject hargument => exact bind_eq_error.2 (.inl (exclusionTest_eq_error.2 (.exclusionObject hargument)))
    | unknown hoperator =>
      simp only [List.mem_cons, List.not_mem_nil, or_false, not_or] at hoperator
      obtain ⟨h1, h2, h3, h4, h5, h6, h7, h8⟩ := hoperator
      simp [operatorTest]

theorem alternative_isOk {value : Json} : (∃ a, alternative value = .ok a) ↔ IsAlternative value := by
  constructor
  · rintro ⟨a, h⟩
    unfold alternative at h
    split at h
    · cases h
    · exact .operator (operatorTest_isOk.1 ⟨a, h⟩)
    · cases h
    · rename_i harray _ hobject
      refine .value (Json.plain_iff.2 ?_)
      cases value <;> simp_all [Json.isArray, Json.isObject]
  · intro h
    cases h with
    | value h => cases h <;> exact ⟨_, rfl⟩
    | operator h => exact operatorTest_isOk.2 h

theorem alternative_eq_error {value : Json} : alternative value = .error fault ↔ AlternativeFault value fault := by
  constructor
  · intro h
    unfold alternative at h
    split at h
    · cases h
      exact .nestedArray _
    · exact .misused (operatorTest_eq_error.1 h)
    · rename_i fields hfields
      cases h
      refine .notOneKey fun hlength => ?_
      obtain ⟨⟨operator, argument⟩, rfl⟩ := List.length_eq_one_iff.1 hlength
      exact hfields operator argument rfl
    · cases h
  · intro h
    cases h with
    | nestedArray items => rfl
    | @notOneKey fields hlength =>
      match fields, hlength with
      | [], _ => rfl
      | _ :: _ :: _, _ => rfl
    | misused h => exact operatorTest_eq_error.2 h

/-! ### Objects -/

variable {items : List Json}

theorem ofField_plain (path key : String) {value : Json} (hplain : value.Plain) :
    ofField path key value = .error (if key = "$or" then .choices path else .leafForm (join path key)) := by
  cases hplain <;> rfl

theorem ofChoices_form (path : String) {item : Json} (hform : item.isObject = false) :
    ofChoices path (item :: items) = .error (.choices path) := by
  cases item with
  | object fields => cases hform
  | _ => rfl

-- The induction is on the object as it stands.
mutual

theorem ofFields_isOk (path : String) (fields : List (String × Json)) :
    (∃ cs, ofFields path fields = .ok cs) ↔ WellFormed fields :=
  match fields with
  | [] => iff_of_true ⟨[], rfl⟩ wellFormed_nil
  | (key, value) :: fields => by
    rw [ofFields, cons_isOk, ofField_isOk path key value, ofFields_isOk path fields, wellFormed_cons]

theorem ofField_isOk (path key : String) (value : Json) :
    (∃ c, ofField path key value = .ok c) ↔ FieldWellFormed key value :=
  match value with
  | .object fields => by
    rw [ofField, fieldWellFormed_object]
    by_cases hkey : key = "$or"
    · simp [hkey]
    · rw [if_neg hkey, map_isOk, ofFields_isOk _ fields, and_iff_right hkey]
  | .array [] => by simp [ofField, fieldWellFormed_array]
  | .array (item :: items) => by
    rw [ofField, fieldWellFormed_array, and_iff_right (List.cons_ne_nil item items)]
    by_cases hkey : key = "$or"
    · simp only [if_pos hkey]
      rw [map_isOk, ofChoices_isOk path (item :: items)]
    · simp only [if_neg hkey]
      rw [map_isOk, mapM_isOk]
      refine forall₂_congr fun a _ => ?_
      simp only [mapError_eq_ok, alternative_isOk]
  | .null | .bool _ | .number _ | .string _ => by
    rw [ofField_plain _ _ (by constructor)]
    exact iff_of_false (by simp) (not_fieldWellFormed (by constructor))

theorem ofChoices_isOk (path : String) (items : List Json) :
    (∃ choices, ofChoices path items = .ok choices) ↔ ∀ item ∈ items, ChoiceWellFormed item :=
  match items with
  | [] => iff_of_true ⟨[], rfl⟩ (by simp)
  | .object fields :: items => by
    rw [ofChoices, cons_isOk, List.forall_mem_cons, choiceWellFormed_object, ofFields_isOk path fields,
      ofChoices_isOk path items]
  | .null :: _ | .bool _ :: _ | .number _ :: _ | .string _ :: _ | .array _ :: _ => by
    rw [ofChoices_form path rfl, List.forall_mem_cons]
    exact iff_of_false (by simp) fun h => not_choiceWellFormed rfl h.1

end

-- The same induction; what comes before the fault is known by now to be read.
mutual

theorem ofFields_eq_error (keys : List String) (fields : List (String × Json))
    (hfields : (Json.object fields).Canonical) {e : PatternError} :
    ofFields (dotted keys) fields = .error e ↔ FirstFault keys fields e :=
  match fields with
  | [] => by
    refine iff_of_false ?_ firstFault_nil
    intro h
    cases h
  | (key, value) :: fields => by
    obtain ⟨hsorted, hvalues⟩ := Json.canonical_object.1 hfields
    obtain ⟨hvalue, hvalues⟩ := List.forall_mem_cons.1 hvalues
    have hrest : (Json.object fields).Canonical := .object (List.pairwise_cons.1 hsorted).2 hvalues
    rw [ofFields, cons_eq_error, ofField_eq_error keys key value hvalue, ofField_isOk,
      ofFields_eq_error keys fields hrest, firstFault_cons hsorted]

theorem ofField_eq_error (keys : List String) (key : String) (value : Json) (hvalue : value.Canonical)
    {e : PatternError} : ofField (dotted keys) key value = .error e ↔ FieldFault keys key value e :=
  match value with
  | .object fields => by
    rw [ofField]
    by_cases hkey : key = "$or"
    · subst hkey
      rw [if_pos rfl, Except.error.injEq, fieldFault_choices_object]
    · rw [if_neg hkey, map_eq_error, join_dotted, ofFields_eq_error _ fields hvalue, fieldFault_object hkey]
  | .array [] => by
    rw [ofField, Except.error.injEq, join_dotted, fieldFault_empty]
  | .array (item :: items) => by
    have hitems := Json.canonical_array.1 hvalue
    have hne : item :: items ≠ [] := List.cons_ne_nil _ _
    rw [ofField]
    by_cases hkey : key = "$or"
    · subst hkey
      rw [if_pos rfl, map_eq_error, ofChoices_eq_error keys (item :: items) hitems, fieldFault_choices hne]
    · rw [if_neg hkey, map_eq_error, mapM_eq_error, fieldFault_array hkey hne, join_dotted]
      refine first_congr (fun a => ?_) fun a => ?_
      · simp only [mapError_eq_ok, alternative_isOk]
      · simp only [mapError_eq_error, alternative_eq_error]
  | .null | .bool _ | .number _ | .string _ => by
    rw [ofField_plain _ _ (by constructor), Except.error.injEq, join_dotted, fieldFault_plain (by constructor)]

theorem ofChoices_eq_error (keys : List String) (items : List Json) (hitems : ∀ item ∈ items, item.Canonical)
    {e : PatternError} :
    ofChoices (dotted keys) items = .error e ↔ First ChoiceWellFormed (ChoiceFault keys · e) items :=
  match items with
  | [] => by
    refine iff_of_false ?_ first_nil
    intro h
    cases h
  | .object fields :: items => by
    obtain ⟨hfields, hrest⟩ := List.forall_mem_cons.1 hitems
    rw [ofChoices, cons_eq_error, first_cons, choiceWellFormed_object, choiceFault_object, ofFields_isOk,
      ofFields_eq_error keys fields hfields, ofChoices_eq_error keys items hrest]
  | .null :: _ | .bool _ :: _ | .number _ :: _ | .string _ :: _ | .array _ :: _ => by
    rw [ofChoices_form _ rfl, Except.error.injEq, first_cons, choiceFault_form rfl,
      or_iff_left fun h => not_choiceWellFormed rfl h.1]

end

/-! ### Whole patterns -/

theorem ofJson_isOk {value : Json} :
    (∃ p, ofJson value = .ok p) ↔ ∃ fields, value = .object fields ∧ WellFormed fields := by
  cases value with
  | object fields =>
    rw [ofJson, map_isOk, ofFields_isOk]
    simp
  | _ => simp [ofJson]

theorem ofJson_eq_error {value : Json} (hvalue : value.Canonical) {e : PatternError} :
    ofJson value = .error e ↔
      value.isObject = false ∧ e = .rootNotObject ∨ ∃ fields, value = .object fields ∧ FirstFault [] fields e := by
  cases value with
  | object fields =>
    have hpath : dotted [] = "" := rfl
    rw [ofJson, map_eq_error, ← hpath, ofFields_eq_error [] fields hvalue]
    simp [Json.isObject]
  | _ => simp [ofJson, Json.isObject, eq_comm]

/-- What is wrong with a text; the values in it are as they are read. -/
theorem parse_eq_error {text : String} {e : PatternError} :
    parse text = .error e ↔ Text.trimmed text ≠ "" ∧
      (Json.parse? text = none ∧ e = .notJson ∨
        ∃ value, Json.parse? text = some value ∧ (value.isObject = false ∧ e = .rootNotObject ∨
          ∃ fields, value = .object fields ∧ FirstFault [] fields e)) := by
  unfold parse
  split
  · rename_i hblank
    simp [hblank]
  · rename_i hblank
    rw [and_iff_right hblank]
    split
    · rename_i value hread
      rw [ofJson_eq_error (Json.canonical_of_parse? hread), hread]
      simp only [reduceCtorEq, false_and, false_or, Option.some.injEq, exists_eq_left']
    · rename_i hread
      rw [hread]
      simp only [Except.error.injEq, true_and, reduceCtorEq, false_and, exists_false, or_false]
      exact eq_comm

/-- The values that are patterns are those of the grammar, and a value that is none has the fault that comes first. -/
theorem ofJson_recognizes (value : Json) :
    ((∃ p, ofJson value = .ok p) ↔ ∃ fields, value = .object fields ∧ WellFormed fields) ∧
      (value.Canonical → ∀ e, ofJson value = .error e ↔
        value.isObject = false ∧ e = .rootNotObject ∨ ∃ fields, value = .object fields ∧ FirstFault [] fields e) := by
  constructor
  · exact ofJson_isOk
  · intro hvalue e
    exact ofJson_eq_error hvalue

end

/-- The empty leaf `b` comes after the nested array that stands in a choice within `a`. -/
theorem ofJson_recognizes_choice :
    ∃ value : Json, value.Canonical ∧ ofJson value = .error (.operator "a.c" .nestedArray) ∧
      ∃ fields, value = .object fields ∧ FirstFault [] fields (.operator "a.c" .nestedArray) := by
  let choices : Json := .array [.object [("b", .array [.string "x"])], .object [("c", .array [.array []])]]
  let value : Json := .object [("a", .object [("$or", choices)]), ("b", .array [])]
  have hvalue : value.Canonical := by
    have hx : (Json.string "x").Canonical := .plain (.string "x")
    have hnames : (["a", "b"] : List String).Pairwise (· < ·) := by decide
    refine .object hnames ?_
    simp [choices, Json.canonical_object, Json.canonical_array, hx]
  have hread : ofJson value = .error (.operator "a.c" .nestedArray) := by rfl
  rcases ((ofJson_recognizes value).2 hvalue _).1 hread with ⟨hroot, -⟩ | hfault
  · cases hroot
  · exact ⟨value, hvalue, hread, hfault⟩

end AccessPolicy.Pattern
