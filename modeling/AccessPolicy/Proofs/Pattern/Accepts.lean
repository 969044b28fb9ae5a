import AccessPolicy.Proofs.Except
import AccessPolicy.Proofs.Pattern.Meaning

/-!
# What a pattern accepts

A pattern that was read accepts the events that satisfy its object.  It holds to the rounded convention, and to any
other that comes to the same for the texts and numbers at hand (`Convention.Fits`): operator by operator
(`passes_of_operatorTest`), for the alternatives of a leaf (`accepts_iff_holds`), and from there for fields, nested
patterns and choices together (`allHold_iff`).  `Pattern.accepts_iff_satisfies` has both conventions.
-/

namespace AccessPolicy

/-- A convention comes to the same as the rounded one for the texts of an event, and for its numbers beside those of a
pattern. -/
structure Convention.Fits (C : Convention) (pattern event : Json) : Prop where
  inRun : ∀ text, (Json.string text).Inside event → ∀ c ∈ text.toList, C.inRun c ↔ c ≠ '\n'
  equal : ∀ m n, (Json.number m).Inside pattern → (Json.number n).Inside event →
    (C.equal m n ↔ m.toDouble.close n.toDouble = true) ∧ (C.equal n m ↔ n.toDouble.close m.toDouble = true)
  below : ∀ m n, (Json.number m).Inside pattern → (Json.number n).Inside event →
    (C.below m n ↔ m.toDouble.signed < n.toDouble.signed) ∧ (C.below n m ↔ n.toDouble.signed < m.toDouble.signed)

variable {C : Convention} {root event : Json}

/-! ### Single values -/

theorem same_iff (hfits : C.Fits root event) {expected value : Json} (hexpected : expected.Inside root)
    (hvalue : value.Inside event) : expected.same value = true ↔ expected.Same C value := by
  constructor
  · intro h
    cases expected <;> cases value <;> simp only [Json.same, Bool.false_eq_true, beq_iff_eq] at h
    case null.null => exact .null
    case bool.bool b _ => exact h ▸ .bool b
    case number.number m n => exact .number ((hfits.equal m n hexpected hvalue).1.2 h)
    case string.string s _ => exact h ▸ .string s
  · intro h
    cases h with
    | null => rfl
    | bool b => exact beq_self_eq_true b
    | string s => exact beq_self_eq_true s
    | number heq => exact (hfits.equal _ _ hexpected hvalue).1.1 heq

theorem holds_iff_compares (hfits : C.Fits root event) {symbol : String} {comparison : Comparison} {n bound : Number}
    (h : Comparison.ofSymbol? symbol = some comparison) (hbound : (Json.number bound).Inside root)
    (hn : (Json.number n).Inside event) :
    comparison.holds n.toDouble bound.toDouble = true ↔ Compares C symbol n bound := by
  have hequal := hfits.equal bound n hbound hn
  have hbelow := hfits.below bound n hbound hn
  unfold Comparison.ofSymbol? at h
  split at h <;> cases h
  · exact hequal.2.symm
  · simp [Comparison.holds, Compares, Double.lt, hbelow.2]
  · simp [Comparison.holds, Compares, Double.le, hbelow.1]
  · simp [Comparison.holds, Compares, Double.lt, hbelow.1]
  · simp [Comparison.holds, Compares, Double.le, hbelow.2]

theorem bound?_eq_some {symbol bound : Json} {b : Comparison × Double} (h : Pattern.bound? symbol bound = some b) :
    ∃ s comparison n, symbol = .string s ∧ bound = .number n ∧ Comparison.ofSymbol? s = some comparison ∧
      b = (comparison, n.toDouble) := by
  simp only [Pattern.bound?, Option.bind_eq_bind, Option.bind_eq_some_iff, Option.pure_def, Option.some.injEq] at h
  obtain ⟨s, hs, comparison, hcomparison, n, hn, rfl⟩ := h
  refine ⟨s, comparison, n, ?_, ?_, hcomparison, rfl⟩
  · cases symbol <;> simp_all [Json.asString?]
  · cases bound <;> simp_all [Json.asNumber?]

theorem textArgument_eq_ok {operator text : String} {argument : Json}
    (h : Pattern.textArgument operator argument = .ok text) : argument = .string text := by
  cases argument <;> simp_all [Pattern.textArgument]

theorem accepts_startsWith {start text : String} :
    (Test.startsWith start).accepts (.string text) = true ↔ start.toList <+: text.toList :=
  List.isPrefixOf_iff_prefix

theorem accepts_endsWith {stop text : String} :
    (Test.endsWith stop).accepts (.string text) = true ↔ stop.toList <:+ text.toList :=
  List.isSuffixOf_iff_suffix

theorem accepts_notStartsWith {start text : String} :
    (Test.notStartsWith start).accepts (.string text) = true ↔ ¬start.toList <+: text.toList := by
  rw [← accepts_startsWith, Bool.not_eq_true, ← Bool.not_eq_true']
  rfl

theorem accepts_notEndsWith {stop text : String} :
    (Test.notEndsWith stop).accepts (.string text) = true ↔ ¬stop.toList <:+ text.toList := by
  rw [← accepts_endsWith, Bool.not_eq_true, ← Bool.not_eq_true']
  rfl

theorem accepts_noneOf (hfits : C.Fits root event) {excluded : List Json} {value : Json}
    (hexcluded : ∀ v ∈ excluded, v.Inside root) (hvalue : value.Inside event) :
    (Test.noneOf excluded).accepts value = true ↔ ∀ v ∈ excluded, ¬v.Same C value := by
  simp only [Test.accepts, Bool.not_eq_true', List.any_eq_false]
  exact forall₂_congr fun v hv => not_congr (same_iff hfits (hexcluded v hv) hvalue)

theorem passes_of_exclusionTest (hfits : C.Fits root event) {argument value : Json} {test : Test}
    (h : Pattern.exclusionTest argument = .ok test) (hargument : argument.Inside root) (hvalue : value.Inside event) :
    test.accepts value = true ↔ OperatorPasses C "anything-but" argument value := by
  unfold Pattern.exclusionTest at h
  split at h
  · split at h
    · cases h
    cases h
    exact accepts_noneOf hfits (fun v hv => (Json.Inside.item hv .refl).trans hargument) hvalue
  · cases h
    cases value with
    | string text => exact accepts_notStartsWith
    | _ => simp [Test.accepts, OperatorPasses]
  · cases h
    cases value with
    | string text => exact accepts_notEndsWith
    | _ => simp [Test.accepts, OperatorPasses]
  · cases h
  · cases h
    rw [accepts_noneOf hfits (by simpa using hargument) hvalue]
    cases argument <;> simp_all [OperatorPasses]

theorem within_nil {n : Number} : Within C n [] ↔ True := iff_true_intro .nil

theorem within_cons {n bound : Number} {symbol : String} {rest : List Json} :
    Within C n (.string symbol :: .number bound :: rest) ↔ Compares C symbol n bound ∧ Within C n rest := by
  constructor
  · rintro ⟨⟩
    exact ⟨‹_›, ‹_›⟩
  · rintro ⟨hfirst, hrest⟩
    exact .cons hfirst hrest

theorem passes_of_numericTest (hfits : C.Fits root event) {argument value : Json} {test : Test}
    (h : Pattern.numericTest argument = .ok test) (hargument : argument.Inside root) (hvalue : value.Inside event) :
    test.accepts value = true ↔ OperatorPasses C "numeric" argument value := by
  have hinside : ∀ items bound, argument = .array items → .number bound ∈ items → (Json.number bound).Inside root :=
    fun items bound heq hmem => (Json.Inside.item hmem .refl).trans (heq ▸ hargument)
  unfold Pattern.numericTest at h
  split at h
  · split at h
    · rename_i b hb
      cases h
      obtain ⟨s, comparison, bound, rfl, rfl, hsymbol, rfl⟩ := bound?_eq_some hb
      cases value with
      | number n =>
        have hholds := holds_iff_compares hfits hsymbol (hinside _ bound rfl (by simp)) hvalue
        simp only [Test.accepts, OperatorPasses, List.all_cons, List.all_nil, Bool.and_true, within_cons, within_nil,
          and_true, hholds]
      | _ => simp [Test.accepts, OperatorPasses]
    · cases h
  · split at h
    · rename_i b b' hb hb'
      cases h
      obtain ⟨s, comparison, bound, rfl, rfl, hsymbol, rfl⟩ := bound?_eq_some hb
      obtain ⟨s', comparison', bound', rfl, rfl, hsymbol', rfl⟩ := bound?_eq_some hb'
      cases value with
      | number n =>
        have hholds := holds_iff_compares hfits hsymbol (hinside _ bound rfl (by simp)) hvalue
        have hholds' := holds_iff_compares hfits hsymbol' (hinside _ bound' rfl (by simp)) hvalue
        simp only [Test.accepts, OperatorPasses, List.all_cons, List.all_nil, Bool.and_true, Bool.and_eq_true,
          within_cons, within_nil, and_true, hholds, hholds']
      | _ => simp [Test.accepts, OperatorPasses]
    · cases h
  · cases h

theorem passes_of_operatorTest [Regex.Engine] (hfits : C.Fits root event) {operator : String} {argument value : Json}
    {test : Test} (h : Pattern.operatorTest operator argument = .ok (.passes test)) (hargument : argument.Inside root)
    (hvalue : value.Inside event) : test.accepts value = true ↔ OperatorPasses C operator argument value := by
  unfold Pattern.operatorTest at h
  split at h
  · obtain ⟨start, hstart, h⟩ := bind_eq_ok.1 h
    cases h
    cases textArgument_eq_ok hstart
    cases value with
    | string text => exact accepts_startsWith
    | _ => simp [Test.accepts, OperatorPasses]
  · obtain ⟨stop, hstop, h⟩ := bind_eq_ok.1 h
    cases h
    cases textArgument_eq_ok hstop
    cases value with
    | string text => exact accepts_endsWith
    | _ => simp [Test.accepts, OperatorPasses]
  · obtain ⟨other, hother, h⟩ := bind_eq_ok.1 h
    cases h
    cases textArgument_eq_ok hother
    cases value <;> simp [Test.accepts, OperatorPasses]
  · obtain ⟨glob, hglob, h⟩ := bind_eq_ok.1 h
    obtain ⟨expression, hexpression, h⟩ := bind_eq_ok.1 h
    cases h
    cases textArgument_eq_ok hglob
    cases Glob.eq_regex_of_compile (mapError_eq_ok.1 hexpression)
    cases value with
    | string text =>
      rw [Test.accepts, Glob.accepts_iff]
      have hrun := hfits.inRun text hvalue
      exact ⟨fun hmatch => hmatch.of_forall fun c hc => (hrun c hc).2,
        fun hmatch => Glob.Matches.of_forall hmatch fun c hc => (hrun c hc).1⟩
    | _ => simp [Test.accepts, OperatorPasses]
  · split at h <;> cases h
  · obtain ⟨exclusion, hexclusion, h⟩ := bind_eq_ok.1 h
    cases h
    exact passes_of_exclusionTest hfits hexclusion hargument hvalue
  · obtain ⟨numeric, hnumeric, h⟩ := bind_eq_ok.1 h
    cases h
    exact passes_of_numericTest hfits hnumeric hargument hvalue
  · obtain ⟨range, hrange, hok⟩ := bind_eq_ok.1 h
    cases textArgument_eq_ok hrange
    split at hok
    · rename_i network hnetwork
      cases hok
      cases value <;> simp [Test.accepts, OperatorPasses, hnetwork, Option.any_eq_true]
    · cases hok
  · cases h

/-! ### Leaves -/

/-- Only `exists` asks whether there is a value. -/
theorem eq_of_operatorTest_present [Regex.Engine] {operator : String} {argument : Json} {expected : Bool}
    (h : Pattern.operatorTest operator argument = .ok (.present expected)) :
    operator = "exists" ∧ argument = .bool expected := by
  unfold Pattern.operatorTest at h
  split at h
  case h_4 =>
    obtain ⟨glob, -, h⟩ := bind_eq_ok.1 h
    obtain ⟨expression, -, hok⟩ := bind_eq_ok.1 h
    cases hok
  case h_5 =>
    split at h <;> cases h
    exact ⟨rfl, rfl⟩
  case h_8 =>
    obtain ⟨range, -, hok⟩ := bind_eq_ok.1 h
    split at hok <;> cases hok
  case h_9 => cases h
  all_goals
    obtain ⟨_, -, hok⟩ := bind_eq_ok.1 h
    cases hok

theorem accepts_passes_iff {test : Test} {a : Json} (ha : ∀ b, a ≠ .object [("exists", .bool b)])
    (htest : ∀ v : Json, v.Inside event → (test.accepts v = true ↔ Passes C a v)) {value : Option Json}
    (hvalue : ∀ v ∈ value, v.Inside event) :
    (Alternative.passes test).accepts value = true ↔ AlternativeHolds C a value := by
  cases value with
  | none => simp [Alternative.accepts, AlternativeHolds]
  | some v =>
    have hv := hvalue v rfl
    cases v with
    | array items =>
      simp only [Alternative.accepts, AlternativeHolds, List.any_eq_true]
      exact exists_congr fun item => and_congr_right fun hitem => htest item ((Json.Inside.item hitem .refl).trans hv)
    | _ => simpa [Alternative.accepts, AlternativeHolds] using htest _ hv

theorem accepts_iff_holds [Regex.Engine] (hfits : C.Fits root event) {a : Json} {alternative : Alternative}
    (h : Pattern.alternative a = .ok alternative) (ha : a.Inside root) {value : Option Json}
    (hvalue : ∀ v ∈ value, v.Inside event) : alternative.accepts value = true ↔ AlternativeHolds C a value := by
  unfold Pattern.alternative at h
  split at h
  · cases h
  · rename_i operator argument
    have hargument : argument.Inside root := (Json.Inside.field (List.mem_singleton.2 rfl) .refl).trans ha
    cases alternative with
    | present expected =>
      obtain ⟨rfl, rfl⟩ := eq_of_operatorTest_present h
      simp [Alternative.accepts, AlternativeHolds]
    | passes test =>
      refine accepts_passes_iff (fun b hb => ?_) (fun v hv => passes_of_operatorTest hfits h hargument hv) hvalue
      cases hb
      cases h
  · cases h
  · cases h
    refine accepts_passes_iff (fun b hb => ?_) (fun v hv => ?_) hvalue
    · subst hb
      simp_all
    · rw [Test.accepts, same_iff hfits ha hv]
      unfold Passes
      split
      · simp_all
      · rfl

/-! ### Fields and choices -/

theorem inside_member {value : Option Json} (hvalue : ∀ v ∈ value, v.Inside event) {key : String} :
    ∀ v ∈ Constraint.member value key, v.Inside event := by
  intro v hv
  obtain ⟨whole, hwhole, hget⟩ := Option.bind_eq_some_iff.1 hv
  cases whole with
  | object members =>
    obtain ⟨before, after, hmembers, -⟩ := List.lookup_eq_some_iff.1 hget
    have hmem : (key, v) ∈ members := by simp [hmembers]
    exact (Json.Inside.field hmem .refl).trans (hvalue _ hwhole)
  | _ => cases hget

theorem fieldSatisfies_array {alternatives : List Json} {value : Option Json} :
    FieldSatisfies C (.array alternatives) value ↔ ∃ a ∈ alternatives, AlternativeHolds C a value := by
  constructor
  · rintro ⟨⟩
    exact ⟨_, ‹_›, ‹_›⟩
  · rintro ⟨a, ha, hholds⟩
    exact .leaf ha hholds

theorem choiceSatisfies_array {choices : List Json} {value : Option Json} :
    ChoiceSatisfies C (.array choices) value ↔ ∃ fields, .object fields ∈ choices ∧ Satisfies C fields value := by
  constructor
  · rintro ⟨hmem, h⟩
    exact ⟨_, hmem, h⟩
  · rintro ⟨fields, hmem, h⟩
    exact .choice hmem h

/-- A pattern of its own, when its constraints hold of the values that satisfy it. -/
theorem holds_nested_iff {key : String} {cs : List Constraint} {fields : List (String × Json)} {value : Option Json}
    (h : ∀ v : Option Json, (∀ x ∈ v, x.Inside event) → (Constraint.allHold cs v = true ↔ Satisfies C fields v))
    (hvalue : ∀ v ∈ Constraint.member value key, v.Inside event) :
    (Constraint.nested key cs).holds value = true ↔
      FieldSatisfies C (.object fields) (Constraint.member value key) := by
  rw [Constraint.holds]
  -- what matters from here on is the value of the field, not where it came from
  generalize Constraint.member value key = v at hvalue
  split
  · rename_i items
    rw [List.any_eq_true]
    have helement : ∀ item ∈ items, ∀ x ∈ some item, x.Inside event := by
      rintro item hitem _ ⟨⟩
      exact (Json.Inside.item hitem .refl).trans (hvalue _ rfl)
    constructor
    · rintro ⟨item, hitem, hholds⟩
      rw [Bool.and_eq_true, h _ (helement item hitem)] at hholds
      exact .element hitem hholds.1 hholds.2
    · intro hsat
      cases hsat with
      | element hitem hobject hsat =>
        exact ⟨_, hitem, Bool.and_eq_true _ _ ▸ ⟨hobject, (h _ (helement _ hitem)).2 hsat⟩⟩
      | missing hplain _ => exact absurd (hplain _ rfl).1 (by simp [Json.isArray])
  · rw [h _ hvalue]
    constructor
    · exact .object
    · intro hsat
      cases hsat with
      | object hsat => exact hsat
      | missing hplain _ => exact absurd (hplain _ rfl).2 (by simp [Json.isObject])
  · rename_i harray hobject
    rw [h none nofun]
    constructor
    · refine .missing fun x hx => ?_
      cases x <;> simp_all [Json.isArray, Json.isObject]
    · intro hsat
      cases hsat with
      | element _ _ _ => exact absurd rfl (harray _)
      | object _ => exact absurd rfl (hobject _)
      | missing _ hsat => exact hsat

theorem holds_leaf_iff [Regex.Engine] (hfits : C.Fits root event) {key : String} {items : List Json}
    {alternatives : List Alternative}
    (h : List.Forall₂ (fun a alternative => Pattern.alternative a = .ok alternative) items alternatives)
    (hitems : ∀ item ∈ items, item.Inside root) {value : Option Json}
    (hvalue : ∀ v ∈ Constraint.member value key, v.Inside event) :
    (Constraint.leaf key alternatives).holds value = true ↔
      FieldSatisfies C (.array items) (Constraint.member value key) := by
  rw [Constraint.holds, fieldSatisfies_array]
  induction h with
  | nil => simp
  | cons ha _ ih =>
    rw [List.any_cons, Bool.or_eq_true, ih fun item hitem => hitems item (List.mem_cons_of_mem _ hitem),
      accepts_iff_holds hfits ha (hitems _ List.mem_cons_self) hvalue]
    simp

/-! ### Whole patterns -/

-- The induction is on the pattern as it stands; the values in it and in the event stay inside the ones that fit.
mutual

theorem allHold_iff [Regex.Engine] (hfits : C.Fits root event) (path : String) (fields : List (String × Json))
    {cs : List Constraint}
    (h : Pattern.ofFields path fields = .ok cs) (hfields : ∀ field ∈ fields, field.2.Inside root) {value : Option Json}
    (hvalue : ∀ v ∈ value, v.Inside event) : Constraint.allHold cs value = true ↔ Satisfies C fields value :=
  match fields with
  | [] => by
    cases h
    exact iff_of_true rfl (satisfies_nil value)
  | (key, pattern) :: fields => by
    obtain ⟨c, hc, h⟩ := bind_eq_ok.1 h
    obtain ⟨rest, hrest, h⟩ := bind_eq_ok.1 h
    cases h
    rw [Constraint.allHold, Bool.and_eq_true, satisfies_cons]
    have hothers : ∀ field ∈ fields, field.2.Inside root :=
      fun field hfield => hfields field (List.mem_cons_of_mem _ hfield)
    exact and_congr (holds_iff hfits path key pattern hc (hfields _ List.mem_cons_self) hvalue)
      (allHold_iff hfits path fields hrest hothers hvalue)

theorem holds_iff [Regex.Engine] (hfits : C.Fits root event) (path key : String) (pattern : Json) {c : Constraint}
    (h : Pattern.ofField path key pattern = .ok c) (hpattern : pattern.Inside root) {value : Option Json}
    (hvalue : ∀ v ∈ value, v.Inside event) :
    c.holds value = true ↔
      if key = "$or" then ChoiceSatisfies C pattern value
      else FieldSatisfies C pattern (Constraint.member value key) :=
  match pattern with
  | .object fields => by
    rw [Pattern.ofField] at h
    split at h
    · cases h
    rename_i hkey
    rw [if_neg hkey]
    obtain ⟨cs, hcs, h⟩ := bind_eq_ok.1 h
    cases h
    refine holds_nested_iff (fun v hv => ?_) (inside_member hvalue)
    exact allHold_iff hfits _ fields hcs
      (fun field hfield => (Json.Inside.field hfield .refl).trans hpattern) hv
  | .array [] => nomatch h
  | .array (item :: items) => by
    have hitems : ∀ i ∈ item :: items, i.Inside root := fun i hi => (Json.Inside.item hi .refl).trans hpattern
    rw [Pattern.ofField] at h
    split at h
    · rename_i hkey
      obtain ⟨choices, hchoices, h⟩ := bind_eq_ok.1 h
      cases h
      rw [if_pos hkey, Constraint.holds, choiceSatisfies_array]
      exact anyHolds_iff hfits path (item :: items) hchoices hitems hvalue
    · rename_i hkey
      obtain ⟨alternatives, halternatives, h⟩ := bind_eq_ok.1 h
      cases h
      rw [if_neg hkey]
      exact holds_leaf_iff hfits ((forall₂_of_mapM_eq_ok halternatives).imp fun _ _ => mapError_eq_ok.1) hitems
        (inside_member hvalue)
  | .null | .bool _ | .number _ | .string _ => nomatch h

theorem anyHolds_iff [Regex.Engine] (hfits : C.Fits root event) (path : String) (items : List Json)
    {choices : List (List Constraint)}
    (h : Pattern.ofChoices path items = .ok choices) (hitems : ∀ item ∈ items, item.Inside root) {value : Option Json}
    (hvalue : ∀ v ∈ value, v.Inside event) :
    Constraint.anyHolds choices value = true ↔ ∃ fields, .object fields ∈ items ∧ Satisfies C fields value :=
  match items with
  | [] => by
    cases h
    simp [Constraint.anyHolds]
  | .object fields :: items => by
    obtain ⟨choice, hchoice, h⟩ := bind_eq_ok.1 h
    obtain ⟨rest, hrest, h⟩ := bind_eq_ok.1 h
    cases h
    have hfirst := allHold_iff hfits path fields hchoice
      (fun field hfield => (Json.Inside.field hfield .refl).trans (hitems _ List.mem_cons_self)) hvalue
    have hothers := anyHolds_iff hfits path items hrest
      (fun item hitem => hitems item (List.mem_cons_of_mem _ hitem)) hvalue
    rw [Constraint.anyHolds, Bool.or_eq_true, hfirst, hothers]
    constructor
    · rintro (hsat | ⟨others, hmem, hsat⟩)
      · exact ⟨fields, List.mem_cons_self, hsat⟩
      · exact ⟨others, List.mem_cons_of_mem _ hmem, hsat⟩
    · rintro ⟨others, hmem, hsat⟩
      rcases List.mem_cons.1 hmem with heq | hmem
      · cases heq
        exact .inl hsat
      · exact .inr ⟨others, hmem, hsat⟩
  | .null :: _ | .bool _ :: _ | .number _ :: _ | .string _ :: _ | .array _ :: _ => nomatch h

end

theorem fits_rounded (root event : Json) : Convention.rounded.Fits root event where
  inRun _ _ _ _ := Iff.rfl
  equal _ _ _ _ := ⟨Iff.rfl, Iff.rfl⟩
  below _ _ _ _ := ⟨Iff.rfl, Iff.rfl⟩

theorem fits_exact (hline : event.OneLine) (hapart : ToldApart root event) : Convention.exact.Fits root event where
  inRun text htext c hc := iff_of_true trivial fun heq => hline text htext (heq ▸ hc)
  equal m n hm hn := by
    obtain ⟨hm, hn, h⟩ := hapart m n hm hn
    exact ⟨(Number.close_toDouble hm hn h).symm, (Number.close_toDouble hn hm h.symm).symm⟩
  below m n hm hn := by
    obtain ⟨hm, hn, -⟩ := hapart m n hm hn
    rw [hm, hn]
    exact ⟨Iff.rfl, Iff.rfl⟩

/-- For any convention that fits. -/
theorem accepts_iff_of_fits [Regex.Engine] {fields : List (String × Json)} {p : Pattern}
    (h : Pattern.ofJson (.object fields) = .ok p) (hfits : C.Fits (.object fields) event) :
    p.accepts event = true ↔ Satisfies C fields (some event) := by
  obtain ⟨cs, hcs, h⟩ := bind_eq_ok.1 h
  cases h
  refine allHold_iff hfits "" fields hcs (fun field hfield => .field hfield .refl) ?_
  rintro _ ⟨⟩
  exact .refl

/-- A pattern accepts the events that satisfy its object, if an asterisk does not go over the end of a line and numbers
are compared by their doubles.  These conventions may be left out for an event whose texts have no line feed and whose
numbers doubles can tell from those of the pattern. -/
theorem Pattern.accepts_iff_satisfies [Regex.Engine] {fields : List (String × Json)} {p : Pattern}
    (h : Pattern.ofJson (.object fields) = .ok p) (event : Json) :
    (p.accepts event = true ↔ Satisfies .rounded fields (some event)) ∧
      (event.OneLine → ToldApart (.object fields) event →
        (p.accepts event = true ↔ Satisfies .exact fields (some event))) :=
  ⟨accepts_iff_of_fits h (fits_rounded _ event), fun hline hapart => accepts_iff_of_fits h (fits_exact hline hapart)⟩

namespace Pattern

/-- One choice and one pattern of its own. -/
def orders : List (String × Json) :=
  [("$or", .array [.object [("note", .array [.object [("exists", .bool false)]])],
      .object [("who", .array [.object [("wildcard", .string "a*")]])]]),
    ("items", .object [("id", .array [.object [("numeric", .array [.string ">", .ofNat 0, .string "<=", .ofNat 5])]]),
      ("tag", .array [.string "x", .object [("prefix", .string "eu-")]])])]

/-- The first item has the right tag and the second one the right number too. -/
def order : Json :=
  .object [("items", .array [.object [("id", .ofNat 7), ("tag", .string "x")],
      .object [("id", .ofNat 3), ("tag", .array [.string "z", .string "eu-1"])]]),
    ("note", .ofNat 1), ("who", .string "ab")]

theorem accepts_iff_satisfies_orders :
    ∃ p, ofJson (.object orders) = .ok p ∧ order.OneLine ∧ ToldApart (.object orders) order ∧
      p.accepts order = true ∧ Satisfies .exact orders (some order) := by
  have hline : order.OneLine := by
    intro text htext
    simp [order, Json.ofNat, Json.ofInt, inside_array, inside_object, inside_string, inside_number] at htext
    rcases htext with (rfl | rfl | rfl) | rfl <;> simp
  have hapart : ToldApart (.object orders) order := by
    intro m n hm hn
    simp [order, orders, Json.ofNat, Json.ofInt, inside_array, inside_object, inside_string, inside_number,
      inside_bool] at hm hn
    rcases hm with rfl | rfl <;> rcases hn with (rfl | rfl) | rfl <;>
      exact ⟨Number.isDouble_integer (by decide), Number.isDouble_integer (by decide), Number.apart_integer _ _⟩
  refine ⟨_, rfl, hline, hapart, by decide +kernel, ?_⟩
  exact ((accepts_iff_satisfies rfl order).2 hline hapart).1 (by decide +kernel)

/-- In the exact reading an asterisk goes on over the end of a line. -/
theorem not_accepts_iff_satisfies : ¬∀ fields p, ofJson (.object fields) = .ok p → ∀ event : Json,
    (p.accepts event = true ↔ Satisfies .exact fields (some event)) := by
  intro h
  have hsat : Satisfies .exact [("x", .array [.object [("wildcard", .string "a*b")]])]
      (some (.object [("x", .string "a\nb")])) := by
    rw [satisfies_cons, if_neg (by decide), fieldSatisfies_array]
    refine ⟨⟨_, List.mem_cons_self, ?_⟩, satisfies_nil _⟩
    exact .char (by decide) (@Glob.Matches.star _ ['\n'] _ _ (fun _ _ => trivial) (.char (by decide) .nil))
  exact absurd ((h _ _ rfl _).2 hsat) (by decide +kernel)

end Pattern

end AccessPolicy
