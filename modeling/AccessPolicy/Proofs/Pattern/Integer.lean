import AccessPolicy.Pattern.Compile
import AccessPolicy.Proofs.Number.Integer

/-!
# Integers in patterns

An integer may stand in a pattern as a literal, as what a value must not be, and as the bound of a comparison.  In all
three places it is compared with an integer of an event by the doubles nearest to the two, that is by the integers that
`Double.roundInt` makes of them.  So two integers are compared by their own values exactly when they are the same or are
not rounded to the same double (`integers_compare`); those of up to 53 binary digits always are.
-/

namespace AccessPolicy.Pattern

open Double

/-- The integer fits in 64 bits, with a sign or without one. -/
def FitsWord (n : Int) : Prop := -2 ^ 63 ≤ n ∧ n < 2 ^ 64

/-- What the symbol of a comparison says of an integer and of the one after the symbol. -/
def Relates (symbol : String) (value bound : Int) : Prop :=
  match symbol with
  | "=" => value = bound
  | "<" => value < bound
  | "<=" => value ≤ bound
  | ">" => bound < value
  | ">=" => bound ≤ value
  | _ => False

/-- The element of a leaf is an alternative, and an integer satisfies it exactly when the condition holds. -/
def SatisfiedIff (element : Json) (value : Int) (condition : Prop) : Prop :=
  ∃ a, alternative element = .ok a ∧ (a.accepts (some (.ofInt value)) = true ↔ condition)

/-- In a pattern, an integer is compared with one of an event by what the measure makes of them. -/
structure ComparedBy (measure : Int → Int) (bound value : Int) : Prop where
  literal : SatisfiedIff (.ofInt bound) value (measure value = measure bound)
  exclusion : SatisfiedIff (.object [("anything-but", .ofInt bound)]) value (measure value ≠ measure bound)
  comparison : ∀ symbol ∈ ["=", "<", "<=", ">", ">="],
    SatisfiedIff (.object [("numeric", .array [.string symbol, .ofInt bound])]) value
      (Relates symbol (measure value) (measure bound))

theorem SatisfiedIff.congr {element : Json} {value : Int} {condition condition' : Prop}
    (h : SatisfiedIff element value condition) (hiff : condition ↔ condition') :
    SatisfiedIff element value condition' := by
  obtain ⟨a, ha, haccepts⟩ := h
  exact ⟨a, ha, haccepts.trans hiff⟩

/-- An alternative has one condition. -/
theorem SatisfiedIff.unique {element : Json} {value : Int} {condition condition' : Prop}
    (h : SatisfiedIff element value condition) (h' : SatisfiedIff element value condition') :
    condition ↔ condition' := by
  obtain ⟨a, ha, haccepts⟩ := h
  obtain ⟨a', ha', haccepts'⟩ := h'
  rw [ha] at ha'
  cases ha'
  exact haccepts.symm.trans haccepts'

/-! ### What the comparisons see -/

theorem same_ofInt (a b : Int) : (Json.ofInt a).same (.ofInt b) = true ↔ roundInt b = roundInt a :=
  (close_ofInt a b).trans eq_comm

theorem lt_ofInt (a b : Int) : (Double.ofInt a).lt (.ofInt b) = true ↔ roundInt a < roundInt b := by
  rw [Double.lt, decide_eq_true_eq, signed_ofInt_lt]

theorem le_ofInt (a b : Int) : (Double.ofInt a).le (.ofInt b) = true ↔ roundInt a ≤ roundInt b := by
  rw [Double.le, decide_eq_true_eq, ← not_lt, signed_ofInt_lt, not_lt]

theorem holds_ofInt {symbol : String} {comparison : Comparison} (h : Comparison.ofSymbol? symbol = some comparison)
    (value bound : Int) :
    comparison.holds (.ofInt value) (.ofInt bound) = true ↔ Relates symbol (roundInt value) (roundInt bound) := by
  unfold Comparison.ofSymbol? at h
  split at h <;> cases h
  · exact close_ofInt value bound
  · exact lt_ofInt value bound
  · exact le_ofInt value bound
  · exact lt_ofInt bound value
  · exact le_ofInt bound value

/-- One bound with any symbol. -/
theorem satisfiedIff_numeric {symbol : String} {comparison : Comparison}
    (h : Comparison.ofSymbol? symbol = some comparison) (bound value : Int) :
    SatisfiedIff (.object [("numeric", .array [.string symbol, .ofInt bound])]) value
      (Relates symbol (roundInt value) (roundInt bound)) := by
  have hbound : bound? (.string symbol) (.ofInt bound) = some (comparison, .ofInt bound) := by
    simp [bound?, Json.asString?, Json.asNumber?, Json.ofInt, Number.toDouble, h]
  have hread : alternative (.object [("numeric", .array [.string symbol, .ofInt bound])]) =
      .ok (.passes (.numeric [(comparison, .ofInt bound)])) := by
    simp only [alternative, operatorTest, numericTest, hbound]
    rfl
  refine ⟨_, hread, ?_⟩
  rw [← holds_ofInt h value bound]
  simp [Alternative.accepts, Test.accepts, Json.ofInt, Number.toDouble]

theorem comparedBy_roundInt (bound value : Int) : ComparedBy roundInt bound value where
  literal := ⟨_, rfl, same_ofInt bound value⟩
  exclusion := by
    refine ⟨_, rfl, ?_⟩
    show (!([Json.ofInt bound].any (·.same (.ofInt value)))) = true ↔ _
    rw [List.any_cons, List.any_nil, Bool.or_false, Bool.not_eq_true', ← Bool.not_eq_true, same_ofInt]
  comparison symbol hsymbol := by
    have hknown : ∃ comparison, Comparison.ofSymbol? symbol = some comparison := by
      simp only [List.mem_cons, List.not_mem_nil, or_false] at hsymbol
      rcases hsymbol with rfl | rfl | rfl | rfl | rfl <;> exact ⟨_, rfl⟩
    obtain ⟨comparison, hcomparison⟩ := hknown
    exact satisfiedIff_numeric hcomparison bound value

/-! ### When rounding makes no difference -/

theorem roundInt_eq_iff {a b : Int} (h : a = b ∨ roundInt a ≠ roundInt b) : roundInt a = roundInt b ↔ a = b :=
  ⟨fun heq => h.resolve_right fun hne => hne heq, fun heq => heq ▸ rfl⟩

theorem relates_roundInt {value bound : Int} (h : value = bound ∨ roundInt value ≠ roundInt bound) (symbol : String) :
    Relates symbol (roundInt value) (roundInt bound) ↔ Relates symbol value bound := by
  have hequal := roundInt_eq_iff h
  have hbelow := roundInt_lt_iff h
  have habove := roundInt_lt_iff (a := bound) (b := value) (by omega)
  unfold Relates
  split
  case h_6 => exact Iff.rfl
  all_goals omega

/-- Integers in a pattern and in an event are compared by their rounded values.  This is a comparison by their own
values exactly when they are the same or differ after rounding, and so it is for all integers of up to 53 binary
digits. -/
theorem integers_compare (bound value : Int) :
    ComparedBy roundInt bound value ∧
      (ComparedBy id bound value ↔ value = bound ∨ roundInt value ≠ roundInt bound) ∧
      (bound.natAbs ≤ 2 ^ 53 → value.natAbs ≤ 2 ^ 53 → ComparedBy id bound value) := by
  have hrounded := comparedBy_roundInt bound value
  have hexact : value = bound ∨ roundInt value ≠ roundInt bound → ComparedBy id bound value := by
    intro h
    have hequal := roundInt_eq_iff h
    exact {
      literal := hrounded.literal.congr hequal
      exclusion := hrounded.exclusion.congr (not_congr hequal)
      comparison := fun symbol hsymbol => (hrounded.comparison symbol hsymbol).congr (relates_roundInt h symbol) }
  refine ⟨hrounded, ⟨fun h => ?_, hexact⟩, fun hbound hvalue => hexact ?_⟩
  · -- both measures give the condition of the literal
    have hsame : roundInt value = roundInt bound ↔ value = bound := hrounded.literal.unique h.literal
    by_cases heq : value = bound
    · exact .inl heq
    · exact .inr fun hround => heq (hsame.1 hround)
  · rw [roundInt_of_natAbs_le hbound, roundInt_of_natAbs_le hvalue]
    exact em _

/-- Here the integers are still told apart. -/
theorem integers_compare_edge :
    (2 ^ 53 : Int).natAbs ≤ 2 ^ 53 ∧ (1 - 2 ^ 53 : Int).natAbs ≤ 2 ^ 53 ∧ ComparedBy id (2 ^ 53) (1 - 2 ^ 53) := by
  have hbound : (2 ^ 53 : Int).natAbs ≤ 2 ^ 53 := by decide
  have hvalue : (1 - 2 ^ 53 : Int).natAbs ≤ 2 ^ 53 := by decide
  exact ⟨hbound, hvalue, (integers_compare _ _).2.2 hbound hvalue⟩

/-- Here they are not: the literal is satisfied by the integer before it. -/
theorem not_integers_compare : ¬∀ bound value : Int, FitsWord bound → FitsWord value → ComparedBy id bound value := by
  intro h
  have hexact := h (2 ^ 53 + 1) (2 ^ 53) ⟨by decide, by decide⟩ ⟨by decide, by decide⟩
  have hdiffer : (2 ^ 53 : Int) = 2 ^ 53 + 1 ∨ roundInt (2 ^ 53) ≠ roundInt (2 ^ 53 + 1) :=
    (integers_compare _ _).2.1.1 hexact
  exact absurd hdiffer (by decide +kernel)

end AccessPolicy.Pattern
