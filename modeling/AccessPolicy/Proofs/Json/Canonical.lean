import AccessPolicy.Json.Reader
import Mathlib.Data.List.Basic
import Mathlib.Data.String.Basic

/-!
# Values as they are read

In a value that was read from a text the fields of every object stand in ascending order of their names, one field to a
name (`canonical_of_parse?`).  Each field goes to its place when it is read (`pairwise_setField`), so the values on the
stack of the reader are in order at every token, and at the end the one that is left is.
-/

namespace AccessPolicy.Json

/-- A value that is no array and no object. -/
inductive Plain : Json → Prop
  | null : Plain .null
  | bool (b : Bool) : Plain (.bool b)
  | number (n : Number) : Plain (.number n)
  | string (s : String) : Plain (.string s)

theorem plain_iff {value : Json} : value.Plain ↔ value.isArray = false ∧ value.isObject = false := by
  constructor
  · intro h
    cases h <;> exact ⟨rfl, rfl⟩
  · rintro ⟨harray, hobject⟩
    cases value with
    | null => exact .null
    | bool b => exact .bool b
    | number n => exact .number n
    | string s => exact .string s
    | array items => cases harray
    | object fields => cases hobject

/-- In every object in it, at any depth, the fields stand in ascending order of their names, one field to a name. -/
inductive Canonical : Json → Prop
  | plain {value : Json} : value.Plain → Canonical value
  | array {items : List Json} : (∀ item ∈ items, Canonical item) → Canonical (.array items)
  | object {fields : List (String × Json)} : (fields.map Prod.fst).Pairwise (· < ·) →
    (∀ field ∈ fields, Canonical field.2) → Canonical (.object fields)

theorem canonical_array {items : List Json} : (Json.array items).Canonical ↔ ∀ item ∈ items, item.Canonical := by
  constructor
  · intro h
    cases h with
    | plain h => cases h
    | array h => exact h
  · exact .array

theorem canonical_object {fields : List (String × Json)} : (Json.object fields).Canonical ↔
    (fields.map Prod.fst).Pairwise (· < ·) ∧ ∀ field ∈ fields, field.2.Canonical := by
  constructor
  · intro h
    cases h with
    | plain h => cases h
    | object hsorted h => exact ⟨hsorted, h⟩
  · rintro ⟨hsorted, h⟩
    exact .object hsorted h

/-! ### Fields in their place -/

theorem mem_setField {key : String} {value : Json} {field : String × Json} {fields : List (String × Json)}
    (h : field ∈ setField key value fields) : field = (key, value) ∨ field ∈ fields := by
  induction fields with
  | nil => exact .inl (List.mem_singleton.1 h)
  | cons first fields ih =>
    rw [setField] at h
    split at h
    · exact List.mem_cons.1 h
    · split at h
      · exact (List.mem_cons.1 h).imp_right (List.mem_cons_of_mem _)
      · rcases List.mem_cons.1 h with heq | h
        · exact .inr (heq ▸ List.mem_cons_self)
        · exact (ih h).imp_right (List.mem_cons_of_mem _)

theorem pairwise_setField {key : String} {value : Json} {fields : List (String × Json)}
    (h : (fields.map Prod.fst).Pairwise (· < ·)) : ((setField key value fields).map Prod.fst).Pairwise (· < ·) := by
  induction fields with
  | nil => exact List.pairwise_singleton _ _
  | cons field fields ih =>
    obtain ⟨hfirst, hrest⟩ := List.pairwise_cons.1 h
    rw [setField]
    split
    · rename_i hlt
      refine List.pairwise_cons.2 ⟨?_, h⟩
      intro k hk
      rcases List.mem_cons.1 hk with rfl | hk
      · exact hlt
      · exact hlt.trans (hfirst k hk)
    · rename_i hnlt
      split
      · rename_i heq
        subst heq
        exact h
      · rename_i hne
        refine List.pairwise_cons.2 ⟨?_, ih hrest⟩
        intro k hk
        obtain ⟨field', hmem, rfl⟩ := List.mem_map.1 hk
        rcases mem_setField hmem with rfl | hmem
        · exact lt_of_le_of_ne (not_lt.1 hnlt) (Ne.symm hne)
        · exact hfirst _ (List.mem_map_of_mem hmem)

theorem canonical_setField {key : String} {value : Json} {fields : List (String × Json)}
    (hvalue : value.Canonical) (h : (Json.object fields).Canonical) :
    (Json.object (setField key value fields)).Canonical := by
  obtain ⟨hsorted, hfields⟩ := canonical_object.1 h
  refine .object (pairwise_setField hsorted) fun field hmem => ?_
  rcases mem_setField hmem with rfl | hmem
  · exact hvalue
  · exact hfields field hmem

/-! ### Tokens -/

/-- What holds at the start of a fold that does not fail and is kept by each step holds at its end. -/
theorem foldlM_invariant {α β : Type} {step : β → α → Option β} {I : β → Prop} {as : List α} {b b' : β}
    (h : as.foldlM step b = some b') (hstep : ∀ a ∈ as, ∀ b b', step b a = some b' → I b → I b') (hb : I b) : I b' := by
  induction as generalizing b with
  | nil =>
    cases h
    exact hb
  | cons a as ih =>
    rw [List.foldlM_cons] at h
    obtain ⟨c, hc, h⟩ := Option.bind_eq_some_iff.1 h
    exact ih h (fun a ha => hstep a (List.mem_cons_of_mem _ ha)) (hstep a List.mem_cons_self b c hc hb)

/-- Atoms have no parts. -/
def Token.Simple : Token → Prop
  | .atom value => value.Plain
  | _ => True

theorem plain_of_readWord {letters : List Char} {value : Json} (h : readWord letters = some value) : value.Plain := by
  unfold readWord at h
  split at h <;> cases h
  · exact .bool true
  · exact .bool false
  · exact .null

namespace Scanner

variable {tokens : List Token} {scanner scanner' : Scanner} {c : Char}

theorem simple_of_start (h : start tokens c = some scanner) (htokens : ∀ token ∈ tokens, token.Simple) :
    ∀ token ∈ scanner.tokens, token.Simple := by
  unfold start at h
  split at h
  case h_8 =>
    split_ifs at h <;> cases h <;> exact htokens
  case h_7 =>
    cases h
    exact htokens
  all_goals
    cases h
    exact List.forall_mem_cons.2 ⟨trivial, htokens⟩

theorem simple_of_feed (h : scanner.feed c = some scanner') (hscanner : ∀ token ∈ scanner.tokens, token.Simple) :
    ∀ token ∈ scanner'.tokens, token.Simple := by
  unfold feed at h
  split at h
  · exact simple_of_start h hscanner
  · split_ifs at h
    · cases h
      exact hscanner
    · obtain ⟨value, hvalue, h⟩ := Option.bind_eq_some_iff.1 h
      exact simple_of_start h (List.forall_mem_cons.2 ⟨plain_of_readWord hvalue, hscanner⟩)
  · split_ifs at h
    · cases h
      exact hscanner
    · obtain ⟨value, -, h⟩ := Option.bind_eq_some_iff.1 h
      exact simple_of_start h (List.forall_mem_cons.2 ⟨.number value, hscanner⟩)
  · split_ifs at h
    · obtain ⟨s, -, h⟩ := Option.bind_eq_some_iff.1 h
      cases h
      exact List.forall_mem_cons.2 ⟨.string _, hscanner⟩
    all_goals
      cases h
      exact hscanner
  · split_ifs at h
    · cases h
      exact hscanner
    · obtain ⟨e, -, h⟩ := Option.bind_eq_some_iff.1 h
      cases h
      exact hscanner
  · obtain ⟨d, -, h⟩ := Option.bind_eq_some_iff.1 h
    split_ifs at h <;> cases h <;> exact hscanner

theorem simple_of_finish (h : scanner.finish = some tokens) (hscanner : ∀ token ∈ scanner.tokens, token.Simple) :
    ∀ token ∈ tokens, token.Simple := by
  unfold finish at h
  split at h
  · cases h
    exact fun token htoken => hscanner token (List.mem_reverse.1 htoken)
  · obtain ⟨value, hvalue, h⟩ := Option.bind_eq_some_iff.1 h
    cases h
    have hall : ∀ token ∈ Token.atom value :: scanner.tokens, token.Simple :=
      List.forall_mem_cons.2 ⟨plain_of_readWord hvalue, hscanner⟩
    exact fun token htoken => hall token (List.mem_reverse.1 htoken)
  · obtain ⟨value, -, h⟩ := Option.bind_eq_some_iff.1 h
    cases h
    have hall : ∀ token ∈ Token.atom (.number value) :: scanner.tokens, token.Simple :=
      List.forall_mem_cons.2 ⟨.number value, hscanner⟩
    exact fun token htoken => hall token (List.mem_reverse.1 htoken)
  · cases h

end Scanner

theorem simple_of_tokens? {text : List Char} {tokens : List Token} (h : tokens? text = some tokens) :
    ∀ token ∈ tokens, token.Simple := by
  obtain ⟨scanner, hscanner, h⟩ := Option.bind_eq_some_iff.1 h
  have hinvariant : ∀ token ∈ scanner.tokens, token.Simple := by
    refine foldlM_invariant (I := fun s : Scanner => ∀ token ∈ s.tokens, token.Simple) hscanner ?_ ?_
    · intro c _ s s' hfeed hs
      exact Scanner.simple_of_feed hfeed hs
    · intro token htoken
      cases htoken
  exact Scanner.simple_of_finish h hinvariant

/-! ### The stack of the reader -/

/-- The values that a frame holds so far. -/
def Frame.Canonical : Frame → Prop
  | .array items => ∀ item ∈ items, item.Canonical
  | .object fields => (Json.object fields).Canonical
  | .field fields _ => (Json.object fields).Canonical

namespace Builder

structure Canonical (builder : Builder) : Prop where
  stack : ∀ frame ∈ builder.stack, frame.Canonical
  root : ∀ root, builder.expected = .nothing root → root.Canonical

variable {depth : Nat} {builder builder' : Builder} {stack : List Frame} {token : Token} {value : Json}

theorem canonical_of_complete (h : complete value stack = some builder) (hvalue : value.Canonical)
    (hstack : ∀ frame ∈ stack, frame.Canonical) : builder.Canonical := by
  unfold complete at h
  split at h <;> cases h
  · exact ⟨nofun, fun _ heq => by cases heq; exact hvalue⟩
  · obtain ⟨hitems, hstack⟩ := List.forall_mem_cons.1 hstack
    exact ⟨List.forall_mem_cons.2 ⟨List.forall_mem_cons.2 ⟨hvalue, hitems⟩, hstack⟩, nofun⟩
  · obtain ⟨hfields, hstack⟩ := List.forall_mem_cons.1 hstack
    exact ⟨List.forall_mem_cons.2 ⟨canonical_setField hvalue hfields, hstack⟩, nofun⟩

theorem canonical_of_beginValue (h : beginValue depth stack token = some builder) (htoken : token.Simple)
    (hstack : ∀ frame ∈ stack, frame.Canonical) : builder.Canonical := by
  unfold beginValue at h
  split at h
  · split_ifs at h
    cases h
    exact ⟨List.forall_mem_cons.2 ⟨nofun, hstack⟩, nofun⟩
  · split_ifs at h
    cases h
    exact ⟨List.forall_mem_cons.2 ⟨.object .nil nofun, hstack⟩, nofun⟩
  · exact canonical_of_complete h (.plain htoken) hstack
  · cases h

theorem canonical_of_beginKey (h : beginKey stack token = some builder) (hstack : ∀ frame ∈ stack, frame.Canonical) :
    builder.Canonical := by
  unfold beginKey at h
  split at h <;> cases h
  obtain ⟨hfields, hstack⟩ := List.forall_mem_cons.1 hstack
  exact ⟨List.forall_mem_cons.2 ⟨hfields, hstack⟩, nofun⟩

theorem canonical_of_endValue (h : endValue stack token = some builder) (hstack : ∀ frame ∈ stack, frame.Canonical) :
    builder.Canonical := by
  unfold endValue at h
  split at h
  · obtain ⟨hitems, hstack⟩ := List.forall_mem_cons.1 hstack
    exact canonical_of_complete h (.array fun item hitem => hitems item (List.mem_reverse.1 hitem)) hstack
  · obtain ⟨hfields, hstack⟩ := List.forall_mem_cons.1 hstack
    exact canonical_of_complete h hfields hstack
  · cases h

theorem canonical_of_feed (h : feed depth builder token = some builder') (htoken : token.Simple)
    (hbuilder : builder.Canonical) : builder'.Canonical := by
  have hstack := hbuilder.stack
  unfold feed at h
  dsimp only at h
  split at h
  · exact canonical_of_beginValue h htoken hstack
  · rcases Option.or_eq_some_iff.1 h with h | ⟨-, h⟩
    · exact canonical_of_beginValue h htoken hstack
    · exact canonical_of_endValue h hstack
  · rcases Option.or_eq_some_iff.1 h with h | ⟨-, h⟩
    · exact canonical_of_beginKey h hstack
    · exact canonical_of_endValue h hstack
  · exact canonical_of_beginKey h hstack
  · split at h <;> cases h
    exact ⟨hstack, nofun⟩
  · split at h
    · cases h
      exact ⟨hstack, nofun⟩
    · cases h
      exact ⟨hstack, nofun⟩
    · exact canonical_of_endValue h hstack
  · cases h

end Builder

theorem canonical_of_ofTokens? {depth : Nat} {tokens : List Token} {value : Json}
    (h : ofTokens? depth tokens = some value) (htokens : ∀ token ∈ tokens, token.Simple) : value.Canonical := by
  obtain ⟨builder, hbuilder, h⟩ := Option.bind_eq_some_iff.1 h
  have hcanonical : builder.Canonical :=
    foldlM_invariant hbuilder (fun token htoken _ _ hfeed => Builder.canonical_of_feed hfeed (htokens token htoken))
      ⟨nofun, nofun⟩
  split at h <;> cases h
  exact hcanonical.root _ ‹_›

theorem canonical_of_parse? {text : String} {value : Json} (h : parse? text = some value) : value.Canonical := by
  obtain ⟨tokens, htokens, h⟩ := Option.bind_eq_some_iff.1 h
  exact canonical_of_ofTokens? h (simple_of_tokens? htokens)

end AccessPolicy.Json
