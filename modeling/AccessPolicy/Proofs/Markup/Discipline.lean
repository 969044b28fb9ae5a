import AccessPolicy.Proofs.Markup.Scanner
import AccessPolicy.Proofs.Markup.Tiling

/-!
# Attributes stand in tags

The mode of the scanner can be told from the tokens: an attribute or the end of an open tag comes from a step in a tag,
any other token from one between tags, and after the start of a tag or an attribute a tag is open (`modes_of_step`).  So
the tokens of a text follow one another as `Disciplined` has it, mode by mode, and in the stream as a whole each open
tag goes on with attributes to its end, and no attribute or end of a tag stands anywhere else (`tagDiscipline`).
-/

namespace AccessPolicy.Markup

/-! ### Tokens and modes -/

def Token.isAttr : Token → Bool
  | attr _ _ => true
  | _ => false

/-- Tokens that belong to an open tag and come after its start. -/
def Token.standsInTag : Token → Bool
  | attr _ _ | tagEnd | selfClose => true
  | _ => false

/-- What can come behind the attributes of a tag: its end, or a fault or the end of the text. -/
def Token.endsAttributes : Token → Bool
  | tagEnd | selfClose | fault _ | endOfText => true
  | _ => false

/-- The mode in which scanning goes on after a token. -/
def Token.modeAfter : Token → Mode
  | openTag _ | attr _ _ => .tag
  | _ => .content

theorem Token.isFault_of_goesOn {t : Token} (h : t.goesOn = true) : t.isFault = false := by
  cases t with
  | fault f => cases h
  | _ => rfl

theorem modes_of_step {mode next : Mode} {position : Nat} {cs source rest : List Char} {token : Token}
    (h : step mode position cs = .emit source token next rest) :
    (token.standsInTag = true ↔ mode = .tag) ∧ token.modeAfter = next := by
  rcases emit_cases h with hspells | ⟨rfl, rfl, ⟨core, rfl | rfl⟩, -⟩
  · cases hspells <;> simp [Token.standsInTag, Token.modeAfter]
  · simp [Token.standsInTag, Token.modeAfter]
  · simp [Token.standsInTag, Token.modeAfter]

/-- Tokens that can follow one another from a mode on, up to the end of the text. -/
inductive Disciplined : Mode → List Token → Prop
  | endOfText {mode : Mode} : Disciplined mode [.endOfText]
  | fault {mode : Mode} {f : Fault} : Disciplined mode [.fault f, .endOfText]
  | token {mode : Mode} {t : Token} {ts : List Token} : t.goesOn = true → (t.standsInTag = true ↔ mode = .tag) →
    Disciplined t.modeAfter ts → Disciplined mode (t :: ts)

theorem disciplined_lexemesFrom (mode : Mode) (position : Nat) (gap cs : List Char) :
    Disciplined mode ((lexemesFrom mode position gap cs).map Lexeme.token) := by
  fun_induction lexemesFrom mode position gap cs with
  | case1 mode position gap cs h => exact .endOfText
  | case2 mode position gap cs skipped rest h ih => exact ih
  | case3 mode position gap cs source token next rest h ih =>
    obtain ⟨hmode, rfl⟩ := modes_of_step h
    exact .token (goesOn_of_step h) hmode ih
  | case4 mode position gap cs source fault rest h => exact .fault

/-! ### From one mode to the whole stream -/

namespace Disciplined

variable {mode : Mode} {before after ts : List Token} {t : Token}

/-- In a tag comes an attribute or the end of the tag, unless the text breaks off. -/
theorem head_tag (h : Disciplined .tag (t :: ts)) :
    t.standsInTag = true ∨ t.isFault = true ∨ t = .endOfText ∧ ts = [] := by
  cases h with
  | endOfText => exact .inr (.inr ⟨rfl, rfl⟩)
  | fault => exact .inr (.inl rfl)
  | token _ hmode _ => exact .inl (hmode.2 rfl)

/-- What stands in a tag stands there in the mode for tags. -/
theorem mode_eq (h : Disciplined mode (t :: ts)) (ht : t.standsInTag = true) : mode = .tag := by
  cases h with
  | endOfText => cases ht
  | fault => cases ht
  | token _ hmode _ => exact hmode.1 ht

theorem tail (h : Disciplined mode (t :: ts)) (ht : t.goesOn = true) : Disciplined t.modeAfter ts := by
  cases h with
  | endOfText => cases ht
  | fault => cases ht
  | token _ _ htail => exact htail

/-- A token with more to come is a fault before the end of the text, or the stream goes on in the mode after it. -/
theorem cons_cases (h : Disciplined mode (t :: ts)) (hts : ts ≠ []) : (t.isFault = true ∧ ts = [.endOfText]) ∨
    t.goesOn = true ∧ (t.standsInTag = true ↔ mode = .tag) ∧ Disciplined t.modeAfter ts := by
  cases h with
  | endOfText => exact absurd rfl hts
  | fault => exact .inl ⟨rfl, rfl⟩
  | token hgoes hmode htail => exact .inr ⟨hgoes, hmode, htail⟩

/-- The stream from some token on is that of some mode. -/
theorem drop (h : Disciplined mode (before ++ t :: after)) : ∃ mode', Disciplined mode' (t :: after) := by
  induction before generalizing mode with
  | nil => exact ⟨mode, h⟩
  | cons b before ih =>
    rcases h.cons_cases (by simp) with ⟨-, hlast⟩ | ⟨-, -, htail⟩
    · obtain ⟨rfl, hrest⟩ := (List.append_eq_singleton_iff.1 hlast).resolve_right (by simp)
      rw [hrest]
      exact ⟨.content, .endOfText⟩
    · exact ih htail

theorem exists_attributes (h : Disciplined .tag ts) : ∃ attributes last rest, ts = attributes ++ last :: rest ∧
    (∀ a ∈ attributes, a.isAttr = true) ∧ last.endsAttributes = true := by
  induction ts with
  | nil => cases h
  | cons t ts ih =>
    rcases h.head_tag with ht | ht | ⟨rfl, rfl⟩
    · cases t with
      | attr name value =>
        obtain ⟨attributes, last, rest, rfl, hattributes, hlast⟩ := ih (h.tail rfl)
        exact ⟨.attr name value :: attributes, last, rest, rfl, by simpa [Token.isAttr] using hattributes, hlast⟩
      | tagEnd => exact ⟨[], _, ts, rfl, by simp, rfl⟩
      | selfClose => exact ⟨[], _, ts, rfl, by simp, rfl⟩
      | _ => cases ht
    · cases t with
      | fault f => exact ⟨[], _, ts, rfl, by simp, rfl⟩
      | _ => cases ht
    · exact ⟨[], _, [], rfl, by simp, rfl⟩

/-- What stands in a tag has only attributes before it, back to the start of that tag or of the stream. -/
theorem exists_openTag (h : Disciplined mode (before ++ t :: after)) (ht : t.standsInTag = true) :
    (mode = .tag ∧ ∀ a ∈ before, a.isAttr = true) ∨
      ∃ earlier name attributes, before = earlier ++ .openTag name :: attributes ∧
        ∀ a ∈ attributes, a.isAttr = true := by
  induction before generalizing mode with
  | nil => exact .inl ⟨h.mode_eq ht, by simp⟩
  | cons b before ih =>
    rcases h.cons_cases (by simp) with ⟨-, hlast⟩ | ⟨-, hmode, htail⟩
    · -- only the end of the text comes after a fault
      obtain ⟨-, hrest⟩ := (List.append_eq_singleton_iff.1 hlast).resolve_right (by simp)
      obtain ⟨rfl, -⟩ := List.cons.inj hrest
      cases ht
    · rcases ih htail with ⟨hafter, hattributes⟩ | ⟨earlier, name, attributes, rfl, hattributes⟩
      · cases b with
        | openTag name => exact .inr ⟨[], name, before, rfl, hattributes⟩
        | attr name value => exact .inl ⟨hmode.1 rfl, by simpa [Token.isAttr] using hattributes⟩
        | _ => cases hafter
      · exact .inr ⟨b :: earlier, name, attributes, rfl, hattributes⟩

/-- Nothing but the end of the text comes after a fault, and no other fault before it. -/
theorem of_fault {f : Fault} (h : Disciplined mode (before ++ .fault f :: after)) :
    after = [.endOfText] ∧ ∀ b ∈ before, b.isFault = false := by
  induction before generalizing mode with
  | nil =>
    cases h with
    | fault => exact ⟨rfl, by simp⟩
    | token hgoes _ _ => cases hgoes
  | cons b before ih =>
    rcases h.cons_cases (by simp) with ⟨-, hlast⟩ | ⟨hgoes, -, htail⟩
    · obtain ⟨-, hrest⟩ := (List.append_eq_singleton_iff.1 hlast).resolve_right (by simp)
      cases hrest
    · obtain ⟨hafter, hbefore⟩ := ih htail
      exact ⟨hafter, List.forall_mem_cons.2 ⟨Token.isFault_of_goesOn hgoes, hbefore⟩⟩

end Disciplined

/-- Where the tokens that belong to tags stand in a stream. -/
structure TagDiscipline (ts : List Token) : Prop where
  /-- The start of a tag is followed by its attributes, and these by its end, a fault or the end of the text. -/
  closed : ∀ before name after, ts = before ++ .openTag name :: after →
    ∃ attributes last rest, after = attributes ++ last :: rest ∧ (∀ a ∈ attributes, a.isAttr = true) ∧
      last.endsAttributes = true
  /-- Attributes and ends of tags follow the start of a tag, with only attributes between. -/
  opened : ∀ before t after, ts = before ++ t :: after → t.standsInTag = true →
    ∃ earlier name attributes, before = earlier ++ .openTag name :: attributes ∧ ∀ a ∈ attributes, a.isAttr = true

/-- A stream that begins between tags keeps to tags throughout. -/
theorem Disciplined.tagDiscipline {ts : List Token} (h : Disciplined .content ts) : TagDiscipline ts where
  closed := by
    rintro before name after rfl
    obtain ⟨mode, hrest⟩ := h.drop
    exact (hrest.tail rfl).exists_attributes
  opened := by
    rintro before t after rfl ht
    exact (h.exists_openTag ht).resolve_left (fun hfirst => by cases hfirst.1)

theorem tagDiscipline (document : String) : TagDiscipline ((tokens document).map Prod.fst) := by
  rw [tokens, map_fst_locate]
  exact (disciplined_lexemesFrom .content 0 [] document.toList).tagDiscipline

end AccessPolicy.Markup
