import Mathlib.Data.List.Basic
import AccessPolicy.Glob

/-!
# The texts of a glob

`Glob.Matches` says which texts a glob has: an asterisk stands for a run of any length, and any other character for
itself.  Which characters a run may hold is left open.  The expression that a glob is written as reads back as the parts
of the glob (`compile_source`), and it accepts the texts of the glob whose runs hold no line feed (`accepts_iff`).
-/

namespace AccessPolicy

/-! ### What an expression matches -/

namespace Regex

/-- The text is matched by the parts, one after the other; a run holds no line feed. -/
inductive Matches : List Part → List Char → Prop
  | nil : Matches [] []
  | char {c : Char} {parts : List Part} {text : List Char} : Matches parts text →
    Matches (.char c :: parts) (c :: text)
  | run {stretch text : List Char} {parts : List Part} : '\n' ∉ stretch → Matches parts text →
    Matches (.run :: parts) (stretch ++ text)

/-- A run is empty, or it goes on with one more character. -/
theorem matches_run {parts : List Part} {text : List Char} :
    Matches (.run :: parts) text ↔
      Matches parts text ∨ ∃ c rest, text = c :: rest ∧ c ≠ '\n' ∧ Matches (.run :: parts) rest := by
  constructor
  · intro h
    cases h with
    | @run stretch rest _ hline hrest =>
      cases stretch with
      | nil => exact .inl hrest
      | cons c stretch =>
        obtain ⟨hc, hline⟩ := not_or.1 (List.mem_cons.not.1 hline)
        exact .inr ⟨c, stretch ++ rest, rfl, Ne.symm hc, .run hline hrest⟩
  · rintro (h | ⟨c, rest, rfl, hc, h⟩)
    · exact @Matches.run [] _ _ List.not_mem_nil h
    · cases h with
      | @run stretch rest _ hline hrest =>
        exact @Matches.run (c :: stretch) _ _ (by simp [Ne.symm hc, hline]) hrest

theorem matches_char {c : Char} {parts : List Part} {text : List Char} :
    Matches (.char c :: parts) text ↔ ∃ rest, text = c :: rest ∧ Matches parts rest := by
  constructor
  · intro h
    cases h with
    | char hrest => exact ⟨_, rfl, hrest⟩
  · rintro ⟨rest, rfl, h⟩
    exact .char h

theorem matches_nil {text : List Char} : Matches [] text ↔ text = [] := by
  constructor
  · intro h
    cases h
    rfl
  · rintro rfl
    exact .nil

theorem matchesEmpty_iff (parts : List Part) : matchesEmpty parts = true ↔ Matches parts [] := by
  induction parts with
  | nil => simp [matchesEmpty, matches_nil]
  | cons part parts ih =>
    cases part with
    | char c => simp [matchesEmpty, matches_char]
    | run =>
      rw [matches_run, ← ih]
      simp [matchesEmpty]

/-- What is left of the parts after a character matches just the texts that go on from there. -/
theorem mem_advance (c : Char) (parts : List Part) (text : List Char) :
    (∃ rest ∈ advance c parts, Matches rest text) ↔ Matches parts (c :: text) := by
  induction parts with
  | nil => simp [advance, matches_nil]
  | cons part parts ih =>
    cases part with
    | char d =>
      rw [matches_char, advance]
      by_cases hcd : c = d
      · simp [hcd]
      · simp [hcd]
    | run =>
      rw [matches_run, ← ih, advance]
      constructor
      · rintro ⟨rest, hmem, hrest⟩
        rcases List.mem_append.1 hmem with hmem | hmem
        · -- the run takes the character and stays
          split at hmem
          · exact absurd hmem List.not_mem_nil
          · rw [List.mem_singleton.1 hmem] at hrest
            exact .inr ⟨c, text, rfl, ‹_›, hrest⟩
        · exact .inl ⟨rest, hmem, hrest⟩
      · rintro (⟨rest, hmem, hrest⟩ | ⟨c', text', heq, hc, hrest⟩)
        · exact ⟨rest, List.mem_append_right _ hmem, hrest⟩
        · obtain ⟨rfl, rfl⟩ := List.cons.inj heq
          exact ⟨.run :: parts, List.mem_append_left _ (by simp [hc]), hrest⟩

theorem mem_remaining (ways : List (List Part)) (text : List Char) :
    (∃ rest ∈ remaining ways text, Matches rest []) ↔ ∃ parts ∈ ways, Matches parts text := by
  induction text generalizing ways with
  | nil => rfl
  | cons c text ih =>
    rw [show remaining ways (c :: text) = remaining ((ways.flatMap (advance c)).eraseDups) text from rfl, ih]
    constructor
    · rintro ⟨rest, hmem, hrest⟩
      obtain ⟨parts, hparts, hadv⟩ := List.mem_flatMap.1 (List.mem_eraseDups.1 hmem)
      exact ⟨parts, hparts, (mem_advance c parts text).1 ⟨rest, hadv, hrest⟩⟩
    · rintro ⟨parts, hparts, hmatch⟩
      obtain ⟨rest, hadv, hrest⟩ := (mem_advance c parts text).2 hmatch
      exact ⟨rest, List.mem_eraseDups.2 (List.mem_flatMap.2 ⟨parts, hparts, hadv⟩), hrest⟩

theorem accepts_iff (e : Regex) (text : String) : e.accepts text = true ↔ Matches e.parts text.toList := by
  have hread := mem_remaining [e.parts] text.toList
  simp only [List.mem_singleton, exists_eq_left] at hread
  rw [← hread, accepts, List.any_eq_true]
  exact exists_congr fun rest => and_congr_right fun _ => matchesEmpty_iff rest

end Regex

/-! ### What a glob stands for -/

namespace Glob

/-- The text is one of the glob's, with runs of the given characters for its asterisks. -/
inductive Matches (inRun : Char → Prop) : List Char → List Char → Prop
  | nil : Matches inRun [] []
  | star {run glob text : List Char} : (∀ c ∈ run, inRun c) → Matches inRun glob text →
    Matches inRun ('*' :: glob) (run ++ text)
  | char {c : Char} {glob text : List Char} : c ≠ '*' → Matches inRun glob text → Matches inRun (c :: glob) (c :: text)

variable {inRun : Char → Prop}

theorem matches_char {c : Char} (hc : c ≠ '*') {glob text : List Char} :
    Matches inRun (c :: glob) text ↔ ∃ rest, text = c :: rest ∧ Matches inRun glob rest := by
  constructor
  · intro h
    cases h with
    | star _ _ => exact absurd rfl hc
    | char _ hrest => exact ⟨_, rfl, hrest⟩
  · rintro ⟨rest, rfl, h⟩
    exact .char hc h

theorem matches_nil {text : List Char} : Matches inRun [] text ↔ text = [] := by
  constructor
  · intro h
    cases h
    rfl
  · rintro rfl
    exact .nil

/-- Which characters may be in a run matters only for those of the text. -/
theorem Matches.of_forall {inRun inRun' : Char → Prop} {glob text : List Char} (h : Matches inRun glob text)
    (himp : ∀ c ∈ text, inRun c → inRun' c) : Matches inRun' glob text := by
  induction h with
  | nil => exact .nil
  | star hrun _ ih =>
    exact .star (fun c hc => himp c (by simp [hc]) (hrun c hc)) (ih fun c hc => himp c (by simp [hc]))
  | char hne _ ih => exact .char hne (ih fun c hc => himp c (by simp [hc]))

/-! ### The expression of a glob -/

/-- What a character of a glob is in its expression. -/
def part (c : Char) : Regex.Part := if c = '*' then .run else .char c

/-- The expression that a glob is written as. -/
def regex (glob : String) : Regex := ⟨glob.toList.map part⟩

/-- By induction on the glob: the parts of its expression match its texts. -/
theorem matches_parts (glob : List Char) (text : List Char) :
    Regex.Matches (glob.map part) text ↔ Matches (· ≠ '\n') glob text := by
  induction glob generalizing text with
  | nil => rw [List.map_nil, Regex.matches_nil, matches_nil]
  | cons c glob ih =>
    by_cases hc : c = '*'
    · subst hc
      constructor
      · intro h
        cases h with
        | run hline hrest => exact .star (fun d hd heq => hline (heq ▸ hd)) ((ih _).1 hrest)
      · intro h
        cases h with
        | star hrun hrest => exact .run (fun hmem => hrun _ hmem rfl) ((ih _).2 hrest)
        | char hne _ => exact absurd rfl hne
    · have hpart : part c = .char c := if_neg hc
      rw [List.map_cons, hpart, Regex.matches_char, matches_char hc]
      simp only [ih]

/-- A character, escaped or not, is read as itself. -/
theorem readParts?_escapeChar (c : Char) (rest : List Char) :
    Regex.readParts? (Regex.escapeChar c ++ rest) = (Regex.readParts? rest).map (.char c :: ·) := by
  by_cases hc : c ∈ Regex.special
  · rw [Regex.escapeChar, if_pos hc]
    simp [Regex.readParts?, hc]
  · have hbackslash : c ≠ '\\' := fun h => hc (h ▸ by decide)
    have hdot : c ≠ '.' := fun h => hc (h ▸ by decide)
    have hdollar : c ≠ '$' := fun h => hc (h ▸ by decide)
    rw [Regex.escapeChar, if_neg hc]
    simp [Regex.readParts?, hc, hbackslash, hdot, hdollar]

/-- By induction on the glob: its pieces, escaped and joined, are read as its parts. -/
theorem readParts?_pieces (glob : List Char) :
    Regex.readParts? (['.', '*'].intercalate ((Text.splitEach '*' glob).map (·.flatMap Regex.escapeChar)) ++ ['$']) =
      some (glob.map part) := by
  induction glob with
  | nil => rfl
  | cons c glob ih =>
    obtain ⟨piece, pieces, hpieces⟩ := List.exists_cons_of_ne_nil (Text.splitEach_ne_nil '*' glob)
    rw [hpieces] at ih
    by_cases hc : c = '*'
    · subst hc
      rw [Text.splitEach, if_pos rfl, hpieces]
      simpa [List.intercalate, Regex.readParts?, part] using ih
    · have hpart : part c = .char c := if_neg hc
      have hread := readParts?_escapeChar c
        (['.', '*'].intercalate ((piece :: pieces).map (·.flatMap Regex.escapeChar)) ++ ['$'])
      rw [ih] at hread
      rw [Text.splitEach, if_neg hc, hpieces]
      cases pieces <;> simpa [List.intercalate, hpart] using hread

theorem read?_source (glob : String) : Regex.read? (source glob) = some (regex glob) := by
  have hsource : (source glob).toList = '^' ::
      (['.', '*'].intercalate ((Text.splitEach '*' glob.toList).map (·.flatMap Regex.escapeChar)) ++ ['$']) := by
    simp [source, Text.splitText, Regex.escape, String.toList_intercalate, Function.comp_def]
  rw [Regex.read?, hsource]
  simp only [readParts?_pieces]
  rfl

/-- The expression of a glob is taken for what the glob says, if the engine does not refuse it. -/
theorem compile_source [Regex.Engine] (glob : String) : Regex.compile (source glob) =
    match Regex.Engine.refusal? (source glob) with
    | some reason => .error reason
    | none => .ok (regex glob) := by
  rw [Regex.compile, read?_source]
  cases Regex.Engine.refusal? (source glob) <;> rfl

/-- What is made of the expression of a glob is what the glob says. -/
theorem eq_regex_of_compile [Regex.Engine] {glob : String} {e : Regex} (h : Regex.compile (source glob) = .ok e) :
    e = regex glob := by
  rw [compile_source] at h
  split at h <;> cases h
  rfl

/-- A text is accepted if it is one of the glob's, where no run goes over the end of a line. -/
theorem accepts_iff (glob text : String) :
    (regex glob).accepts text = true ↔ Matches (· ≠ '\n') glob.toList text.toList := by
  rw [Regex.accepts_iff, regex, matches_parts]

end Glob

end AccessPolicy
