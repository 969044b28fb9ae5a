import AccessPolicy.Pattern.Compile
import AccessPolicy.Proofs.Pattern.Glob
import AccessPolicy.Text.Split

/-!
# Wildcards as pieces and runs

The asterisks of a glob cut it into pieces, and its texts are the pieces with a run between each two of them (`Woven`).
This is the same as reading the glob character by character (`matches_iff_woven`).  A wildcard in a pattern accepts the
texts whose runs hold no line feed; that is every text of the glob if the text has none (`wildcard_iff`).
-/

namespace AccessPolicy

namespace Glob

/-- The pieces one after the other, with one of the runs between each two of them. -/
inductive Woven : List (List Char) → List (List Char) → List Char → Prop
  | last (piece : List Char) : Woven [piece] [] piece
  | cons (piece run : List Char) {pieces runs : List (List Char)} {text : List Char} : Woven pieces runs text →
    Woven (piece :: pieces) (run :: runs) (piece ++ run ++ text)

/-- The runs are parts of the text. -/
theorem Woven.mem_text {pieces runs : List (List Char)} {text : List Char} (h : Woven pieces runs text)
    {run : List Char} (hrun : run ∈ runs) {c : Char} (hc : c ∈ run) : c ∈ text := by
  induction h with
  | last piece => exact absurd hrun List.not_mem_nil
  | cons piece first _ ih =>
    rcases List.mem_cons.1 hrun with rfl | hrun
    · exact List.mem_append_left _ (List.mem_append_right _ hc)
    · exact List.mem_append_right _ (ih hrun)

/-- A character at the front of the first piece is at the front of the text. -/
theorem woven_cons_cons {c : Char} {piece : List Char} {pieces runs : List (List Char)} {text : List Char} :
    Woven ((c :: piece) :: pieces) runs text ↔ ∃ rest, text = c :: rest ∧ Woven (piece :: pieces) runs rest := by
  constructor
  · intro h
    cases h with
    | last _ => exact ⟨piece, rfl, .last piece⟩
    | cons _ run h => exact ⟨_, rfl, .cons piece run h⟩
  · rintro ⟨rest, rfl, h⟩
    cases h with
    | last _ => exact .last (c :: piece)
    | cons _ run h => exact .cons (c :: piece) run h

/-- Before an asterisk at the front there is an empty piece. -/
theorem woven_nil_cons {pieces runs : List (List Char)} {text : List Char} (hne : pieces ≠ []) :
    Woven ([] :: pieces) runs text ↔
      ∃ run more rest, runs = run :: more ∧ text = run ++ rest ∧ Woven pieces more rest := by
  constructor
  · intro h
    cases h with
    | last _ => exact absurd rfl hne
    | cons _ run h => exact ⟨run, _, _, rfl, rfl, h⟩
  · rintro ⟨run, more, rest, rfl, rfl, h⟩
    exact .cons [] run h

/-- The texts of a glob are its pieces with runs between them. -/
theorem matches_iff_woven {inRun : Char → Prop} {glob text : List Char} :
    Matches inRun glob text ↔
      ∃ runs, (∀ run ∈ runs, ∀ c ∈ run, inRun c) ∧ Woven (Text.splitEach '*' glob) runs text := by
  induction glob generalizing text with
  | nil =>
    rw [matches_nil]
    constructor
    · rintro rfl
      exact ⟨[], nofun, .last []⟩
    · rintro ⟨runs, -, h⟩
      cases h with
      | last _ => rfl
      | cons _ _ h => cases h
  | cons d glob ih =>
    have hne := Text.splitEach_ne_nil '*' glob
    rw [Text.splitEach]
    by_cases hd : d = '*'
    · subst hd
      rw [if_pos rfl]
      constructor
      · intro h
        cases h with
        | @star run _ rest hrun hrest =>
          obtain ⟨runs, hruns, hwoven⟩ := ih.1 hrest
          refine ⟨run :: runs, ?_, (woven_nil_cons hne).2 ⟨run, runs, rest, rfl, rfl, hwoven⟩⟩
          intro r hr
          rcases List.mem_cons.1 hr with rfl | hr
          · exact hrun
          · exact hruns r hr
        | char hchar _ => exact absurd rfl hchar
      · rintro ⟨runs, hruns, hwoven⟩
        obtain ⟨run, more, rest, rfl, rfl, hmore⟩ := (woven_nil_cons hne).1 hwoven
        have hrest := ih.2 ⟨more, fun r hr => hruns r (List.mem_cons_of_mem _ hr), hmore⟩
        exact .star (hruns run List.mem_cons_self) hrest
    · obtain ⟨piece, pieces, hpieces⟩ := List.exists_cons_of_ne_nil hne
      rw [if_neg hd, matches_char hd, hpieces]
      rw [hpieces] at ih
      simp only [woven_cons_cons, ih]
      constructor
      · rintro ⟨rest, heq, runs, hruns, hwoven⟩
        exact ⟨runs, hruns, rest, heq, hwoven⟩
      · rintro ⟨runs, hruns, rest, heq, hwoven⟩
        exact ⟨rest, heq, runs, hruns, hwoven⟩

end Glob

namespace Pattern

open Glob (Woven)

/-- A wildcard is refused where the engine refuses its expression, in the words of the engine. -/
theorem alternative_wildcard [Regex.Engine] (glob : String) :
    alternative (.object [("wildcard", .string glob)]) =
      match Regex.Engine.refusal? (Glob.source glob) with
      | some reason => .error (.wildcard glob reason)
      | none => .ok (.passes (.matchesWhole (Glob.regex glob))) := by
  simp only [alternative, operatorTest, textArgument, bind, Except.bind, Glob.compile_source]
  cases Regex.Engine.refusal? (Glob.source glob) <;> rfl

/-- Any text is the argument of a wildcard, and the wildcard accepts the texts that are its pieces with runs between
them, where no run goes over the end of a line.  For a text of one line the runs are any. -/
theorem wildcard_iff (glob text : String) :
    ∃ wildcard, alternative (.object [("wildcard", .string glob)]) = .ok wildcard ∧
      (wildcard.accepts (some (.string text)) = true ↔
        ∃ runs, (∀ run ∈ runs, '\n' ∉ run) ∧ Woven (Text.splitEach '*' glob.toList) runs text.toList) ∧
      ('\n' ∉ text.toList → (wildcard.accepts (some (.string text)) = true ↔
        ∃ runs, Woven (Text.splitEach '*' glob.toList) runs text.toList)) := by
  have haccepts : (Alternative.passes (.matchesWhole (Glob.regex glob))).accepts (some (.string text)) = true ↔
      ∃ runs, (∀ run ∈ runs, '\n' ∉ run) ∧ Woven (Text.splitEach '*' glob.toList) runs text.toList := by
    show (Glob.regex glob).accepts text = true ↔ _
    rw [Glob.accepts_iff, Glob.matches_iff_woven]
    have hline : ∀ run : List Char, (∀ c ∈ run, c ≠ '\n') ↔ '\n' ∉ run := by
      intro run
      exact ⟨fun h hmem => h _ hmem rfl, fun h c hc heq => h (heq ▸ hc)⟩
    simp only [hline]
  refine ⟨_, alternative_wildcard glob, haccepts, fun htext => haccepts.trans ?_⟩
  constructor
  · rintro ⟨runs, -, hwoven⟩
    exact ⟨runs, hwoven⟩
  · rintro ⟨runs, hwoven⟩
    exact ⟨runs, fun run hrun hmem => htext (hwoven.mem_text hrun hmem), hwoven⟩

/-- The first asterisk of `*.v1.*` takes two pieces of the text. -/
theorem wildcard_iff_version :
    '\n' ∉ "api.v1.v1.users".toList ∧
      ∃ wildcard, alternative (.object [("wildcard", .string "*.v1.*")]) = .ok wildcard ∧
        wildcard.accepts (some (.string "api.v1.v1.users")) = true ∧
        ∃ runs, Woven (Text.splitEach '*' "*.v1.*".toList) runs "api.v1.v1.users".toList := by
  have hline : '\n' ∉ "api.v1.v1.users".toList := by decide
  obtain ⟨wildcard, hread, -, hiff⟩ := wildcard_iff "*.v1.*" "api.v1.v1.users"
  have haccepts : wildcard.accepts (some (.string "api.v1.v1.users")) = true := by
    cases hread
    decide +kernel
  exact ⟨hline, wildcard, hread, haccepts, (hiff hline).1 haccepts⟩

/-- With runs of any characters the equivalence fails: a line feed between two pieces is a run, but not accepted. -/
theorem not_wildcard_iff : ¬∀ glob text wildcard, alternative (.object [("wildcard", .string glob)]) = .ok wildcard →
    (wildcard.accepts (some (.string text)) = true ↔
      ∃ runs, Woven (Text.splitEach '*' glob.toList) runs text.toList) := by
  intro h
  have hwoven : Woven (Text.splitEach '*' "a*b".toList) [['\n']] "a\nb".toList :=
    .cons ['a'] ['\n'] (.last ['b'])
  have haccepts := (h "a*b" "a\nb" _ rfl).2 ⟨_, hwoven⟩
  exact absurd haccepts (by decide +kernel)

end Pattern

end AccessPolicy
