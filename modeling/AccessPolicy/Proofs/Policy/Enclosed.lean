import AccessPolicy.Proofs.Policy.Outcome
import AccessPolicy.Proofs.Text.Trim

/-!
# The body of an element

`Enclosed` says which texts can stand between the tags of an element so that the element ends where its own close
tag stands: texts in which every quote is closed or harmless, every comment and every tag is complete, and no tag
closes the element.  Whatever is read as the body of an element is such a text (`exists_enclosed`), and such a text
is read as the body whatever follows the close tag, if no quote is closed there before markup
(`Enclosed.outcome`).  Blanks at its ends can be taken away (`Enclosed.trim`).
-/

namespace AccessPolicy

open Markup Text

/-- The quoted text that a token adds to a body. -/
def quotedIn : Token → List String
  | .literal s => [String.ofList (stripQuotes s.toList)]
  | _ => []

/-- A text that can stand in an element, from a mode on up to the close tag, and the quoted texts in it. -/
inductive Enclosed (tag : String) : Mode → List Char → List String → Prop
  | nil : Enclosed tag .content [] []
  | passed {mode : Mode} {s x : List Char} {quoted : List String} : Passed mode s (x ++ ['<', '/']) →
    Enclosed tag mode x quoted → Enclosed tag mode (s ++ x) quoted
  | token {mode next : Mode} {source x : List Char} {token : Token} {quoted : List String} :
    Spells mode source token next (x ++ ['<', '/']) → token ≠ .closeTag tag → Enclosed tag next x quoted →
    Enclosed tag mode (source ++ x) (quotedIn token ++ quoted)

theorem Body.push_eq (b : Body) (source : List Char) (token : Token) :
    b.push ⟨[], source, token⟩ = ⟨b.text ++ source, b.literals ++ quotedIn token⟩ := by
  cases token <;> simp [Body.push, quotedIn]

private theorem step_body {r : Reading} {e : Element} {opening : Opening} {b : Body}
    (hr : r.place = .body e opening b) {mode next : Mode} {source rest : List Char} {token : Token}
    (h : Spells mode source token next rest) (htoken : token ≠ .closeTag e.tag) :
    r.step ⟨[], source, token⟩ =
      .ok (r.moveTo (.body e opening ⟨b.text ++ source, b.literals ++ quotedIn token⟩)) := by
  rw [← Body.push_eq]
  cases h with
  | closeTag _ _ _ =>
    have hne : String.ofList _ ≠ e.tag := fun h => htoken (h ▸ rfl)
    simp [Reading.step, hr, hne]
  | _ => simp [Reading.step, hr]

private theorem head?_append_closeTag (x w : List Char) :
    (x ++ '<' :: '/' :: w).head? = (x ++ ['<', '/']).head? := by
  cases x <;> rfl

/-- A text that can stand in an element is read as its body. -/
theorem Enclosed.outcome {e : Element} {mode : Mode} {x w : List Char} {quoted : List String}
    (h : Enclosed e.tag mode x quoted) (hw : closesBeforeMarkup ('/' :: w) = false) {r : Reading}
    {opening : Opening} {b : Body} (hr : r.place = .body e opening b) :
    r.outcome mode (x ++ '<' :: '/' :: w) =
      (r.moveTo (.body e opening ⟨b.text ++ x, b.literals ++ quoted⟩)).outcome .content ('<' :: '/' :: w) := by
  induction h generalizing r b with
  | nil =>
    have : r = r.moveTo (.body e opening ⟨b.text ++ [], b.literals ++ []⟩) := by simp [Reading.moveTo, ← hr]
    exact congrArg (fun r => Reading.outcome r _ _) this
  | @passed mode s x quoted hpass _ ih =>
    have hpassed := hpass.extend hw
    rw [List.append_assoc, Reading.outcome_passed hpassed (by simp [hr, Place.inTag]),
      ih (r := r.past s) (b := ⟨b.text ++ s, b.literals⟩) (by simp [hr, Place.past])]
    simp [Reading.past, Reading.moveTo]
  | token hspell htoken _ ih =>
    rw [List.append_assoc, Reading.outcome_token (hspell.of_head? (head?_append_closeTag _ w)),
      step_body hr hspell htoken]
    show Reading.outcome _ _ _ = _
    rw [ih rfl]
    simp [Reading.moveTo]

/-- Whatever is read as the body of an element is a text that can stand in it. -/
theorem exists_enclosed {r : Reading} {e : Element} {opening : Opening} {b : Body} {mode : Mode} {cs : List Char}
    {p : Policy} (hr : r.place = .body e opening b) (h : r.outcome mode cs = some p) :
    ∃ x quoted gap rest r', cs = x ++ '<' :: '/' :: (e.tag.toList ++ gap ++ '>' :: rest) ∧
      (∀ c ∈ gap, isTagBlank c = true) ∧ Enclosed e.tag mode x quoted ∧
      r.closeElement e opening ⟨b.text ++ x, b.literals ++ quoted⟩ = .ok r' ∧ r'.outcome .content rest = some p := by
  induction hn : cs.length using Nat.strongRecOn generalizing r b mode cs with
  | _ n ih =>
    cases head mode cs with
    | nil =>
      rw [Reading.outcome_nil] at h
      simp [Reading.finish, hr, Place.tag?, Except.toOption] at h
    | stuck hstuck =>
      rw [Reading.outcome_stuck hstuck, if_neg (by simp [hr])] at h
      exact absurd h (by simp)
    | @passed s rest hpass =>
      have hlt : rest.length < n := by cases hpass <;> simp at hn <;> omega
      rw [Reading.outcome_passed hpass (by simp [hr, Place.inTag])] at h
      obtain ⟨x, quoted, gap, more, r', rfl, hgap, henc, hclose, hout⟩ :=
        ih _ hlt (b := ⟨b.text ++ s, b.literals⟩) (by simp [hr, Place.past]) h rfl
      refine ⟨s ++ x, quoted, gap, more, r', by simp, hgap, .passed hpass.cut henc, ?_, hout⟩
      rw [← List.append_assoc]
      exact hclose
    | @token next source rest token hspell =>
      have hlt : rest.length < n := by cases hspell <;> simp at hn <;> omega
      rw [Reading.outcome_token hspell] at h
      by_cases htoken : token = .closeTag e.tag
      · -- the close tag of the element ends the body; any other token is part of it
        cases hspell with
        | @closeTag name gap _ hne hname hgap =>
          have htag : name = e.tag.toList := by
            rw [← Token.closeTag.inj htoken, String.toList_ofList]
          have hstep : r.step ⟨[], '<' :: '/' :: (name ++ gap ++ ['>']), .closeTag e.tag⟩ =
              r.closeElement e opening b := by simp [Reading.step, hr]
          rw [htoken, hstep] at h
          cases hclose : r.closeElement e opening b with
          | error err => simp [hclose, Except.toOption] at h
          | ok r' =>
            refine ⟨[], [], gap, rest, r', by simp [htag], hgap, .nil, by simpa using hclose, ?_⟩
            simpa [hclose, Except.toOption] using h
        | _ => exact absurd htoken (by simp)
      · rw [step_body hr hspell htoken] at h
        obtain ⟨x, quoted, gap, more, r', rfl, hgap, henc, hclose, hout⟩ := ih _ hlt rfl h rfl
        refine ⟨source ++ x, quotedIn token ++ quoted, gap, more, r', by simp, hgap,
          .token (hspell.of_head? (head?_append_closeTag _ _).symm) htoken henc, ?_, hout⟩
        rw [← List.append_assoc, ← List.append_assoc]
        exact hclose

/-! ### Blanks at the ends -/

theorem Enclosed.of_nil {tag : String} {mode : Mode} {quoted : List String} (h : Enclosed tag mode [] quoted) :
    mode = .content ∧ quoted = [] := by
  generalize hx : ([] : List Char) = x at h
  cases h with
  | nil => exact ⟨rfl, rfl⟩
  | passed hpass _ => cases hpass <;> simp at hx
  | token hspell _ _ => cases hspell <;> simp at hx

/-- The first character of a token or a comment is no blank, so a blank at the front is text. -/
private theorem Enclosed.of_blank_cons {tag : String} {c : Char} {x : List Char} {quoted : List String}
    (h : Enclosed tag .content (c :: x) quoted) (hc : isBlank c = true) : Enclosed tag .content x quoted := by
  generalize hx : c :: x = cs at h
  cases h with
  | nil => simp at hx
  | passed hpass henc =>
    cases hpass with
    | text _ =>
      simp only [List.cons_append, List.nil_append, List.cons.injEq] at hx
      rwa [hx.2]
    | comment _ =>
      simp only [List.cons_append, List.cons.injEq] at hx
      rw [hx.1] at hc
      exact absurd hc (by decide)
  | token hspell _ _ =>
    cases hspell <;> simp only [List.cons_append, List.cons.injEq] at hx <;> rw [hx.1] at hc <;>
      exact absurd hc (by decide)

/-- Nor is the last one, so a blank before the close tag is text. -/
private theorem Enclosed.of_concat_blank {tag : String} {mode : Mode} {cs : List Char} {quoted : List String}
    (h : Enclosed tag mode cs quoted) {x : List Char} {c : Char} (hx : cs = x ++ [c]) (hc : isBlank c = true) :
    Enclosed tag mode x quoted := by
  induction h generalizing x with
  | nil => simp at hx
  | @passed mode s y quoted hpass henc ih =>
    rcases List.eq_nil_or_concat y with rfl | ⟨y, d, rfl⟩
    · obtain ⟨rfl, rfl⟩ := henc.of_nil
      have hlast := congrArg List.getLast? hx
      cases hpass with
      | text _ =>
        obtain rfl : x = [] := by simpa using congrArg List.length hx
        exact .nil
      | comment _ =>
        obtain rfl : '>' = c := by simpa [List.getLast?_cons, List.getLast?_append] using hlast
        exact absurd hc (by decide)
    · obtain ⟨rfl, rfl⟩ : s ++ y = x ∧ d = c := by simpa [← List.append_assoc] using hx
      exact .passed (Passed.of_blank (by simpa using hpass) hc) (ih (by simp))
  | @token mode next source y token quoted hspell htoken henc ih =>
    rcases List.eq_nil_or_concat y with rfl | ⟨y, d, rfl⟩
    · obtain ⟨rfl, rfl⟩ := henc.of_nil
      have hlast := congrArg List.getLast? hx
      have hend : c = '>' ∨ c = '"' := by
        cases hspell <;> simp [List.getLast?_cons, List.getLast?_append] at hlast <;> simp [← hlast]
      rcases hend with rfl | rfl <;> exact absurd hc (by decide)
    · obtain ⟨rfl, rfl⟩ : source ++ y = x ∧ d = c := by simpa [← List.append_assoc] using hx
      have henc' := ih (x := y) (by simp)
      refine .token ?_ htoken henc'
      cases y with
      | nil =>
        obtain ⟨rfl, -⟩ := henc'.of_nil
        exact hspell.of_content _
      | cons a y => exact hspell.of_head? rfl

theorem Enclosed.trim {tag : String} {x : List Char} {quoted : List String} (h : Enclosed tag .content x quoted) :
    Enclosed tag .content (trim x) quoted := by
  have hstart : Enclosed tag .content (trimStart x) quoted := by
    induction x with
    | nil => exact h
    | cons c x ih =>
      by_cases hc : isBlank c = true
      · simpa [trimStart, hc] using ih (h.of_blank_cons hc)
      · simpa [trimStart, hc] using h
  rw [Text.trim]
  generalize trimStart x = y at hstart
  induction y using List.reverseRecOn with
  | nil => exact hstart
  | append_singleton y c ih =>
    rw [trimEnd_concat]
    split
    · exact ih (hstart.of_concat_blank rfl ‹_›)
    · exact hstart

/-- Characters with no meaning of their own, standing in an element. -/
theorem enclosed_of_plain {tag : String} {x : List Char} (h : ∀ c ∈ x, c ≠ '"' ∧ c ≠ '<') :
    Enclosed tag .content x [] := by
  induction x with
  | nil => exact .nil
  | cons c x ih =>
    have hc := h c (by simp)
    have hpass : Passed .content [c] (x ++ ['<', '/']) :=
      .text ⟨fun h => absurd h hc.1, fun h => absurd h hc.2⟩
    exact .passed hpass (ih fun d hd => h d (by simp [hd]))

end AccessPolicy
