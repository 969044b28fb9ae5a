import AccessPolicy.Policy.Slicing
import AccessPolicy.Proofs.Markup.Scanner
import AccessPolicy.Proofs.Markup.Tiling
import AccessPolicy.Proofs.Policy.Course
import AccessPolicy.Proofs.Policy.Recognition

/-!
# Reading by positions

Reading by positions goes along with reading by characters, token by token: while a reading stands in a body, the text
that one of them gathers is the stretch that the other remembers the beginning of (`Begins`, `follows`).  So the slice
that is taken when the element ends can be taken, and it is the body (`parseSliced_eq`).  With what is known of the
scanner, `safelyRead` says that no document makes reading fail on a slice or stand still.
-/

namespace AccessPolicy

open Markup Text

namespace Reading

/-- The reading without the text of the body that it stands in. -/
def withoutText (r : Reading) : Reading :=
  match r.place with
  | .body e opening b => r.moveTo (.body e opening { b with text := [] })
  | _ => r

theorem withoutText_of_not_isBody {r : Reading} (h : r.place.isBody = false) : r.withoutText = r := by
  obtain ⟨place, policy, opened, met⟩ := r
  cases place with
  | body e opening b => simp [Place.isBody] at h
  | _ => rfl

theorem withoutText_place {r : Reading} {e : Element} {opening : Opening} {b : Body}
    (h : r.place = .body e opening b) : r.withoutText.place = .body e opening ⟨[], b.literals⟩ := by
  simp [withoutText, h, moveTo]

/-- Outside of a body it does not matter which characters make up a token. -/
theorem step_of_not_isBody {r : Reading} (h : r.place.isBody = false) (l : Lexeme) :
    r.step l = r.step ⟨[], [], l.token⟩ := by
  obtain ⟨place, policy, opened, met⟩ := r
  obtain ⟨gap, source, token⟩ := l
  cases place with
  | body e opening b => simp [Place.isBody] at h
  | prolog =>
    cases token with
    | openTag name => rw [step_prolog rfl, step_prolog rfl]
    | _ => rfl
  | root =>
    cases token with
    | closeTag name => rw [step_root_closeTag rfl, step_root_closeTag rfl]
    | _ => rfl
  | _ => cases token <;> rfl

/-- A body is entered where the open tag of an element ends. -/
theorem step_enters {r r' : Reading} {l : Lexeme} (hbody : r.place.isBody = false) (h : r.step l = .ok r')
    (hbody' : r'.place.isBody = true) : (∃ e attributes, r.place = .elementTag e attributes) ∧ l.token = .tagEnd ∧
      ∃ e opening, r'.place = .body e opening {} := by
  rw [step_of_not_isBody hbody] at h
  obtain ⟨place, policy, opened, met⟩ := r
  obtain ⟨gap, source, token⟩ := l
  cases place with
  | body e opening b => simp [Place.isBody] at hbody
  | elementTag e attributes =>
    cases token with
    | tagEnd =>
      refine ⟨⟨e, attributes, rfl⟩, rfl, ?_⟩
      obtain ⟨opening, -, hr⟩ := bind_eq_ok.1 h
      cases hr
      exact ⟨e, opening, rfl⟩
    | selfClose =>
      obtain ⟨opening, -, hr⟩ := bind_eq_ok.1 h
      obtain ⟨policy, -, rfl⟩ := closeElement_eq hr
      cases hbody'
    | _ => cases h <;> cases hbody'
  | prolog =>
    cases token with
    | openTag name =>
      rw [step_prolog rfl] at h
      cases h
      split at hbody' <;> cases hbody'
    | _ => cases h <;> cases hbody'
  | root =>
    cases token with
    | openTag name =>
      rcases openSection_cases h with rfl | ⟨s, -, -, rfl⟩ <;> cases hbody'
    | closeTag name =>
      rw [step_root_closeTag rfl] at h
      cases h
      split at hbody' <;> cases hbody'
    | _ => cases h <;> cases hbody'
  | inside s =>
    cases token with
    | openTag name =>
      rcases openElement_cases h with rfl | ⟨e, -, -, rfl⟩ <;> cases hbody'
    | closeTag name =>
      cases h
      split at hbody' <;> cases hbody'
    | _ => cases h <;> cases hbody'
  | _ => cases token <;> cases h <;> cases hbody'

theorem withoutText_of_step {r r' : Reading} {l : Lexeme} (hbody : r.place.isBody = false) (h : r.step l = .ok r') :
    r'.withoutText = r' := by
  cases hbody' : r'.place.isBody with
  | false => exact withoutText_of_not_isBody hbody'
  | true =>
    obtain ⟨-, -, e, opening, hplace⟩ := step_enters hbody h hbody'
    obtain ⟨place, policy, opened, met⟩ := r'
    cases hplace
    rfl

theorem closeElement_withoutText (r : Reading) (e : Element) (opening : Opening) (b : Body) :
    r.withoutText.closeElement e opening b = r.closeElement e opening b := by
  unfold withoutText
  split <;> rfl

/-- The rights that an element lists are its quoted texts. -/
theorem closeElement_of_not_hasText {e : Element} (he : e.hasText = false) (r : Reading) (opening : Opening)
    (literals : List String) (text text' : List Char) :
    r.closeElement e opening ⟨text, literals⟩ = r.closeElement e opening ⟨text', literals⟩ := by
  cases e <;> first | rfl | cases he

end Reading

namespace SlicedReading

/-- If a reading stands in a body, its text is what was read from this position on. -/
def Begins (r : Reading) (before : List Char) (start : Nat) : Prop :=
  ∀ e opening b, r.place = .body e opening b → ∃ pre, before = pre ++ b.text ∧ start = byteSize pre

theorem Begins.of_not_isBody {r : Reading} (h : r.place.isBody = false) (before : List Char) (start : Nat) :
    Begins r before start := by
  intro e opening b hplace
  rw [hplace] at h
  cases h

/-- A lexeme as it stands behind a prefix of the document. -/
def located (before : List Char) (l : Lexeme) : Token × Span :=
  (l.token, ⟨byteSize (before ++ l.gap), byteSize (before ++ l.gap ++ l.source)⟩)

variable {cs before more : List Char} {r : Reading} {start : Nat} {l : Lexeme}

/-- Reading by positions goes along with reading by characters. -/
def Follows (cs before : List Char) (r : Reading) (start : Nat) (l : Lexeme) : Prop :=
  ∃ start', step cs ⟨r.withoutText, start⟩ (located before l) =
      .ok ((r.step l).map fun r' => ⟨r'.withoutText, start'⟩) ∧
    ∀ r', r.step l = .ok r' → Begins r' (before ++ l.gap ++ l.source) start'

private theorem Follows.of_lexeme (l' : Lexeme)
    (hlexeme : lexeme cs ⟨r.withoutText, start⟩ (located before l) = .ok l')
    (hstep : r.withoutText.step l' = (r.step l).map Reading.withoutText)
    (hbegins : ∀ r', r.step l = .ok r' →
      Begins r' (before ++ l.gap ++ l.source) (nextStart ⟨r.withoutText, start⟩ (located before l))) :
    Follows cs before r start l := by
  refine ⟨_, ?_, hbegins⟩
  simp only [step, hlexeme, bind, Except.bind, hstep]
  cases r.step l <;> rfl

private theorem follows_outside (hbody : r.place.isBody = false) : Follows cs before r start l := by
  have hsame : r.withoutText = r := Reading.withoutText_of_not_isBody hbody
  refine .of_lexeme ⟨[], [], l.token⟩ ?_ ?_ fun r' hstep => ?_
  · rw [hsame]
    unfold lexeme
    split
    · simp_all [Place.isBody]
    · rfl
  · rw [hsame, ← Reading.step_of_not_isBody hbody l]
    cases hstep : r.step l with
    | error e => rfl
    | ok r' => simp [Except.map, Reading.withoutText_of_step hbody hstep]
  · cases hbody' : r'.place.isBody with
    | false => exact .of_not_isBody hbody' _ _
    | true =>
      obtain ⟨⟨e, attributes, hplace⟩, htoken, e', opening', hplace'⟩ := Reading.step_enters hbody hstep hbody'
      intro e opening b hb
      rw [hplace'] at hb
      cases hb
      refine ⟨_, (List.append_nil _).symm, ?_⟩
      simp only [hsame, nextStart, hplace, located, htoken]

private theorem follows_close {e : Element} {opening : Opening} {b : Body} (hplace : r.place = .body e opening b)
    (htoken : l.token = .closeTag e.tag) (h : cs = before ++ (l.gap ++ more)) (hbegins : Begins r before start) :
    Follows cs before r start l := by
  obtain ⟨pre, rfl, rfl⟩ := hbegins e opening b hplace
  have hplace' : r.withoutText.place = .body e opening ⟨[], b.literals⟩ := Reading.withoutText_place hplace
  have hstep : r.step l = r.closeElement e opening ⟨b.text ++ l.gap, b.literals⟩ := by
    simp [Reading.step, hplace, htoken]
  have hsliced : ∀ text, r.withoutText.step ⟨text, [], l.token⟩ = r.closeElement e opening ⟨text, b.literals⟩ := by
    intro text
    rw [← Reading.closeElement_withoutText]
    simp [Reading.step, hplace', htoken]
  have hclosed : ∀ r', r.step l = .ok r' → r'.place.isBody = false := by
    intro r' hr'
    obtain ⟨policy, -, rfl⟩ := Reading.closeElement_eq (hstep ▸ hr')
    rfl
  have hwhole : r.step l = (r.step l).map Reading.withoutText := by
    cases hr' : r.step l with
    | error e => rfl
    | ok r' => simp [Except.map, Reading.withoutText_of_not_isBody (hclosed r' hr')]
  cases he : e.hasText with
  | true =>
    have hslice : slice cs ⟨byteSize pre, max (byteSize (pre ++ b.text ++ l.gap)) (byteSize pre)⟩ =
        .ok (b.text ++ l.gap) :=
      slice_eq more (by simp [h]) rfl (by simp)
    refine .of_lexeme ⟨b.text ++ l.gap, [], l.token⟩ ?_ ?_ fun r' hr' => .of_not_isBody (hclosed r' hr') _ _
    · simp only [lexeme, hplace', located, htoken, he, and_self, if_true, hslice]
      rfl
    · rw [hsliced, ← hstep, ← hwhole]
  | false =>
    refine .of_lexeme ⟨[], [], l.token⟩ ?_ ?_ fun r' hr' => .of_not_isBody (hclosed r' hr') _ _
    · simp [lexeme, hplace', located, htoken, he]
    · rw [hsliced, ← hwhole, hstep, Reading.closeElement_of_not_hasText he]

private theorem lexeme_inside {e : Element} {opening : Opening} {b : Body} (hplace : r.place = .body e opening b)
    (htoken : l.token ≠ .closeTag e.tag) : lexeme cs ⟨r, start⟩ (located before l) = .ok ⟨[], [], l.token⟩ := by
  unfold lexeme
  split
  · simp_all [located]
  · rfl

private theorem follows_inside {e : Element} {opening : Opening} {b : Body} (hplace : r.place = .body e opening b)
    (hgoes : l.token.goesOn = true) (htoken : l.token ≠ .closeTag e.tag) (hbegins : Begins r before start) :
    Follows cs before r start l := by
  obtain ⟨pre, rfl, rfl⟩ := hbegins e opening b hplace
  have hplace' : r.withoutText.place = .body e opening ⟨[], b.literals⟩ := Reading.withoutText_place hplace
  refine .of_lexeme _ (lexeme_inside hplace' htoken) ?_ fun r' hr' => ?_
  · rw [Reading.step_push hplace hgoes htoken, Reading.step_push (l := ⟨[], [], l.token⟩) hplace' hgoes htoken]
    simp [Except.map, Reading.withoutText, hplace, Reading.moveTo, Body.push]
  · rw [Reading.step_push hplace hgoes htoken] at hr'
    cases hr'
    intro e opening b' hb'
    cases hb'
    exact ⟨pre, by simp [Body.push], by simp [nextStart, hplace']⟩

private theorem follows_fault {e : Element} {opening : Opening} {b : Body} (hplace : r.place = .body e opening b)
    {fault : Fault} (htoken : l.token = .fault fault) : Follows cs before r start l := by
  have hplace' : r.withoutText.place = .body e opening ⟨[], b.literals⟩ := Reading.withoutText_place hplace
  have herror : r.step l = .error (.markup fault) := Reading.step_fault (by simp [hplace]) htoken
  refine .of_lexeme _ (lexeme_inside hplace' (by simp [htoken])) ?_ fun r' hr' => ?_
  · rw [herror]
    simp [Reading.step, hplace', htoken, Except.map]
  · rw [herror] at hr'
    cases hr'

/-- One token after the other, before the end of the text. -/
theorem follows (hend : l.token ≠ .endOfText) (h : cs = before ++ (l.gap ++ more)) (hbegins : Begins r before start) :
    Follows cs before r start l := by
  cases hbody : r.place.isBody with
  | false => exact follows_outside hbody
  | true =>
    obtain ⟨e, opening, b, hplace⟩ : ∃ e opening b, r.place = .body e opening b := by
      cases hplace : r.place with
      | body e opening b => exact ⟨e, opening, b, rfl⟩
      | _ =>
        rw [hplace] at hbody
        cases hbody
    by_cases hclose : l.token = .closeTag e.tag
    · exact follows_close hplace hclose h hbegins
    · cases htoken : l.token with
      | endOfText => exact absurd htoken hend
      | fault fault => exact follows_fault hplace htoken
      | _ => exact follows_inside hplace (by rw [htoken]; rfl) hclose hbegins

/-- All tokens of a document, up to its end. -/
theorem run_locate {ls : List Lexeme} {last : Lexeme} (hends : ∀ l ∈ ls, l.token ≠ .endOfText)
    (hlast : last.token = .endOfText) (h : cs = before ++ characters (ls ++ [last])) (hbegins : Begins r before start) :
    run cs ⟨r.withoutText, start⟩ (locate (byteSize before) (ls ++ [last])) =
      .ok (((ls ++ [last]).foldlM Reading.step r).map Reading.withoutText) := by
  induction ls generalizing before r start with
  | nil =>
    obtain ⟨gap, source, token⟩ := last
    subst hlast
    have hlexeme : ∀ span, lexeme cs ⟨r.withoutText, start⟩ (.endOfText, span) = .ok ⟨[], [], .endOfText⟩ := by
      intro span
      unfold lexeme
      split
      · simp_all
      · rfl
    have hfold : List.foldlM Reading.step r [⟨gap, source, .endOfText⟩] = .ok r := by
      rw [List.foldlM_cons, Reading.step_endOfText]
      rfl
    simp only [List.nil_append, hfold, locate, run, step, hlexeme, bind, Except.bind, Reading.step_endOfText]
    rfl
  | cons l ls ih =>
    have hcs : cs = before ++ (l.gap ++ (l.source ++ characters (ls ++ [last]))) := by simpa using h
    obtain ⟨start', hstep, hnext⟩ := follows (hends l List.mem_cons_self) hcs hbegins
    have hlocate : locate (byteSize before) (l :: ls ++ [last]) =
        located before l :: locate (byteSize (before ++ l.gap ++ l.source)) (ls ++ [last]) := by
      simp [locate, located, Nat.add_assoc]
    rw [hlocate, run, hstep, List.cons_append, List.foldlM_cons]
    cases hr : r.step l with
    | error e => rfl
    | ok r' =>
      exact ih (fun l hl => hends l (List.mem_cons_of_mem _ hl)) (by simpa using h) (hnext r' hr)

end SlicedReading

theorem Reading.finish_withoutText (r : Reading) : r.withoutText.finish = r.finish := by
  obtain ⟨place, policy, opened, met⟩ := r
  cases place <;> rfl

/-- A policy is read by positions as it is read by characters, without a slice that fails. -/
theorem parseSliced_eq (document : String) : Policy.parseSliced document = .ok (Policy.parse document) := by
  obtain ⟨ls, last, hls, hends, -, hlast, -⟩ := exists_lexemes .content 0 [] document.toList
  rw [← lexemes] at hls
  have hcharacters : document.toList = [] ++ characters (ls ++ [last]) := by
    rw [← hls]
    exact (flatMap_lexemes document).symm
  have hrun := SlicedReading.run_locate hends hlast hcharacters (.of_not_isBody (r := {}) rfl [] 0)
  rw [← hls] at hrun
  rw [Policy.parseSliced, scan_tokens, Policy.parse]
  simp only [bind, Except.bind, tokens]
  rw [show SlicedReading.run document.toList {} (locate 0 (lexemes document)) = _ from hrun]
  cases (lexemes document).foldlM Reading.step {} with
  | error e => rfl
  | ok r => simp [Except.map, pure, Except.pure, Reading.finish_withoutText]

/-! ### Documents are read safely -/

theorem length_lexemesFrom (mode : Mode) (position : Nat) (gap cs : List Char) :
    (lexemesFrom mode position gap cs).length ≤ byteSize cs + 2 := by
  fun_induction lexemesFrom mode position gap cs with
  | case1 mode position gap cs hstep => simp
  | case2 mode position gap cs skipped rest hstep ih =>
    have hrest := step_advances mode position cs
    rw [hstep] at hrest
    rw [← hrest.2, byteSize_append]
    omega
  | case3 mode position gap cs source token next rest hstep ih =>
    have hrest := step_advances mode position cs
    rw [hstep] at hrest
    have hpos : byteSize source ≠ 0 := fun h => hrest.1 (eq_nil_of_byteSize h)
    rw [← hrest.2, byteSize_append, List.length_cons]
    omega
  | case4 mode position gap cs source fault rest hstep => simp

theorem lt_of_mem_tokens {document : String} {t : Token × Span} (ht : t ∈ tokens document)
    (hgo : t.1.goesOn = true) : t.2.start < t.2.stop := by
  obtain ⟨l, hl, htoken, before, after, -, hstart, hstop⟩ := mem_locate ht
  have hwritten := written_of_mem_lexemesFrom hl
  have hne : l.source ≠ [] := by
    rw [htoken] at hgo
    cases hkind : l.token with
    | endOfText =>
      rw [hkind] at hgo
      cases hgo
    | fault fault =>
      rw [hkind] at hgo
      cases hgo
    | _ => exact hwritten.ne_nil (by simp [hkind]) (by rw [hkind]; rfl)
  have hpos : byteSize l.source ≠ 0 := fun h => hne (eq_nil_of_byteSize h)
  rw [hstart, hstop, byteSize_append]
  omega

/-- A document is read by its bytes without a failure that is not one of the document. -/
structure SafelyRead (document : String) : Prop where
  /-- A slice can be taken exactly if it begins and ends between two characters, in this order. -/
  slices : ∀ span s, slice document.toList span = .ok s ↔ span.Covers document.toList s
  /-- No slice that a token needs fails, and the tokens are those of the document. -/
  scanned : scan document.toList .content 0 = .ok (tokens document)
  /-- No slice that an element needs fails, and the policy is that of the document. -/
  parsed : Policy.parseSliced document = .ok (Policy.parse document)
  /-- A token takes at least one byte. -/
  progress : ∀ t ∈ tokens document, t.1.goesOn = true → t.2.start < t.2.stop
  bounded : (tokens document).length ≤ byteSize document.toList + 2
  /-- Where the lookahead accepts a quote, the quoted text is closed at the byte where the lookahead ended. -/
  closes : ∀ start last, byteAt? document.toList start = some '"' →
    quoteBeforeMarkup document.toList (start + 1) = .ok (some last) →
    quotedAt document.toList start = some ⟨start, last + 1⟩
  /-- From no position on, a quoted text between tags is left open. -/
  closed : ∀ start s position, tokenAt document.toList .content start = .ok s →
    s.token ≠ .fault (.unclosedQuote position)

theorem safelyRead (document : String) : SafelyRead document where
  slices span s := slice_eq_ok
  scanned := scan_tokens document
  parsed := parseSliced_eq document
  progress _ ht := lt_of_mem_tokens ht
  bounded := by
    have hlength : (tokens document).length = (lexemes document).length := by
      have hmap := congrArg List.length (map_fst_locate 0 (lexemes document))
      rwa [List.length_map, List.length_map] at hmap
    rw [hlength]
    exact length_lexemesFrom _ _ _ _
  closes _ _ := quotedAt_of_quoteBeforeMarkup
  closed _ _ _ := contentAt_closed

-- behind the backslash the search for the closing quote stands inside of the letter
set_option maxRecDepth 4000 in
example :
    let cs := ['"', '\\', 'é', '"']
    slice? cs 3 5 = none ∧ quotedAt cs 0 = some ⟨0, 5⟩ := by cbv

end AccessPolicy
