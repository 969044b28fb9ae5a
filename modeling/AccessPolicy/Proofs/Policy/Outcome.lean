import AccessPolicy.Policy.Reading
import AccessPolicy.Proofs.Markup.Head

/-!
# What a reading comes to

`Reading.outcome` is the policy that a reading ends in on the text still ahead of it.  It depends neither on the
position in the document nor on how the characters passed over are gathered into lexemes, so it can be followed
through a document from one stretch of characters to the next: `outcome_passed` for characters that are passed
over, `outcome_token` for those of a token.
-/

namespace AccessPolicy

open Markup Text

/-- The place after characters that belong to no token: the body of an element takes them up. -/
def Place.past (s : List Char) : Place → Place
  | .body e opening b => .body e opening { b with text := b.text ++ s }
  | place => place

/-- The place is in an open tag. -/
def Place.inTag : Place → Bool
  | .rootTag | .sectionTag _ | .elementTag _ _ => true
  | _ => false

@[simp] theorem Place.past_nil (place : Place) : place.past [] = place := by
  cases place <;> simp [Place.past]

@[simp] theorem Place.past_past (place : Place) (s t : List Char) : (place.past s).past t = place.past (s ++ t) := by
  cases place <;> simp [Place.past]

@[simp] theorem Place.inTag_past (place : Place) (s : List Char) : (place.past s).inTag = place.inTag := by
  cases place <;> rfl

theorem Place.past_eq_closed {place : Place} {s : List Char} : place.past s = .closed ↔ place = .closed := by
  cases place <;> simp [Place.past]

namespace Reading

def past (r : Reading) (s : List Char) : Reading := r.moveTo (r.place.past s)

@[simp] theorem past_place (r : Reading) (s : List Char) : (r.past s).place = r.place.past s := rfl

@[simp] theorem past_policy (r : Reading) (s : List Char) : (r.past s).policy = r.policy := rfl

@[simp] theorem past_nil (r : Reading) : r.past [] = r := by
  simp [past, moveTo]

@[simp] theorem past_past (r : Reading) (s t : List Char) : (r.past s).past t = r.past (s ++ t) := by
  simp [past, moveTo]

private theorem past_finish (r : Reading) (s : List Char) : (r.past s).finish = r.finish := by
  obtain ⟨place, policy, opened, met⟩ := r
  cases place <;> rfl

theorem step_prolog {r : Reading} (h : r.place = .prolog) (gap source : List Char) (name : String) :
    r.step ⟨gap, source, .openTag name⟩ = .ok (if name = "policy" then r.moveTo .rootTag else r) := by
  by_cases hname : name = "policy"
  · subst hname
    simp [step, h]
  · unfold step
    split <;> simp_all

theorem step_root_closeTag {r : Reading} (h : r.place = .root) (gap source : List Char) (name : String) :
    r.step ⟨gap, source, .closeTag name⟩ = .ok (if name = "policy" then r.moveTo .closed else r) := by
  by_cases hname : name = "policy"
  · subst hname
    simp [step, h]
  · unfold step
    split <;> simp_all

/-- The gap before a token counts like characters passed over earlier. -/
private theorem past_step (r : Reading) (gap source : List Char) {token : Token} (h : token ≠ .endOfText) :
    (r.past gap).step ⟨[], source, token⟩ = r.step ⟨gap, source, token⟩ := by
  obtain ⟨place, policy, opened, met⟩ := r
  cases place with
  | body e opening body =>
    cases token <;> simp [step, past, moveTo, Place.past, Body.push, closeElement] at h ⊢
  | prolog =>
    cases token with
    | openTag name => rw [step_prolog rfl, step_prolog rfl]; rfl
    | _ => rfl
  | root =>
    cases token with
    | closeTag name => rw [step_root_closeTag rfl, step_root_closeTag rfl]; rfl
    | _ => rfl
  | _ => cases token <;> rfl

/-! ### The outcome, step by step -/

/-- The policy that the reading ends in, if all goes well on the text ahead. -/
def outcome (r : Reading) (mode : Mode) (cs : List Char) : Option Policy :=
  ((lexemesFrom mode 0 [] cs).foldlM Reading.step r >>= Reading.finish).toOption

private def outcomeAt (r : Reading) (mode : Mode) (position : Nat) (gap cs : List Char) : Option Policy :=
  ((lexemesFrom mode position gap cs).foldlM Reading.step r >>= Reading.finish).toOption

theorem step_endOfText (r : Reading) (gap source : List Char) :
    r.step ⟨gap, source, .endOfText⟩ = .ok r := by
  obtain ⟨place, policy, opened, met⟩ := r
  cases place <;> rfl

theorem step_closed {r : Reading} (h : r.place = .closed) (l : Lexeme) : r.step l = .ok r := by
  unfold step
  split <;> simp_all

theorem step_fault {r : Reading} {l : Lexeme} {fault : Fault} (hr : r.place ≠ .closed) (hl : l.token = .fault fault) :
    r.step l = .error (.markup fault) := by
  obtain ⟨place, policy, opened, met⟩ := r
  cases place <;> simp_all [step]

private theorem outcomeAt_finish {r : Reading} {mode : Mode} {position : Nat} {gap cs : List Char}
    (h : Markup.step mode position cs = .finish) :
    outcomeAt r mode position gap cs = r.finish.toOption := by
  rw [outcomeAt, lexemesFrom]
  split <;> rename_i h' <;> rw [h] at h' <;> cases h'
  rw [List.foldlM_cons, step_endOfText]
  rfl

private theorem outcomeAt_pass {r : Reading} {mode : Mode} {position : Nat} {gap cs skipped rest : List Char}
    (h : Markup.step mode position cs = .pass skipped rest) :
    outcomeAt r mode position gap cs = outcomeAt r mode (position + byteSize skipped) (gap ++ skipped) rest := by
  rw [outcomeAt, lexemesFrom]
  split <;> rename_i h' <;> rw [h] at h' <;> cases h'
  rfl

private theorem outcomeAt_emit {r : Reading} {mode next : Mode} {position : Nat} {gap cs source rest : List Char}
    {token : Token} (h : Markup.step mode position cs = .emit source token next rest) :
    outcomeAt r mode position gap cs =
      (r.step ⟨gap, source, token⟩).toOption.bind fun r' =>
        outcomeAt r' next (position + byteSize source) [] rest := by
  rw [outcomeAt, lexemesFrom]
  split <;> rename_i h' <;> rw [h] at h' <;> cases h'
  rw [List.foldlM_cons]
  cases r.step ⟨gap, source, token⟩ <;> rfl

private theorem outcomeAt_stop {r : Reading} {mode : Mode} {position : Nat} {gap cs : List Char}
    (h : (Markup.step mode position cs).isStop = true) :
    outcomeAt r mode position gap cs = if r.place = .closed then some r.policy else none := by
  rw [outcomeAt, lexemesFrom]
  split <;> rename_i h' <;> rw [h'] at h
  · exact absurd h (by simp [Step.isStop])
  · exact absurd h (by simp [Step.isStop])
  · exact absurd h (by simp [Step.isStop])
  · rename_i source fault rest
    rw [List.foldlM_cons]
    split
    · rename_i hclosed
      have hfinish : r.finish = .ok r.policy := by simp [finish, hclosed]
      have hlast : List.foldlM Reading.step r [⟨rest, [], .endOfText⟩] = .ok r := by
        rw [List.foldlM_cons, step_endOfText]
        rfl
      rw [step_closed hclosed]
      show (List.foldlM Reading.step r [⟨rest, [], .endOfText⟩] >>= finish).toOption = _
      rw [hlast]
      show r.finish.toOption = _
      rw [hfinish]
      rfl
    · rename_i hopen
      rw [step_fault hopen rfl]
      rfl

/-- Where in the document the text stands makes no difference, and a gap counts like characters passed over. -/
private theorem outcomeAt_eq (r : Reading) (mode : Mode) (position : Nat) (gap cs : List Char) :
    outcomeAt r mode position gap cs = outcome (r.past gap) mode cs := by
  -- on the length of the text, of which a step leaves less
  induction hn : cs.length using Nat.strongRecOn generalizing r mode position gap cs with
  | _ n ih =>
    show _ = outcomeAt (r.past gap) mode 0 [] cs
    rcases step_cases mode cs with h | ⟨skipped, rest, hlt, h⟩ | ⟨source, token, next, rest, hlt, hne, h⟩ | h
    · rw [outcomeAt_finish (h _), outcomeAt_finish (h _), past_finish]
    · rw [outcomeAt_pass (h _), outcomeAt_pass (h _), ih _ (hn ▸ hlt) _ _ _ _ _ rfl,
        ih _ (hn ▸ hlt) _ _ _ _ _ rfl]
      simp
    · rw [outcomeAt_emit (h _), outcomeAt_emit (h _), past_step r gap source hne]
      congr 1
      funext r'
      rw [ih _ (hn ▸ hlt) _ _ _ _ _ rfl, ih _ (hn ▸ hlt) _ _ _ _ _ rfl]
    · rw [outcomeAt_stop (h _), outcomeAt_stop (h _)]
      simp [Place.past_eq_closed]

theorem outcome_lexemesFrom (r : Reading) (mode : Mode) (position : Nat) (cs : List Char) :
    ((lexemesFrom mode position [] cs).foldlM Reading.step r >>= Reading.finish).toOption = r.outcome mode cs := by
  have h := outcomeAt_eq r mode position [] cs
  rwa [past_nil] at h

theorem outcome_nil (r : Reading) (mode : Mode) : r.outcome mode [] = r.finish.toOption :=
  outcomeAt_finish (by cases mode <;> rfl)

theorem outcome_stuck {r : Reading} {mode : Mode} {cs : List Char}
    (h : ∀ position, (Markup.step mode position cs).isStop = true) :
    r.outcome mode cs = if r.place = .closed then some r.policy else none :=
  outcomeAt_stop (h 0)

private theorem outcome_pass {r : Reading} {mode : Mode} {cs skipped rest : List Char}
    (h : Markup.step mode 0 cs = .pass skipped rest) : r.outcome mode cs = (r.past skipped).outcome mode rest := by
  show outcomeAt r mode 0 [] cs = _
  rw [outcomeAt_pass h, outcomeAt_eq]
  rfl

private theorem outcome_emit {r : Reading} {mode next : Mode} {cs source rest : List Char} {token : Token}
    (h : Markup.step mode 0 cs = .emit source token next rest) :
    r.outcome mode cs = (r.step ⟨[], source, token⟩).toOption.bind fun r' => r'.outcome next rest := by
  show outcomeAt r mode 0 [] cs = _
  rw [outcomeAt_emit h]
  congr 1
  funext r'
  rw [outcomeAt_eq, past_nil]

/-- Nothing counts any more after the root. -/
theorem outcome_closed {r : Reading} (h : r.place = .closed) (mode : Mode) (cs : List Char) :
    r.outcome mode cs = some r.policy := by
  induction hn : cs.length using Nat.strongRecOn generalizing r mode cs with
  | _ n ih =>
    rcases step_cases mode cs with hs | ⟨skipped, rest, hlt, hs⟩ | ⟨source, token, next, rest, hlt, -, hs⟩ | hs
    · show outcomeAt r mode 0 [] cs = _
      rw [outcomeAt_finish (hs 0)]
      simp [finish, h, Except.toOption]
    · rw [outcome_pass (hs 0), ih _ (hn ▸ hlt) (by simp [Place.past_eq_closed, h]) _ _ rfl, past_policy]
    · rw [outcome_emit (hs 0), step_closed h]
      exact ih _ (hn ▸ hlt) h _ _ rfl
    · rw [outcome_stuck hs, if_pos h]

theorem outcome_token {mode next : Mode} {source rest : List Char} {token : Token}
    (h : Spells mode source token next rest) (r : Reading) :
    r.outcome mode (source ++ rest) = (r.step ⟨[], source, token⟩).toOption.bind fun r' => r'.outcome next rest :=
  outcome_emit (step_of_spells h 0)

private theorem step_text {r : Reading} (h : r.place.inTag = false) (source : List Char) (core : String) :
    r.step ⟨[], source, .text core⟩ = .ok (r.past source) ∧
      r.step ⟨[], source, .number core⟩ = .ok (r.past source) := by
  obtain ⟨place, policy, opened, met⟩ := r
  cases place with
  | body e opening b => simp [step, past, moveTo, Place.past, Body.push]
  | rootTag => simp [Place.inTag] at h
  | sectionTag s => simp [Place.inTag] at h
  | elementTag e attributes => simp [Place.inTag] at h
  | _ => exact ⟨rfl, rfl⟩

private theorem outcome_run {r : Reading} (hr : r.place.inTag = false) {c : Char} {rest : List Char}
    (h : IsText c rest) :
    r.outcome .content (c :: rest) = (r.past (c :: (splitRun rest).1)).outcome .content (splitRun rest).2 := by
  have hstep : Markup.step .content 0 (c :: rest) = textStep c rest := contentStep_of_isText h 0
  rcases textStep_cases c rest with htext | ⟨core, htext | htext⟩ <;> rw [htext] at hstep
  · exact outcome_pass hstep
  · rw [outcome_emit hstep, (step_text hr _ core).1]
    rfl
  · rw [outcome_emit hstep, (step_text hr _ core).2]
    rfl

/-- A run of text can be cut after its first character. -/
private theorem outcome_text {r : Reading} (hr : r.place.inTag = false) {c : Char} {rest : List Char}
    (h : IsText c rest) : r.outcome .content (c :: rest) = (r.past [c]).outcome .content rest := by
  rw [outcome_run hr h]
  cases rest with
  | nil => rfl
  | cons d rest =>
    by_cases hd : d = '"' ∨ (d = '<' ∧ opensMarkup rest = true)
    · rw [splitRun, if_pos hd]
    · -- what is left of the run is a run of its own
      rw [splitRun, if_neg hd]
      have hd' : IsText d rest := by
        constructor <;> rintro rfl
        · exact absurd (.inl rfl) hd
        · simpa using fun h => hd (.inr ⟨rfl, h⟩)
      rw [outcome_run (r := r.past [c]) (by simpa using hr) hd', past_past]
      rfl

private theorem outcome_blank (r : Reading) {c : Char} (h : isTagBlank c = true) (rest : List Char) :
    r.outcome .tag (c :: rest) = (r.past [c]).outcome .tag rest := by
  rw [outcome_pass (step_blank h 0 rest)]
  cases rest with
  | nil => rfl
  | cons d rest =>
    by_cases hd : isTagBlank d = true
    · rw [outcome_pass (step_blank hd 0 rest), past_past]
      simp [hd]
    · simp [hd]

/-- Where there is no open tag, or in one, characters passed over only lengthen the body of an element. -/
theorem outcome_passed {mode : Mode} {s rest : List Char} (h : Passed mode s rest) {r : Reading}
    (hr : r.place.inTag = true → mode = .tag) : r.outcome mode (s ++ rest) = (r.past s).outcome mode rest := by
  cases h with
  | text hc => exact outcome_text (by simpa using hr) hc
  | comment hbody => exact outcome_pass (step_comment hbody 0 rest)
  | blank hc => exact outcome_blank r hc rest

end Reading

theorem Policy.parse_eq_ok {document : String} {p : Policy} :
    Policy.parse document = .ok p ↔ Reading.outcome {} .content document.toList = some p := by
  show ((lexemes document).foldlM Reading.step {} >>= Reading.finish) = .ok p ↔ _
  rw [Reading.outcome, ← lexemes]
  cases (lexemes document).foldlM Reading.step {} >>= Reading.finish <;> simp [Except.toOption]

end AccessPolicy
