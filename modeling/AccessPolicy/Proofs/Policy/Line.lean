import AccessPolicy.Policy.Document
import AccessPolicy.Proofs.Policy.Sound
import AccessPolicy.Proofs.Text.Decimal

/-!
# Reading a line of a document

A policy is written in lines, each of them a tag or an element.  `Leads` says that a reading takes such a line to
another reading, whatever follows, as long as no quote there is closed before markup; lines that lead on can be put
one after the other (`Leads.append`).  `leads_element` is about the line of an element, `leads_sectionTag` and
`leads_sectionEnd` about the lines around a section.
-/

namespace AccessPolicy

open Markup Text

namespace Reading

/-- Reading the text leads from one reading to the other, whatever follows. -/
def Leads (r : Reading) (s : List Char) (r' : Reading) : Prop :=
  ∀ rest, closesBeforeMarkup rest = false →
    closesBeforeMarkup (s ++ rest) = false ∧ r.outcome .content (s ++ rest) = r'.outcome .content rest

theorem Leads.refl (r : Reading) : r.Leads [] r := fun _ h => ⟨h, rfl⟩

theorem Leads.append {r₁ r₂ r₃ : Reading} {s t : List Char} (h₁ : r₁.Leads s r₂) (h₂ : r₂.Leads t r₃) :
    r₁.Leads (s ++ t) r₃ := by
  intro rest hrest
  obtain ⟨hquiet, hout⟩ := h₂ rest hrest
  rw [List.append_assoc]
  exact ⟨(h₁ _ hquiet).1, (h₁ _ hquiet).2.trans hout⟩

/-! ### Pieces of a line -/

theorem outcome_blanks {r : Reading} (hbody : r.place.isBody = false) (htag : r.place.inTag = false) {s : List Char}
    (hs : ∀ c ∈ s, isBlank c = true) (cs : List Char) : r.outcome .content (s ++ cs) = r.outcome .content cs := by
  induction s with
  | nil => rfl
  | cons c s ih =>
    have hc : isBlank c = true := hs c (by simp)
    have htext : IsText c (s ++ cs) := by
      constructor <;> rintro rfl <;> exact absurd hc (by decide)
    have hpass : Passed .content [c] (s ++ cs) := .text htext
    have hout := outcome_passed hpass (r := r) (by simp [htag])
    rw [past_of_not_isBody hbody] at hout
    exact hout.trans (ih fun d hd => hs d (by simp [hd]))

/-- A character that neither begins markup nor has to do with quotes. -/
def isQuiet (c : Char) : Bool := c != '"' && c != '\\' && c != '<'

theorem closesBeforeMarkup_append_quiet {s : List Char} (hs : ∀ c ∈ s, isQuiet c = true) (rest : List Char) :
    closesBeforeMarkup (s ++ rest) = closesBeforeMarkup rest := by
  induction s with
  | nil => rfl
  | cons c s ih =>
    have hc : isQuiet c = true := hs c (by simp)
    simp only [isQuiet, Bool.and_eq_true, bne_iff_ne] at hc
    rw [List.cons_append, closesBeforeMarkup, ih fun d hd => hs d (by simp [hd])]
    · simp [hc.1.2]
    · exact hc.1.1
    · exact hc.2

theorem closesBeforeMarkup_tag {s rest : List Char} (hs : ∀ c ∈ s, isQuiet c = true)
    (hrest : opensMarkup rest = true) : closesBeforeMarkup (s ++ '<' :: rest) = false := by
  rw [closesBeforeMarkup_append_quiet hs, closesBeforeMarkup, hrest]
  rfl

theorem isName_tag (e : Element) : IsName e.tag.toList := by
  cases e <;> decide

theorem isQuiet_tag (e : Element) : ∀ c ∈ e.tag.toList, isQuiet c = true := by
  have hall : e.tag.toList.all isQuiet = true := by cases e <;> rfl
  exact List.all_eq_true.1 hall

theorem element?_tag (e : Element) : e.parent.element? e.tag = some e := by
  cases e <;> decide

/-- The open tag of an element is begun. -/
theorem outcome_open {r : Reading} {e : Element} (hr : r.place = .inside e.parent)
    (hmet : e = .condition → r.conditionMet = false) {cs : List Char} (hcs : ∀ c ∈ cs.head?, isNameChar c = false) :
    r.outcome .content ("    <".toList ++ e.tag.toList ++ cs) =
      { r with place := .elementTag e [], conditionMet := r.conditionMet || e == Element.condition }.outcome .tag cs := by
  have hspell : Spells .content ('<' :: e.tag.toList) (.openTag (String.ofList e.tag.toList)) .tag cs :=
    .openTag (isName_tag e) hcs
  have hstep : r.step ⟨[], '<' :: e.tag.toList, .openTag e.tag⟩ =
      .ok { r with place := .elementTag e [], conditionMet := r.conditionMet || e == .condition } := by
    have hopen : ¬(e = .condition ∧ r.conditionMet = true) := fun h => by simp [hmet h.1] at h
    simp [step, hr, openElement, element?_tag, hopen]
  have hblanks := outcome_blanks (r := r) (by simp [hr, Place.isBody]) (by simp [hr, Place.inTag])
    (s := "    ".toList) (List.all_eq_true.1 rfl) ('<' :: e.tag.toList ++ cs)
  have htoken := outcome_token hspell r
  rw [String.ofList_toList, hstep] at htoken
  exact hblanks.trans htoken

/-- An attribute as it is written. -/
def attributeText (a : String × String) : List Char :=
  ' ' :: (a.1.toList ++ '=' :: '"' :: (a.2.toList ++ ['"']))

theorem outcome_attribute {r : Reading} {e : Element} {attributes : List (String × String)} {name : String}
    {value : List Char} (hr : r.place = .elementTag e attributes) (hname : IsName name.toList)
    (hvalue : QuotedBy '"' value) (rest : List Char) :
    r.outcome .tag (' ' :: (name.toList ++ '=' :: '"' :: (value ++ '"' :: rest))) =
      (r.moveTo (.elementTag e (attributes ++ [(name, String.ofList value)]))).outcome .tag rest := by
  have hpass : Passed .tag [' '] (name.toList ++ '=' :: '"' :: (value ++ '"' :: rest)) := .blank (by decide)
  have hblank := outcome_passed hpass (r := r) (fun _ => rfl)
  rw [past_of_not_isBody (by simp [hr, Place.isBody])] at hblank
  have hspell : Spells .tag (name.toList ++ ([] ++ '=' :: ([] ++ '"' :: (value ++ ['"']))))
      (.attr (String.ofList name.toList) (String.ofList value)) .tag rest :=
    .attr hname (by simp) (by simp) (.inl rfl) hvalue
  have htoken := outcome_token hspell r
  have hstep : ∀ source, r.step ⟨[], source, .attr name (String.ofList value)⟩ =
      .ok (r.moveTo (.elementTag e (attributes ++ [(name, String.ofList value)]))) := by
    intro source
    simp [step, hr]
  rw [String.ofList_toList, hstep] at htoken
  refine hblank.trans ?_
  simpa [Except.toOption] using htoken

theorem outcome_attributes {r : Reading} {e : Element} {done attributes : List (String × String)} {rest : List Char}
    (hr : r.place = .elementTag e done)
    (h : ∀ a ∈ attributes, IsName a.1.toList ∧ QuotedBy '"' a.2.toList) :
    r.outcome .tag (attributes.flatMap attributeText ++ rest) =
      (r.moveTo (.elementTag e (done ++ attributes))).outcome .tag rest := by
  induction attributes generalizing r done with
  | nil =>
    have : r = r.moveTo (.elementTag e (done ++ [])) := by simp [moveTo, ← hr]
    rw [← this]
    rfl
  | cons a attributes ih =>
    obtain ⟨hname, hvalue⟩ := h a (by simp)
    have hfirst := outcome_attribute hr hname hvalue (attributes.flatMap attributeText ++ rest)
    rw [ih rfl fun a ha => h a (by simp [ha])] at hfirst
    simpa [attributeText, moveTo] using hfirst

theorem outcome_tagEnd {r : Reading} {e : Element} {attributes : List (String × String)} {opening : Opening}
    (hr : r.place = .elementTag e attributes) (hopening : e.opening attributes = .ok opening) (cs : List Char) :
    r.outcome .tag ('>' :: cs) = (r.moveTo (.body e opening {})).outcome .content cs := by
  have hspell : Spells .tag ['>'] .tagEnd .content cs := .tagEnd
  have hstep : r.step ⟨[], ['>'], .tagEnd⟩ = .ok (r.moveTo (.body e opening {})) := by
    simp [step, hr, hopening, bind, Except.bind, pure, Except.pure]
  have htoken := outcome_token hspell r
  rw [hstep] at htoken
  exact htoken

theorem outcome_closeTag {r r' : Reading} {e : Element} {opening : Opening} {b : Body}
    (hr : r.place = .body e opening b) (hclose : r.closeElement e opening b = .ok r') (cs : List Char) :
    r.outcome .content ('<' :: '/' :: (e.tag.toList ++ '>' :: cs)) = r'.outcome .content cs := by
  have hspell : Spells .content ('<' :: '/' :: (e.tag.toList ++ [] ++ ['>']))
      (.closeTag (String.ofList e.tag.toList)) .content cs :=
    .closeTag (by cases e <;> decide) (isName_tag e).2 (by simp)
  have hstep : ∀ source, r.step ⟨[], source, .closeTag e.tag⟩ = .ok r' := by
    intro source
    simpa [step, hr] using hclose
  have htoken := outcome_token hspell r
  rw [String.ofList_toList, hstep] at htoken
  simpa [Except.toOption] using htoken

/-! ### Lines -/

/-- The line of an element. -/
def tagged (e : Element) (attributes : List (String × String)) (body : List Char) : List Char :=
  "    <".toList ++ e.tag.toList ++
    (attributes.flatMap attributeText ++ '>' :: (body ++ '<' :: '/' :: (e.tag.toList ++ ['>', '\n'])))

theorem opensMarkup_tag (e : Element) (cs : List Char) : opensMarkup (e.tag.toList ++ cs) = true := by
  cases e <;> rfl

theorem closesBeforeMarkup_tagged (e : Element) (attributes : List (String × String)) (body rest : List Char) :
    closesBeforeMarkup (tagged e attributes body ++ rest) = false := by
  have htag := closesBeforeMarkup_tag (s := "    ".toList) (List.all_eq_true.1 rfl) (opensMarkup_tag e
    (attributes.flatMap attributeText ++ '>' :: (body ++ '<' :: '/' :: (e.tag.toList ++ ['>', '\n'])) ++ rest))
  unfold tagged
  simpa using htag

/-- After the close tag of an element comes the end of its line, and no quote. -/
theorem closesBeforeMarkup_closeTag (e : Element) {rest : List Char} (hrest : closesBeforeMarkup rest = false) :
    closesBeforeMarkup ('/' :: (e.tag.toList ++ '>' :: '\n' :: rest)) = false := by
  have hquiet : ∀ c ∈ '/' :: (e.tag.toList ++ ['>', '\n']), isQuiet c = true := by
    intro c hc
    simp only [List.mem_cons, List.mem_append, List.not_mem_nil, or_false] at hc
    rcases hc with rfl | hc | rfl | rfl
    · decide
    · exact isQuiet_tag e c hc
    · decide
    · decide
  rw [← hrest, ← closesBeforeMarkup_append_quiet hquiet rest]
  simp

/-- The line of an element leads to the policy with what the element says. -/
theorem leads_tagged (attributes : List (String × String)) {r : Reading} {e : Element} {opening : Opening}
    {body : List Char} {quoted : List String} {policy : Policy} (hr : r.place = .inside e.parent)
    (hmet : e = .condition → r.conditionMet = false)
    (hattrs : ∀ a ∈ attributes, IsName a.1.toList ∧ QuotedBy '"' a.2.toList)
    (hopening : e.opening attributes = .ok opening) (hbody : Enclosed e.tag .content body quoted)
    (hclose : e.close opening ⟨body, quoted⟩ r.policy = .ok policy) :
    r.Leads (tagged e attributes body) { r with policy, conditionMet := r.conditionMet || e == .condition } := by
  intro rest hrest
  refine ⟨closesBeforeMarkup_tagged e attributes body rest, ?_⟩
  have hhead : ∀ c ∈ (attributes.flatMap attributeText ++
      '>' :: (body ++ '<' :: '/' :: (e.tag.toList ++ '>' :: '\n' :: rest))).head?, isNameChar c = false := by
    cases attributes with
    | nil => simp; decide
    | cons a attributes => simp [attributeText]; decide
  have hend : Reading.closeElement
      { r with place := .body e opening ⟨body, quoted⟩, conditionMet := r.conditionMet || e == .condition } e opening
        ⟨body, quoted⟩ = .ok { r with policy, conditionMet := r.conditionMet || e == .condition } := by
    simp [closeElement, hclose, bind, Except.bind, pure, Except.pure, ← hr]
  have hsplit : tagged e attributes body ++ rest =
      "    <".toList ++ e.tag.toList ++ (attributes.flatMap attributeText ++
        '>' :: (body ++ '<' :: '/' :: (e.tag.toList ++ '>' :: '\n' :: rest))) := by
    unfold tagged
    simp
  rw [hsplit, outcome_open hr hmet hhead, outcome_attributes rfl hattrs, outcome_tagEnd rfl hopening,
    hbody.outcome (closesBeforeMarkup_closeTag e hrest) rfl]
  refine (outcome_closeTag rfl hend _).trans ?_
  exact outcome_blanks (by simp [hr, Place.isBody]) (by simp [hr, Place.inTag]) (s := ['\n'])
    (List.all_eq_true.1 rfl) rest

theorem isName_sectionTag (s : Section) : IsName s.tag.toList := by
  cases s <;> decide

theorem ofTag?_tag (s : Section) : Section.ofTag? s.tag = some s := by
  cases s <;> rfl

/-- The line that opens a section. -/
theorem leads_sectionTag {r : Reading} {s : Section} (hr : r.place = .root) (hs : s ∉ r.opened) :
    r.Leads ("  <".toList ++ (s.tag.toList ++ ['>', '\n']))
      { r with place := .inside s, opened := r.opened ++ [s] } := by
  intro rest hrest
  constructor
  · have hmarkup : opensMarkup (s.tag.toList ++ ['>', '\n'] ++ rest) = true := by cases s <;> rfl
    simpa using closesBeforeMarkup_tag (s := "  ".toList) (List.all_eq_true.1 rfl) hmarkup
  have hopen : Spells .content ('<' :: s.tag.toList) (.openTag (String.ofList s.tag.toList)) .tag
      ('>' :: '\n' :: rest) := .openTag (isName_sectionTag s) (by simp; decide)
  have hend : Spells .tag ['>'] .tagEnd .content ('\n' :: rest) := .tagEnd
  have hstep : r.step ⟨[], '<' :: s.tag.toList, .openTag s.tag⟩ =
      .ok { r with place := .sectionTag s, opened := r.opened ++ [s] } := by
    simp [step, hr, openSection, ofTag?_tag, hs]
  have hblanks := outcome_blanks (r := r) (by simp [hr, Place.isBody]) (by simp [hr, Place.inTag])
    (s := "  ".toList) (List.all_eq_true.1 rfl) ('<' :: s.tag.toList ++ '>' :: '\n' :: rest)
  have htoken := outcome_token hopen r
  rw [String.ofList_toList, hstep] at htoken
  have hsplit : "  <".toList ++ (s.tag.toList ++ ['>', '\n']) ++ rest =
      "  ".toList ++ ('<' :: s.tag.toList ++ '>' :: '\n' :: rest) := by simp
  rw [hsplit]
  refine (hblanks.trans htoken).trans ((outcome_token hend _).trans ?_)
  exact outcome_blanks (r := { r with place := .inside s, opened := r.opened ++ [s] }) rfl rfl (s := ['\n'])
    (List.all_eq_true.1 rfl) rest

/-- The line that ends a section. -/
theorem leads_sectionEnd {r : Reading} {s : Section} (hr : r.place = .inside s) :
    r.Leads ("  </".toList ++ (s.tag.toList ++ ['>', '\n'])) (r.moveTo .root) := by
  intro rest hrest
  constructor
  · have hmarkup : opensMarkup ('/' :: (s.tag.toList ++ ['>', '\n'] ++ rest)) = true := rfl
    simpa using closesBeforeMarkup_tag (s := "  ".toList) (List.all_eq_true.1 rfl) hmarkup
  have hclose : Spells .content ('<' :: '/' :: (s.tag.toList ++ [] ++ ['>']))
      (.closeTag (String.ofList s.tag.toList)) .content ('\n' :: rest) :=
    .closeTag (by cases s <;> decide) (isName_sectionTag s).2 (by simp)
  have hstep : ∀ source, r.step ⟨[], source, .closeTag s.tag⟩ = .ok (r.moveTo .root) := by
    intro source
    simp [step, hr]
  have hblanks := outcome_blanks (r := r) (by simp [hr, Place.isBody]) (by simp [hr, Place.inTag])
    (s := "  ".toList) (List.all_eq_true.1 rfl) ('<' :: '/' :: (s.tag.toList ++ [] ++ ['>']) ++ '\n' :: rest)
  have htoken := outcome_token hclose r
  rw [String.ofList_toList, hstep] at htoken
  have hsplit : "  </".toList ++ (s.tag.toList ++ ['>', '\n']) ++ rest =
      "  ".toList ++ ('<' :: '/' :: (s.tag.toList ++ [] ++ ['>']) ++ '\n' :: rest) := by simp
  rw [hsplit]
  refine (hblanks.trans htoken).trans ?_
  exact outcome_blanks (r := r.moveTo .root) rfl rfl (s := ['\n']) (List.all_eq_true.1 rfl) rest

end Reading

end AccessPolicy
