import AccessPolicy.Proofs.Except
import AccessPolicy.Proofs.Policy.Grammar
import AccessPolicy.Proofs.Policy.Line
import AccessPolicy.Proofs.Repeats

/-!
# What the elements of a document add up to

`Reading.take` is what a whole element does to a reading, and `Reading.takeSection` what a section does.  Taken one
after the other, sections give a policy if and only if they differ and their elements are valid, and it is the policy
that the elements give together (`foldlM_takeSection_eq_ok`).
-/

namespace AccessPolicy

open Markup Text

/-! ### The elements of a kind -/

@[simp] theorem itemsOf_append (e : Element) (xs ys : List Item) :
    itemsOf e (xs ++ ys) = itemsOf e xs ++ itemsOf e ys := List.filter_append ..

theorem itemsOf_of_eq {e : Element} {x : Item} (h : x.element = e) : itemsOf e [x] = [x] := by
  simp [itemsOf, h]

theorem itemsOf_of_ne {e : Element} {x : Item} (h : x.element ≠ e) : itemsOf e [x] = [] := by
  simp [itemsOf, h]

theorem valid_nil : Valid [] := ⟨by simp, by simp [itemsOf]⟩

theorem valid_append_singleton {items : List Item} {x : Item} :
    Valid (items ++ [x]) ↔
      Valid items ∧ x.WellFormed ∧ (x.element = .condition → itemsOf .condition items = []) := by
  constructor
  · rintro ⟨hwell, hcondition⟩
    rw [itemsOf_append, List.length_append] at hcondition
    refine ⟨⟨fun y hy => hwell y (by simp [hy]), by omega⟩, hwell x (by simp), fun hx => ?_⟩
    rw [itemsOf_of_eq hx, List.length_singleton] at hcondition
    exact List.length_eq_zero_iff.1 (by omega)
  · rintro ⟨⟨hwell, hcondition⟩, hx, hfirst⟩
    refine ⟨fun y hy => ?_, ?_⟩
    · rcases List.mem_append.1 hy with hy | hy
      · exact hwell y hy
      · exact List.mem_singleton.1 hy ▸ hx
    · rw [itemsOf_append, List.length_append]
      by_cases hkind : x.element = .condition
      · simp [hfirst hkind, itemsOf_of_eq hkind]
      · simpa [itemsOf_of_ne hkind] using hcondition

theorem Valid.of_append {xs ys : List Item} (h : Valid (xs ++ ys)) : Valid xs := by
  refine ⟨fun x hx => h.wellFormed x (by simp [hx]), ?_⟩
  have := h.condition
  rw [itemsOf_append, List.length_append] at this
  omega

/-! ### One element -/

/-- What the open tag of the element says. -/
def Item.opening (x : Item) : Opening :=
  if x.element.isDirective then { source := x.directive.source, priority := x.directive.priority } else {}

theorem opening_eq_ok {x : Item} {opening : Opening} :
    x.element.opening x.attributes = .ok opening ↔
      (x.element.isDirective = true →
        ∀ raw ∈ x.attributes.lookup "priority", (readInt64 (trim raw.toList)).isSome = true) ∧
      (x.element = .condition → ∀ type ∈ x.attributes.lookup "type", lowerAscii type = "json") ∧
      x.opening = opening := by
  unfold Element.opening Item.opening Item.directive
  split
  · rename_i hdirective
    -- a directive is no condition
    have hkind : x.element ≠ .condition := by
      rintro heq
      rw [heq] at hdirective
      cases hdirective
    cases hpriority : x.attributes.lookup "priority" with
    | none => simp [hkind]
    | some raw => cases hn : readInt64 (trim raw.toList) <;> simp [hkind, hn, hdirective]
  · rename_i hdirective
    split
    · rename_i hkind
      cases htype : x.attributes.lookup "type" with
      | none => simp [hkind, Element.isDirective]
      | some type => by_cases h : lowerAscii type = "json" <;> simp [hkind, h, Element.isDirective]
    · rename_i hkind
      simp [hdirective, hkind]

/-- The routes with one more text: an empty one adds none, and neither does one that was there. -/
theorem routes_concat (texts : List String) (text : String) :
    ((texts ++ [text]).filter (· ≠ "")).eraseDups =
      if text = "" ∨ text ∈ (texts.filter (· ≠ "")).eraseDups then (texts.filter (· ≠ "")).eraseDups
      else (texts.filter (· ≠ "")).eraseDups ++ [text] := by
  rw [List.filter_append]
  by_cases hempty : text = ""
  · simp [hempty]
  · have hkept : [text].filter (· ≠ "") = [text] := by simp [hempty]
    rw [hkept, eraseDups_concat]
    simp only [hempty, false_or, List.mem_eraseDups]

/-- A route is compared with the routes that were kept, and these are all the routes there were. -/
private theorem close_path {items : List Item} {x : Item} (hx : x.element = .path) (opening : Opening) :
    Element.path.close opening x.body (Policy.ofItems items) = .ok (Policy.ofItems (items ++ [x])) := by
  have hroutes : Policy.ofItems (items ++ [x]) = { Policy.ofItems items with
      routes := (((itemsOf .path items).map Item.text ++ [x.text]).filter (· ≠ "")).eraseDups } := by
    simp [Policy.ofItems, itemsOf, lastText?, lastNumber?, literalsOf, hx]
  have hcond : ((trim x.body.text).isEmpty || (Policy.ofItems items).routes.contains x.text) = true ↔
      x.text = "" ∨ x.text ∈ (((itemsOf .path items).map Item.text).filter (· ≠ "")).eraseDups := by
    simp [Policy.ofItems, Item.text, Item.core]
  rw [hroutes, routes_concat]
  show Except.ok (if ((trim x.body.text).isEmpty || (Policy.ofItems items).routes.contains x.text) = true then _
    else _) = _
  by_cases h : x.text = "" ∨ x.text ∈ (((itemsOf .path items).map Item.text).filter (· ≠ "")).eraseDups
  · rw [if_pos (hcond.2 h), if_pos h]
    rfl
  · rw [if_neg (mt hcond.1 h), if_neg h]
    rfl

theorem close_eq_ok {items : List Item} {x : Item} {p : Policy} :
    x.element.close x.opening x.body (Policy.ofItems items) = .ok p ↔
      (x.element = .priority → (readInt64 x.core).isSome = true) ∧
      (x.element = .returnCode → (readUInt16 x.core).isSome = true) ∧ Policy.ofItems (items ++ [x]) = p := by
  obtain ⟨e, attributes, body⟩ := x
  cases e
  case priority =>
    cases hn : readInt64 (trim body.text) <;>
      simp [Element.close, Policy.ofItems, itemsOf, lastText?, lastNumber?, literalsOf, Item.core, hn]
  case returnCode =>
    cases hn : readUInt16 (trim body.text) <;>
      simp [Element.close, Policy.ofItems, itemsOf, lastText?, lastNumber?, literalsOf, Item.core, hn]
  case path =>
    rw [close_path rfl]
    simp
  all_goals
    simp [Element.close, Policy.ofItems, itemsOf, lastText?, lastNumber?, literalsOf, Item.text, Item.core,
      Item.opening, Item.directive, Element.isDirective]

/-! ### Elements and sections, one after the other -/

namespace Reading

/-- A whole element of a section is read. -/
def take (r : Reading) (x : Item) : Except DocumentError Reading := do
  let r ← r.openElement x.element.parent x.element.tag
  let opening ← x.element.opening x.attributes
  r.closeElement x.element opening x.body

/-- A whole section is read, with its elements. -/
def takeSection (r : Reading) : Section × List Item → Except DocumentError Reading
  | (s, items) => do
    let r ← r.openSection s.tag
    let r ← items.foldlM take (r.moveTo (.inside s))
    return r.moveTo .root

/-- The reading at a place, after these sections were opened and these elements read. -/
def after (place : Place) (opened : List Section) (items : List Item) : Reading where
  place := place
  policy := .ofItems items
  opened := opened
  conditionMet := decide (itemsOf .condition items ≠ [])

private theorem openElement_after {place : Place} {opened : List Section} {items : List Item} (x : Item) :
    (after place opened items).openElement x.element.parent x.element.tag =
      if x.element = .condition ∧ itemsOf .condition items ≠ [] then .error .repeatedCondition
      else .ok { after place opened items with
        place := .elementTag x.element []
        conditionMet := decide (itemsOf .condition (items ++ [x]) ≠ []) } := by
  simp only [openElement, element?_tag, after]
  by_cases hkind : x.element = .condition
  · simp [itemsOf_of_eq hkind, hkind]
  · simp [itemsOf_of_ne hkind, hkind]

theorem take_eq_ok {place : Place} {opened : List Section} {items : List Item} {x : Item} {r : Reading}
    (hvalid : Valid items) :
    (after place opened items).take x = .ok r ↔
      Valid (items ++ [x]) ∧ after (.inside x.element.parent) opened (items ++ [x]) = r := by
  rw [take, openElement_after, valid_append_singleton]
  by_cases hrepeat : x.element = .condition ∧ itemsOf .condition items ≠ []
  · rw [if_pos hrepeat]
    refine iff_of_false (fun h => ?_) fun h => hrepeat.2 (h.1.2.2 hrepeat.1)
    cases h
  · rw [if_neg hrepeat]
    constructor
    · intro h
      obtain ⟨entered, hentered, h⟩ := bind_eq_ok.1 h
      obtain rfl := Except.ok.inj hentered
      obtain ⟨opening, hopening, hclose⟩ := bind_eq_ok.1 h
      obtain ⟨p, hp, hr⟩ := bind_eq_ok.1 hclose
      obtain ⟨hdirective, htype, rfl⟩ := opening_eq_ok.1 hopening
      obtain ⟨hpriority, hcode, rfl⟩ := close_eq_ok.1 hp
      exact ⟨⟨hvalid, ⟨hpriority, hcode, hdirective, htype⟩, by simpa using hrepeat⟩, Except.ok.inj hr⟩
    · rintro ⟨⟨-, hwell, -⟩, rfl⟩
      refine bind_eq_ok.2 ⟨_, rfl, bind_eq_ok.2 ⟨x.opening, ?_, ?_⟩⟩
      · exact opening_eq_ok.2 ⟨hwell.directive, hwell.type, rfl⟩
      · exact bind_eq_ok.2 ⟨_, close_eq_ok.2 ⟨hwell.priority, hwell.returnCode, rfl⟩, rfl⟩

/-- The elements of a section, after others. -/
theorem foldlM_take_eq_ok {s : Section} {opened : List Section} {done items : List Item} {r : Reading}
    (hitems : ∀ x ∈ items, x.element.parent = s) (hvalid : Valid done) :
    items.foldlM take (after (.inside s) opened done) = .ok r ↔
      Valid (done ++ items) ∧ after (.inside s) opened (done ++ items) = r := by
  induction items generalizing done with
  | nil => simp [hvalid, pure, Except.pure]
  | cons x items ih =>
    have hx : x.element.parent = s := hitems x List.mem_cons_self
    have hrest : ∀ y ∈ items, y.element.parent = s := fun y hy => hitems y (List.mem_cons_of_mem _ hy)
    have hsplit : done ++ x :: items = done ++ [x] ++ items := by simp
    rw [List.foldlM_cons, bind_eq_ok, hsplit]
    constructor
    · rintro ⟨r₁, htake, hfold⟩
      obtain ⟨hvalid₁, rfl⟩ := (take_eq_ok hvalid).1 htake
      rw [hx] at hfold
      exact (ih hrest hvalid₁).1 hfold
    · rintro ⟨hall, heq⟩
      have hvalid₁ : Valid (done ++ [x]) := hall.of_append
      refine ⟨_, (take_eq_ok hvalid).2 ⟨hvalid₁, rfl⟩, ?_⟩
      rw [hx]
      exact (ih hrest hvalid₁).2 ⟨hall, heq⟩

theorem takeSection_eq_ok {s : Section} {opened : List Section} {done items : List Item} {r : Reading}
    (hitems : ∀ x ∈ items, x.element.parent = s) (hvalid : Valid done) :
    (after .root opened done).takeSection (s, items) = .ok r ↔
      s ∉ opened ∧ Valid (done ++ items) ∧ after .root (opened ++ [s]) (done ++ items) = r := by
  have hopen : (after .root opened done).openSection s.tag =
      if s ∈ opened then .error (.repeatedSection s)
      else .ok (after (.sectionTag s) (opened ++ [s]) done) := by
    simp only [openSection, ofTag?_tag]
    rfl
  rw [takeSection, hopen]
  by_cases hs : s ∈ opened
  · rw [if_pos hs]
    refine iff_of_false (fun h => ?_) fun h => h.1 hs
    cases h
  · rw [if_neg hs]
    constructor
    · intro h
      obtain ⟨entered, hentered, h⟩ := bind_eq_ok.1 h
      obtain rfl := Except.ok.inj hentered
      obtain ⟨r₁, hfold, h⟩ := bind_eq_ok.1 h
      obtain ⟨hall, rfl⟩ := (foldlM_take_eq_ok hitems hvalid).1 hfold
      exact ⟨hs, hall, Except.ok.inj h⟩
    · rintro ⟨-, hall, rfl⟩
      have hfold : items.foldlM take (after (.inside s) (opened ++ [s]) done) = .ok _ :=
        (foldlM_take_eq_ok hitems hvalid).2 ⟨hall, rfl⟩
      exact bind_eq_ok.2 ⟨_, rfl, bind_eq_ok.2 ⟨_, hfold, rfl⟩⟩

/-- The sections of a document, after others. -/
theorem foldlM_takeSection_eq_ok {opened : List Section} {done : List Item} {sections : List (Section × List Item)}
    {r : Reading} (hitems : ∀ s ∈ sections, ∀ x ∈ s.2, x.element.parent = s.1) (hvalid : Valid done)
    (hopened : opened.Nodup) :
    sections.foldlM takeSection (after .root opened done) = .ok r ↔
      (opened ++ sections.map Prod.fst).Nodup ∧ Valid (done ++ itemsIn sections) ∧
        after .root (opened ++ sections.map Prod.fst) (done ++ itemsIn sections) = r := by
  induction sections generalizing opened done with
  | nil => simp [hvalid, hopened, itemsIn, pure, Except.pure]
  | cons section' sections ih =>
    obtain ⟨s, items⟩ := section'
    have hfirst : ∀ x ∈ items, x.element.parent = s := hitems (s, items) List.mem_cons_self
    have hrest : ∀ s ∈ sections, ∀ x ∈ s.2, x.element.parent = s.1 :=
      fun s hs => hitems s (List.mem_cons_of_mem _ hs)
    have htags : opened ++ ((s, items) :: sections).map Prod.fst = opened ++ [s] ++ sections.map Prod.fst := by simp
    have hdone : done ++ itemsIn ((s, items) :: sections) = done ++ items ++ itemsIn sections := by simp [itemsIn]
    rw [List.foldlM_cons, bind_eq_ok, htags, hdone]
    constructor
    · rintro ⟨r₁, htake, hfold⟩
      obtain ⟨hs, hvalid₁, rfl⟩ := (takeSection_eq_ok hfirst hvalid).1 htake
      have hopened₁ : (opened ++ [s]).Nodup := List.nodup_append'.2 (by simp [hopened, hs])
      exact (ih hrest hvalid₁ hopened₁).1 hfold
    · rintro ⟨hnodup, hall, heq⟩
      have hvalid₁ : Valid (done ++ items) := hall.of_append
      have hopened₁ : (opened ++ [s]).Nodup := hnodup.of_append_left
      have hs : s ∉ opened := fun hmem => by simp [List.nodup_append', hmem] at hopened₁
      exact ⟨_, (takeSection_eq_ok hfirst hvalid).2 ⟨hs, hvalid₁, rfl⟩,
        (ih hrest hvalid₁ hopened₁).2 ⟨hnodup, hall, heq⟩⟩

end Reading

end AccessPolicy
