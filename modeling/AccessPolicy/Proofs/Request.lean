import AccessPolicy.CommandLine.Commands
import AccessPolicy.Proofs.Json.Record
import Mathlib.Logic.Relation

/-!
# Completing a request

A request that is written and read again is the same (`ofJson?_toJson`), and an edit of its JSON form that the record
does not see is not seen by any pattern either (`ofJson?_of_edits`).  So a request may be completed before it is
answered as an event (`completion`).
-/

namespace AccessPolicy

open Json

/-! ### The parts of a request -/

theorem entries?_ofTexts (entries : List (String × String)) : entries? asString? (ofTexts entries) = some entries :=
  entries?_object Json.string (fun _ => rfl) entries

namespace HttpPart

def fieldNames : List String := ["sourceIpAddress", "targetHost", "targetPort", "targetPath"]

theorem ofJson?_object (m : List (String × Json)) : ofJson? (.object m) = (do
    return {
      sourceAddress := ← field m "sourceIpAddress" "" asString?
      targetHost := ← field m "targetHost" "" asString?
      targetPort := ← field m "targetPort" 0 uint16?
      targetPath := ← field m "targetPath" "" asString? }) := rfl

theorem ofJson?_toJson (h : HttpPart) : ofJson? h.toJson = some h := by
  rw [toJson, ofFields, ofJson?_object]
  simp [field_setField, asString?, uint16?_ofNat]

theorem fieldwise : Fieldwise ofJson? fieldNames where
  congr := by
    intro m m' h
    simp only [fieldNames, List.forall_mem_cons] at h
    obtain ⟨h1, h2, h3, h4, -⟩ := h
    rw [ofJson?_object, ofJson?_object, field_congr h1, field_congr h2, field_congr h3, field_congr h4]
  leaveOut := by
    intro m key value hvalue hdefault
    rw [ofJson?_object, show ofJson? (.object []) = some {} from rfl] at hdefault
    simp only [bind, Option.bind_eq_some_iff] at hdefault
    obtain ⟨_, h1, _, h2, _, h3, _, h4, heq⟩ := hdefault
    cases heq
    rw [ofJson?_object, ofJson?_object, field_without hvalue h1, field_without hvalue h2, field_without hvalue h3,
      field_without hvalue h4]

end HttpPart

namespace ContextPart

def fieldNames : List String := ["pathParams", "query", "body", "context"]

theorem ofJson?_object (m : List (String × Json)) : ofJson? (.object m) = (do
    return {
      pathParameters := ← field m "pathParams" [] (entries? asString?)
      query := ← field m "query" [] (entries? some)
      body := ← field m "body" [] (entries? some)
      context := ← field m "context" [] (entries? some) }) := rfl

theorem ofJson?_toJson (c : ContextPart) : ofJson? c.toJson = some c := by
  have hvalues : ∀ fields : List (String × Json), entries? some (.object fields) = some fields := by
    intro fields
    have hsame : fields.map (fun e => (e.1, id e.2)) = fields := List.map_id fields
    rw [← hsame, entries?_object id (fun _ => rfl), hsame]
  rw [toJson, ofFields, ofJson?_object]
  simp [field_setField, entries?_ofTexts, hvalues]

theorem fieldwise : Fieldwise ofJson? fieldNames where
  congr := by
    intro m m' h
    simp only [fieldNames, List.forall_mem_cons] at h
    obtain ⟨h1, h2, h3, h4, -⟩ := h
    rw [ofJson?_object, ofJson?_object, field_congr h1, field_congr h2, field_congr h3, field_congr h4]
  leaveOut := by
    intro m key value hvalue hdefault
    rw [ofJson?_object, show ofJson? (.object []) = some {} from rfl] at hdefault
    simp only [bind, Option.bind_eq_some_iff] at hdefault
    obtain ⟨_, h1, _, h2, _, h3, _, h4, heq⟩ := hdefault
    cases heq
    rw [ofJson?_object, ofJson?_object, field_without hvalue h1, field_without hvalue h2, field_without hvalue h3,
      field_without hvalue h4]

end ContextPart

namespace UserPart

def fieldNames : List String := ["userId", "username", "displayName", "emails", "phones", "isVerified", "isBlocked",
  "isActive", "isDeleted", "requiresPasswordUpdate", "workgroups", "labels"]

theorem ofJson?_object (m : List (String × Json)) : ofJson? (.object m) = (do
    return {
      userId := ← field m "userId" "" asString?
      username := ← field m "username" "" asString?
      displayName := ← field m "displayName" "" asString?
      emails := ← field m "emails" [] strings?
      phones := ← field m "phones" [] strings?
      isVerified := ← field m "isVerified" false bool?
      isBlocked := ← field m "isBlocked" false bool?
      isActive := ← field m "isActive" false bool?
      isDeleted := ← field m "isDeleted" false bool?
      requiresPasswordUpdate := ← field m "requiresPasswordUpdate" false bool?
      workgroups := ← field m "workgroups" [] strings?
      labels := ← field m "labels" [] (entries? asString?) }) := rfl

theorem ofJson?_toJson (u : UserPart) : ofJson? u.toJson = some u := by
  rw [toJson, ofFields, ofJson?_object]
  simp [field_setField, asString?, bool?, strings?_ofStrings, entries?_ofTexts]

theorem fieldwise : Fieldwise ofJson? fieldNames where
  congr := by
    intro m m' h
    simp only [fieldNames, List.forall_mem_cons] at h
    obtain ⟨h1, h2, h3, h4, h5, h6, h7, h8, h9, h10, h11, h12, -⟩ := h
    rw [ofJson?_object, ofJson?_object, field_congr h1, field_congr h2, field_congr h3, field_congr h4, field_congr h5,
      field_congr h6, field_congr h7, field_congr h8, field_congr h9, field_congr h10, field_congr h11, field_congr h12]
  leaveOut := by
    intro m key value hvalue hdefault
    rw [ofJson?_object, show ofJson? (.object []) = some {} from rfl] at hdefault
    simp only [bind, Option.bind_eq_some_iff] at hdefault
    obtain ⟨_, h1, _, h2, _, h3, _, h4, _, h5, _, h6, _, h7, _, h8, _, h9, _, h10, _, h11, _, h12, heq⟩ := hdefault
    cases heq
    rw [ofJson?_object, ofJson?_object, field_without hvalue h1, field_without hvalue h2, field_without hvalue h3,
      field_without hvalue h4, field_without hvalue h5, field_without hvalue h6, field_without hvalue h7,
      field_without hvalue h8, field_without hvalue h9, field_without hvalue h10, field_without hvalue h11,
      field_without hvalue h12]

end UserPart

/-! ### The whole request -/

namespace Request

def fieldNames : List String := ["httpRequest", "contextRequest", "userRightRequest"]

theorem ofJson?_object (m : List (String × Json)) : ofJson? (.object m) = (do
    return {
      http := ← field m "httpRequest" {} HttpPart.ofJson?
      context := ← field m "contextRequest" {} ContextPart.ofJson?
      user := ← field m "userRightRequest" {} UserPart.ofJson? }) := rfl

theorem ofJson?_toJson (r : Request) : ofJson? r.toJson = some r := by
  rw [toJson, ofFields, ofJson?_object]
  simp [field_setField, HttpPart.ofJson?_toJson, ContextPart.ofJson?_toJson, UserPart.ofJson?_toJson]

theorem fieldwise : Fieldwise ofJson? fieldNames where
  congr := by
    intro m m' h
    simp only [fieldNames, List.forall_mem_cons] at h
    obtain ⟨h1, h2, h3, -⟩ := h
    rw [ofJson?_object, ofJson?_object, field_congr h1, field_congr h2, field_congr h3]
  leaveOut := by
    intro m key value hvalue hdefault
    rw [ofJson?_object, show ofJson? (.object []) = some {} from rfl] at hdefault
    simp only [bind, Option.bind_eq_some_iff] at hdefault
    obtain ⟨_, h1, _, h2, _, h3, heq⟩ := hdefault
    cases heq
    rw [ofJson?_object, ofJson?_object, field_without hvalue h1, field_without hvalue h2, field_without hvalue h3]

/-! ### Edits -/

/-- One edit of a request, or of a part of it, that the record does not see. -/
inductive Edit : Json → Json → Prop
  | request {fields fields' : List (String × Json)} :
    Json.Edit Request.ofJson? fieldNames fields fields' → Edit (.object fields) (.object fields')
  | http {fields part part' : List (String × Json)} : fields.lookup "httpRequest" = some (.object part) →
    Json.Edit HttpPart.ofJson? HttpPart.fieldNames part part' →
    Edit (.object fields) (.object (setField "httpRequest" (.object part') fields))
  | context {fields part part' : List (String × Json)} : fields.lookup "contextRequest" = some (.object part) →
    Json.Edit ContextPart.ofJson? ContextPart.fieldNames part part' →
    Edit (.object fields) (.object (setField "contextRequest" (.object part') fields))
  | user {fields part part' : List (String × Json)} : fields.lookup "userRightRequest" = some (.object part) →
    Json.Edit UserPart.ofJson? UserPart.fieldNames part part' →
    Edit (.object fields) (.object (setField "userRightRequest" (.object part') fields))

/-- A part that is read as before is read as before in its request. -/
private theorem field_setField_part {α : Type} {fields part part' : List (String × Json)} {key : String} {default : α}
    {read : Json → Option α} (hpart : fields.lookup key = some (.object part))
    (h : read (.object part') = read (.object part)) :
    field (setField key (.object part') fields) key default read = field fields key default read := by
  rw [field_setField, if_pos rfl, field_of_lookup hpart, h]

theorem ofJson?_of_edit {j j' : Json} (h : Edit j j') : ofJson? j' = ofJson? j := by
  cases h with
  | request hedit => exact fieldwise.read_edit hedit
  | http hpart hedit =>
    rw [ofJson?_object, ofJson?_object, field_setField_part hpart (HttpPart.fieldwise.read_edit hedit)]
    simp [field_setField]
  | context hpart hedit =>
    rw [ofJson?_object, ofJson?_object, field_setField_part hpart (ContextPart.fieldwise.read_edit hedit)]
    simp [field_setField]
  | user hpart hedit =>
    rw [ofJson?_object, ofJson?_object, field_setField_part hpart (UserPart.fieldwise.read_edit hedit)]
    simp [field_setField]

theorem ofJson?_of_edits {j j' : Json} (h : Relation.ReflTransGen Edit j j') : ofJson? j' = ofJson? j := by
  induction h with
  | refl => rfl
  | tail _ hedit ih => rw [ofJson?_of_edit hedit, ih]

end Request

/-! ### Evaluating a completed request -/

namespace CommandLine

theorem answerFor_completed {j : Json} {r : Request} (h : Request.ofJson? j = some r) (evaluation : Evaluation)
    (registry : Registry) :
    answerFor { evaluation with raw := false } registry j =
      answerFor { evaluation with raw := true } registry r.toJson := by
  rw [answerFor, answerFor, if_neg Bool.false_ne_true, if_pos rfl, h]
  rfl

theorem evaluate_completed {j : Json} {r : Request} (h : Request.ofJson? j = some r) {text completed : String}
    (htext : Json.parse? text = some j) (hcompleted : Json.parse? completed = some r.toJson) (settings : Settings)
    (evaluation : Evaluation) (format : Format) (found : Found) :
    evaluate settings { evaluation with raw := false } format (.ok text) found =
      evaluate settings { evaluation with raw := true } format (.ok completed) found := by
  simp only [evaluate, readEvent, htext, hcompleted, Option.elim, answerFor_completed h, bind, Except.bind]

end CommandLine

/-- The written form of the request completes the one that it was read from, and stands for it. -/
structure Request.Completes (r : Request) (j : Json) : Prop where
  /-- It is read as the request again, and so it is its own completed form. -/
  again : Request.ofJson? r.toJson = some r
  /-- The request is answered as its completed form is. -/
  answer : ∀ (registry : Registry) (route : String), registry.answer route r = registry.answerEvent route r.toJson
  /-- Unknown fields, and fields that say what is so without them, do not change the answer. -/
  edits : ∀ j', Relation.ReflTransGen Request.Edit j j' → ∃ r', Request.ofJson? j' = some r' ∧
    ∀ (registry : Registry) (route : String), registry.answer route r' = registry.answerEvent route r.toJson
  /-- The program writes the same for the request as for its completed form, and for this whether or not it is matched
  as it is. -/
  commands : ∀ text completed, Json.parse? text = some j → Json.parse? completed = some r.toJson →
    ∀ (settings : Settings) (evaluation : CommandLine.Evaluation) (format : CommandLine.Format)
      (found : CommandLine.Found),
      CommandLine.evaluate settings { evaluation with raw := false } format (.ok text) found =
        CommandLine.evaluate settings { evaluation with raw := true } format (.ok completed) found ∧
      CommandLine.evaluate settings { evaluation with raw := false } format (.ok completed) found =
        CommandLine.evaluate settings { evaluation with raw := true } format (.ok completed) found

theorem completion {j : Json} {r : Request} (h : Request.ofJson? j = some r) : r.Completes j where
  again := r.ofJson?_toJson
  answer _ _ := rfl
  edits _ hedits := ⟨r, (Request.ofJson?_of_edits hedits).trans h, fun _ _ => rfl⟩
  commands _ _ htext hcompleted settings evaluation format found :=
    ⟨CommandLine.evaluate_completed h htext hcompleted settings evaluation format found,
      CommandLine.evaluate_completed r.ofJson?_toJson hcompleted hcompleted settings evaluation format found⟩

/-- A request with a field that it does not know, and a user who is not active, as no user is without that field. -/
def visit : Json :=
  .object [("extra", ofInt 1), ("userRightRequest", .object [("isActive", .bool false), ("userId", .string "guest")])]

/-- Both fields are left out, and another one is added. -/
theorem completion_visit :
    let r : Request := { user := { userId := "guest" } }
    let shorter := Json.object [("note", .null), ("userRightRequest", .object [("userId", .string "guest")])]
    Request.ofJson? visit = some r ∧ Relation.ReflTransGen Request.Edit visit shorter ∧ r.Completes visit ∧
      Request.ofJson? shorter = some r := by
  intro r shorter
  have hread : Request.ofJson? visit = some r := by rfl
  let part : Json := .object [("isActive", .bool false), ("userId", .string "guest")]
  let part' : Json := .object [("userId", .string "guest")]
  have hextra : Request.Edit visit (.object [("userRightRequest", part)]) := by
    have hedit : Request.Edit visit _ := .request (.remove "extra" (by decide))
    simpa [without, part] using hedit
  have hactive : Request.Edit (.object [("userRightRequest", part)]) (.object [("userRightRequest", part')]) := by
    have hedit : Request.Edit (.object [("userRightRequest", part)]) _ := .user rfl (.leaveOut "isActive" rfl rfl)
    simpa [without, setField, part'] using hedit
  have hnote : Request.Edit (.object [("userRightRequest", part')]) shorter := by
    have hedit : Request.Edit (.object [("userRightRequest", part')]) _ := .request (.add "note" .null (by decide))
    rwa [setField, if_pos (by decide)] at hedit
  exact ⟨hread, ((Relation.ReflTransGen.single hextra).tail hactive).tail hnote, completion hread, rfl⟩

end AccessPolicy
