import AccessPolicy.Json.Record
import Mathlib.Data.String.Basic

/-!
# Fields of records

A record is read field by field, so only what an object has under the names of the record matters (`lookup_setField`,
`lookup_without`).  An edit that the record does not see adds or removes a field of another name, or leaves out a field
that says what the record would have without it; where records are read field by field (`Fieldwise`), it changes nothing
(`Fieldwise.read_edit`).
-/

namespace AccessPolicy.Json

variable {α β : Type}

/-! ### Looking fields up -/

theorem lookup_cons (key : String) (value : β) (fields : List (String × β)) (name : String) :
    ((key, value) :: fields).lookup name = if name = key then some value else fields.lookup name := by
  rw [List.lookup_cons]
  by_cases h : name = key
  · simp [h]
  · simp [h, beq_eq_false_iff_ne.2 h]

theorem lookup_setField (key : String) (value : Json) (fields : List (String × Json)) (name : String) :
    (setField key value fields).lookup name = if name = key then some value else fields.lookup name := by
  induction fields with
  | nil => exact lookup_cons key value [] name
  | cons field fields ih =>
    obtain ⟨k, v⟩ := field
    rw [setField]
    split
    · exact lookup_cons key value _ name
    · split
      · rename_i heq
        rw [lookup_cons, lookup_cons, heq]
        by_cases h : name = k <;> simp [h]
      · rename_i hne
        rw [lookup_cons, lookup_cons, ih]
        by_cases h : name = k
        · simp [h, Ne.symm hne]
        · simp [h]

/-- The fields without those of a name. -/
def without (key : String) (fields : List (String × Json)) : List (String × Json) := fields.filter (·.1 ≠ key)

theorem lookup_without (key : String) (fields : List (String × Json)) (name : String) :
    (without key fields).lookup name = if name = key then none else fields.lookup name := by
  induction fields with
  | nil => simp [without]
  | cons field fields ih =>
    obtain ⟨k, v⟩ := field
    rw [without] at ih ⊢
    rw [lookup_cons]
    by_cases hkey : k = key
    · rw [List.filter_cons_of_neg (by simpa using hkey), ih, hkey]
      by_cases h : name = key <;> simp [h]
    · rw [List.filter_cons_of_pos (by simpa using hkey), lookup_cons, ih]
      by_cases h : name = k
      · simp [h, hkey]
      · simp [h]

/-! ### Reading a field -/

theorem field_congr {members members' : List (String × Json)} {name : String}
    (h : members.lookup name = members'.lookup name) (default : α) (read : Json → Option α) :
    field members name default read = field members' name default read := by
  rw [field, field, h]

theorem field_of_lookup {members : List (String × Json)} {name : String} {value : Json}
    (h : members.lookup name = some value) (default : α) (read : Json → Option α) :
    field members name default read = read value := by
  rw [field, h]

theorem field_cons (key : String) (value : Json) (members : List (String × Json)) (name : String) (default : α)
    (read : Json → Option α) :
    field ((key, value) :: members) name default read =
      if name = key then read value else field members name default read := by
  rw [field, lookup_cons]
  by_cases h : name = key
  · rw [if_pos h, if_pos h]
  · rw [if_neg h, if_neg h, field]

/-- A field that alone is read as the default may be left out. -/
theorem field_without {members : List (String × Json)} {key name : String} {value : Json} {default : α}
    {read : Json → Option α} (hvalue : members.lookup key = some value)
    (hdefault : field [(key, value)] name default read = some default) :
    field (without key members) name default read = field members name default read := by
  by_cases h : name = key
  · rw [field_cons, if_pos h] at hdefault
    rw [field, lookup_without, if_pos h, field_of_lookup (h ▸ hvalue), hdefault]
  · exact field_congr (by rw [lookup_without, if_neg h]) default read

theorem field_setField (key : String) (value : Json) (members : List (String × Json)) (name : String) (default : α)
    (read : Json → Option α) :
    field (setField key value members) name default read =
      if name = key then read value else field members name default read := by
  rw [field, lookup_setField]
  by_cases h : name = key
  · rw [if_pos h, if_pos h]
  · rw [if_neg h, if_neg h, field]

/-! ### Values that are read back -/

theorem uint16?_ofNat (n : UInt16) : uint16? (ofNat n.toNat) = some n := by
  have hrange : 0 ≤ (n.toNat : Int) ∧ (n.toNat : Int) < UInt16.size := ⟨by omega, by exact_mod_cast n.toNat_lt⟩
  rw [ofNat, ofInt, uint16?, if_pos hrange, Int.toNat_natCast, UInt16.ofNat_toNat]

theorem mapM_map_eq_some {f : α → β} {g : β → Option α} (h : ∀ a, g (f a) = some a) (as : List α) :
    (as.map f).mapM g = some as := by
  induction as with
  | nil => rfl
  | cons a as ih => simp [List.mapM_cons, h, ih]

theorem strings?_ofStrings (items : List String) : strings? (ofStrings items) = some items :=
  mapM_map_eq_some (f := Json.string) (g := asString?) (fun _ => rfl) items

theorem entries?_object (write : α → Json) {read : Json → Option α} (h : ∀ a, read (write a) = some a)
    (entries : List (String × α)) :
    entries? read (object (entries.map fun (key, a) => (key, write a))) = some entries :=
  mapM_map_eq_some (fun (key, a) => congrArg (Option.map fun v => (key, v)) (h a)) entries

/-! ### Edits that a record does not see -/

/-- One edit of an object that is read as a record with these names. -/
inductive Edit (read : Json → Option α) (names : List String) : List (String × Json) → List (String × Json) → Prop
  | add {fields : List (String × Json)} (key : String) (value : Json) : key ∉ names →
    Edit read names fields (setField key value fields)
  | remove {fields : List (String × Json)} (key : String) : key ∉ names → Edit read names fields (without key fields)
  /-- A record that has only this field is read as one that has none. -/
  | leaveOut {fields : List (String × Json)} (key : String) {value : Json} : fields.lookup key = some value →
    read (object [(key, value)]) = read (object []) → Edit read names fields (without key fields)

/-- Objects are read field by field under these names. -/
structure Fieldwise (read : Json → Option α) (names : List String) : Prop where
  congr : ∀ {fields fields' : List (String × Json)}, (∀ name ∈ names, fields.lookup name = fields'.lookup name) →
    read (object fields) = read (object fields')
  leaveOut : ∀ {fields : List (String × Json)} {key : String} {value : Json}, fields.lookup key = some value →
    read (object [(key, value)]) = read (object []) → read (object (without key fields)) = read (object fields)

theorem Fieldwise.read_edit {read : Json → Option α} {names : List String} (h : Fieldwise read names)
    {fields fields' : List (String × Json)} (hedit : Edit read names fields fields') :
    read (object fields') = read (object fields) := by
  cases hedit with
  | add key value hkey =>
    refine h.congr fun name hname => ?_
    rw [lookup_setField, if_neg (ne_of_mem_of_not_mem hname hkey)]
  | remove key hkey =>
    refine h.congr fun name hname => ?_
    rw [lookup_without, if_neg (ne_of_mem_of_not_mem hname hkey)]
  | leaveOut key hvalue hdefault => exact h.leaveOut hvalue hdefault

end AccessPolicy.Json
