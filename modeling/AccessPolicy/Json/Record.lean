import AccessPolicy.Json.Value

/-!
# Records in JSON

A record is an object, or an array of its fields in the order of their declaration.  A field that is not there
has its default, a field that the record does not know is passed over, and a field that is there has exactly its
type; a record with one wrong field is refused.
-/

namespace AccessPolicy.Json

/-- The members of a record with these fields. -/
def members? (names : List String) : Json → Option (List (String × Json))
  | object fields => some fields
  | array items => if items.length ≤ names.length then some (names.zip items) else none
  | _ => none

/-- One field of a record. -/
def field (members : List (String × Json)) (name : String) (default : α) (read : Json → Option α) : Option α :=
  match members.lookup name with
  | none => some default
  | some value => read value

def bool? : Json → Option Bool
  | bool b => some b
  | _ => none

def int64? : Json → Option Int64
  | number (.integer n) =>
    if Int64.minValue.toInt ≤ n ∧ n ≤ Int64.maxValue.toInt then some (Int64.ofInt n) else none
  | _ => none

def uint16? : Json → Option UInt16
  | number (.integer n) => if 0 ≤ n ∧ n < UInt16.size then some (UInt16.ofNat n.toNat) else none
  | _ => none

def list? (read : Json → Option α) : Json → Option (List α)
  | array items => items.mapM read
  | _ => none

def strings? : Json → Option (List String) := list? asString?

/-- Null, or a value. -/
def nullable? (read : Json → Option α) : Json → Option (Option α)
  | null => some none
  | value => (read value).map some

/-- Names with values; never an array. -/
def entries? (read : Json → Option α) : Json → Option (List (String × α))
  | object fields => fields.mapM fun (key, value) => (read value).map fun v => (key, v)
  | _ => none

def ofNullable (write : α → Json) : Option α → Json
  | none => null
  | some a => write a

end AccessPolicy.Json
