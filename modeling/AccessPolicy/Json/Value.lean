import AccessPolicy.Number.Double

/-!
# JSON values

An object that is read keeps its fields in ascending order of their names, one field to a name; `setField` is the
operation that keeps it so.  One that is only written may have them in another order.  The order of strings is that of
their code points, which is also that of their UTF-8 bytes.
-/

namespace AccessPolicy

/-- An integer of 64 bits, signed or not, stays an integer; any other number is a double. -/
inductive Number
  | integer (n : Int)
  | double (d : Double)
deriving DecidableEq, Repr

/-- The double nearest to the number. -/
def Number.toDouble : Number → Double
  | integer n => .ofInt n
  | double d => d

inductive Json
  | null
  | bool (b : Bool)
  | number (n : Number)
  | string (s : String)
  | array (items : List Json)
  | object (fields : List (String × Json))
deriving Repr

namespace Json

instance : Inhabited Json := ⟨null⟩

/-- The fields with one of them set: in its place in the order, or instead of the one of that name. -/
def setField (key : String) (value : Json) : List (String × Json) → List (String × Json)
  | [] => [(key, value)]
  | (k, v) :: fields =>
    if key < k then (key, value) :: (k, v) :: fields
    else if key = k then (key, value) :: fields
    else (k, v) :: setField key value fields

/-- An object from fields in any order; of two with one name, the later one counts. -/
def ofFields (fields : List (String × Json)) : Json :=
  object (fields.foldl (fun sorted (key, value) => setField key value sorted) [])

/-- The member of an object; other values have none. -/
def get? (value : Json) (key : String) : Option Json :=
  match value with
  | object fields => fields.lookup key
  | _ => none

def isObject : Json → Bool
  | object _ => true
  | _ => false

def isArray : Json → Bool
  | array _ => true
  | _ => false

def asString? : Json → Option String
  | string s => some s
  | _ => none

def asNumber? : Json → Option Number
  | number n => some n
  | _ => none

def ofInt (n : Int) : Json := number (.integer n)

def ofNat (n : Nat) : Json := ofInt n

def ofStrings (items : List String) : Json := array (items.map string)

end Json

end AccessPolicy
