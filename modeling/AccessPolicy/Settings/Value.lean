import AccessPolicy.Json.Value
import AccessPolicy.Number.Extended
import AccessPolicy.Settings

/-!
# Values of settings

What a source of settings says is a table of values, and sources are laid over one another: a later table adds to an
earlier one, any other value replaces what was there.  Where a text or a truth value is needed, a value of another
type is converted if it can be.
-/

namespace AccessPolicy

inductive Setting
  | absent
  | truth (b : Bool)
  | integer (n : Int)
  | real (x : ExtendedDouble)
  | text (s : String)
  | items (values : List Setting)
  | table (entries : List (String × Setting))
deriving Repr

namespace Setting

instance : Inhabited Setting := ⟨absent⟩

/-! ### Conversions -/

def text? : Setting → Option String
  | truth b => some (if b then "true" else "false")
  | integer n => some (Text.renderInt n)
  | real x => some x.text
  | text s => some s
  | _ => none

private def truthOfText? (s : String) : Option Bool :=
  if ["1", "true", "on", "yes"].contains (Text.lower s) then some true
  else if ["0", "false", "off", "no"].contains (Text.lower s) then some false
  else none

def truth? : Setting → Option Bool
  | truth b => some b
  | integer n => some (n ≠ 0)
  | real x => some x.isNonzero
  | text s => truthOfText? s
  | _ => none

/-- The value that a plain text stands for: a truth value, a number, or else the text itself. -/
def ofText (s : String) : Setting :=
  if Text.lower s = "true" then truth true
  else if Text.lower s = "false" then truth false
  else
    match Text.readInt64 s.toList, ExtendedDouble.ofText? s.toList with
    | some n, _ => integer n.toInt
    | none, some x => real x
    | none, none => text s

private def ofNumber : Number → Setting
  | .integer n =>
    if Int64.minValue.toInt ≤ n ∧ n ≤ Int64.maxValue.toInt then integer n else real (.finite (.ofInt n))
  | .double d => real (.finite d)

mutual

def ofJson : Json → Setting
  | .null => absent
  | .bool b => truth b
  | .number n => ofNumber n
  | .string s => text s
  | .array values => items (ofItems values)
  | .object fields => table (ofFields fields)

def ofItems : List Json → List Setting
  | [] => []
  | value :: values => ofJson value :: ofItems values

def ofFields : List (String × Json) → List (String × Setting)
  | [] => []
  | (key, value) :: fields => (key, ofJson value) :: ofFields fields

end

/-! ### Layers -/

/-- The entries of a table; other values have none. -/
def entries : Setting → List (String × Setting)
  | table es => es
  | _ => []

/-- The entries with one of them changed, or added at the end. -/
def change (key : String) (f : Setting → Setting) : List (String × Setting) → List (String × Setting)
  | [] => [(key, f absent)]
  | (k, value) :: es => if k = key then (k, f value) :: es else (k, value) :: change key f es

mutual

/-- A value over another one. -/
def overlay : Setting → Setting → Setting
  | table es, under => table (overlayEntries es under.entries)
  | value, _ => value

def overlayEntries : List (String × Setting) → List (String × Setting) → List (String × Setting)
  | [], under => under
  | (key, value) :: es, under => overlayEntries es (change key (overlay value) under)

end

/-- A value over what is at a path in another one; whatever is no table on the way becomes one. -/
def overlayAt (value : Setting) : List String → Setting → Setting
  | [], under => overlay value under
  | key :: path, under => table (change key (overlayAt value path) under.entries)

/-- Letters, digits, underscores and hyphens. -/
private def isPathChar (c : Char) : Bool := c.isAlphanum || c == '_' || c == '-'

/-- The path that a key stands for: names with points between them.  Any other key is a name as a whole. -/
def pathOf (key : String) : List String :=
  let names := Text.splitEach '.' key.toList
  if names.all fun name => !name.isEmpty && name.all isPathChar then names.map String.ofList else [key]

/-- A source over another one: its keys may be paths. -/
def overlaySource (source : List (String × Setting)) (under : Setting) : Setting :=
  source.foldl (fun under (key, value) => overlayAt value (pathOf key) under) under

end Setting

namespace Settings

open Setting

/-- A record is a table, or a list of its fields in the order of their declaration. -/
private def recordOf (names : List String) : Setting → Option (List (String × Setting))
  | .table es => some es
  | .items values => some (names.zip values)
  | _ => none

private def entryOf (es : List (String × Setting)) (name : String) (default : α) (read : Setting → Option α) :
    Option α :=
  match es.lookup name with
  | none => some default
  | some value => read value

private def levelOf? (value : Setting) : Option String := do
  entryOf (← recordOf ["level"] value) "level" "info" text?

/-- The settings in a table; there are none when a value cannot be converted. -/
def ofSetting? (value : Setting) : Option Settings := do
  let es ← recordOf ["policy_dir", "file_suffix", "skip_invalid_policies", "emit_policy_logs", "logging"] value
  return {
    directory := ← entryOf es "policy_dir" "policies" text?
    suffix := ← entryOf es "file_suffix" ".policy" text?
    skipInvalid := ← entryOf es "skip_invalid_policies" true truth?
    emitLogs := ← entryOf es "emit_policy_logs" false truth?
    level := ← entryOf es "logging" "info" levelOf? }

end Settings

end AccessPolicy
