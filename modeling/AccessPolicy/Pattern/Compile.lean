import AccessPolicy.Glob
import AccessPolicy.Json.Reader
import AccessPolicy.Pattern.Basic
import AccessPolicy.Text.Blank

/-!
# Reading a pattern from JSON

An object is a pattern: its field `$or` holds the choices, any other field an object (a nested pattern) or a
non-empty array (the alternatives of a leaf).  An alternative is a plain value or an object with one operator.
The error is the first one met: fields in ascending order of their names, arrays from left to right, the inside
of a value before what follows it.
-/

namespace AccessPolicy

/-- Why an element of a leaf is no alternative. -/
inductive OperatorFault
  | nestedArray
  | notOneKey
  | needsText (operator : String)
  | wildcard (glob reason : String)
  | needsTruth
  | exclusionList
  | exclusionObject
  | numericForm
  | network (text : String)
  | unknown (operator : String)
deriving DecidableEq, Repr

def OperatorFault.message : OperatorFault → String
  | nestedArray => "nested arrays are not allowed"
  | notOneKey => "operator objects must have exactly one key"
  | needsText operator => s!"'{operator}' takes a string"
  | wildcard glob reason => s!"invalid wildcard '{glob}': {reason}"
  | needsTruth => "'exists' takes true or false"
  | exclusionList => "'anything-but' lists must contain plain values"
  | exclusionObject => "'anything-but' objects take a single 'prefix' or 'suffix' string"
  | numericForm => "'numeric' takes one or two [operator, number] pairs, e.g. [\">\", 0, \"<=\", 5]"
  | network text => s!"invalid cidr '{text}': invalid address: {text}"
  | unknown operator => s!"unknown operator '{operator}'"

/-- Why a text is no pattern; a field is named by the path to it, with points between the names. -/
inductive PatternError
  | notJson
  | rootNotObject
  | leafForm (field : String)
  | emptyLeaf (field : String)
  | operator (field : String) (fault : OperatorFault)
  | choices (field : String)
deriving DecidableEq, Repr

def PatternError.message : PatternError → String
  | notJson => "pattern is not valid JSON"
  | rootNotObject => "pattern root must be a JSON object"
  | leafForm field => s!"pattern for field '{field}' must be an object or an array of alternatives"
  | emptyLeaf field => s!"pattern for field '{field}' has no alternatives"
  | operator field fault => s!"invalid operator for field '{field}': {fault.message}"
  | choices field => s!"'$or' at '{field}' must be a non-empty array of objects"

namespace Pattern

variable [Regex.Engine]

/-! ### Alternatives -/

def textArgument (operator : String) : Json → Except OperatorFault String
  | .string s => .ok s
  | _ => .error (.needsText operator)

def bound? (symbol bound : Json) : Option (Comparison × Double) := do
  let comparison ← Comparison.ofSymbol? (← symbol.asString?)
  return (comparison, (← bound.asNumber?).toDouble)

/-- One or two bounds, each a comparison and a number. -/
def numericTest : Json → Except OperatorFault Test
  | .array [symbol, bound] =>
    match bound? symbol bound with
    | some b => .ok (.numeric [b])
    | none => .error .numericForm
  | .array [symbol, bound, symbol', bound'] =>
    match bound? symbol bound, bound? symbol' bound' with
    | some b, some b' => .ok (.numeric [b, b'])
    | _, _ => .error .numericForm
  | _ => .error .numericForm

/-- What a value must not be: one of a list, a value, or a text with a start or an end. -/
def exclusionTest : Json → Except OperatorFault Test
  | .array values => if values.any fun v => v.isArray || v.isObject then .error .exclusionList else .ok (.noneOf values)
  | .object [("prefix", .string start)] => .ok (.notStartsWith start)
  | .object [("suffix", .string stop)] => .ok (.notEndsWith stop)
  | .object _ => .error .exclusionObject
  | value => .ok (.noneOf [value])

def operatorTest (operator : String) (argument : Json) : Except OperatorFault Alternative :=
  match operator with
  | "prefix" => do return .passes (.startsWith (← textArgument operator argument))
  | "suffix" => do return .passes (.endsWith (← textArgument operator argument))
  | "equals-ignore-case" => do return .passes (.equalsIgnoringCase (Text.lower (← textArgument operator argument)))
  | "wildcard" => do
    let glob ← textArgument operator argument
    return .passes (.matchesWhole (← (Regex.compile (Glob.source glob)).mapError (.wildcard glob)))
  | "exists" =>
    match argument with
    | .bool expected => .ok (.present expected)
    | _ => .error .needsTruth
  | "anything-but" => do return .passes (← exclusionTest argument)
  | "numeric" => do return .passes (← numericTest argument)
  | "cidr" => do
    let text ← textArgument operator argument
    match Network.parse? text with
    | some network => return .passes (.within network)
    | none => throw (.network text)
  | _ => .error (.unknown operator)

def alternative : Json → Except OperatorFault Alternative
  | .array _ => .error .nestedArray
  | .object [(operator, argument)] => operatorTest operator argument
  | .object _ => .error .notOneKey
  | value => .ok (.passes (.equals value))

/-! ### Constraints -/

/-- The path to a field of what is at a path. -/
def join (path key : String) : String := if path = "" then key else path ++ "." ++ key

mutual

/-- The constraints of an object that is at a path, from its fields. -/
def ofFields (path : String) : List (String × Json) → Except PatternError (List Constraint)
  | [] => .ok []
  | (key, value) :: fields => do
    let c ← ofField path key value
    let cs ← ofFields path fields
    return c :: cs

def ofField (path key : String) : Json → Except PatternError Constraint
  | .array [] => .error (if key = "$or" then .choices path else .emptyLeaf (join path key))
  | .array (item :: items) =>
    if key = "$or" then do return .anyOf (← ofChoices path (item :: items))
    else do
      let field := join path key
      return .leaf key (← (item :: items).mapM fun e => (alternative e).mapError (.operator field))
  | .object fields =>
    if key = "$or" then .error (.choices path)
    else do return .nested key (← ofFields (join path key) fields)
  | _ => .error (if key = "$or" then .choices path else .leafForm (join path key))

/-- The patterns of a choice, all at the same path. -/
def ofChoices (path : String) : List Json → Except PatternError (List (List Constraint))
  | [] => .ok []
  | .object fields :: items => do
    let choice ← ofFields path fields
    let rest ← ofChoices path items
    return choice :: rest
  | _ :: _ => .error (.choices path)

end

def ofJson : Json → Except PatternError Pattern
  | .object fields => do return ⟨← ofFields "" fields⟩
  | _ => .error .rootNotObject

/-- The pattern of a text; a blank text is the pattern of every event. -/
def parse (text : String) : Except PatternError Pattern :=
  if Text.trimmed text = "" then .ok all
  else
    match Json.parse? text with
    | some value => ofJson value
    | none => .error .notJson

end Pattern

end AccessPolicy
