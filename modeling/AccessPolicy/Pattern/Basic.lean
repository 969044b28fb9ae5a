import AccessPolicy.Json.Value
import AccessPolicy.Network
import AccessPolicy.Regex
import AccessPolicy.Text.Lower

/-!
# Patterns over JSON events

A pattern is a list of constraints on the fields of an event, all of which have to hold.  A leaf gives the
alternatives for the value of a field; a nested pattern constrains the fields of a field; and `anyOf` asks that
the same value satisfies one of several patterns.  An array stands for its elements: a leaf holds if one element
passes, a nested pattern if one element that is an object satisfies it whole.
-/

namespace AccessPolicy

inductive Comparison
  | equal
  | less
  | atMost
  | greater
  | atLeast
deriving DecidableEq, Repr

namespace Comparison

def ofSymbol? : String → Option Comparison
  | "=" => some equal
  | "<" => some less
  | "<=" => some atMost
  | ">" => some greater
  | ">=" => some atLeast
  | _ => none

/-- Numbers are equal here when they are close. -/
def holds (comparison : Comparison) (value bound : Double) : Bool :=
  match comparison with
  | equal => value.close bound
  | less => value.lt bound
  | atMost => value.le bound
  | greater => bound.lt value
  | atLeast => bound.le value

end Comparison

/-- A plain value and another value are the same; numbers are when they are close. -/
def Json.same : Json → Json → Bool
  | null, null => true
  | bool a, bool b => a == b
  | number a, number b => a.toDouble.close b.toDouble
  | string a, string b => a == b
  | _, _ => false

/-- A test of a single value. -/
inductive Test
  | equals (value : Json)
  | startsWith (start : String)
  | endsWith (stop : String)
  /-- The text is in lower case. -/
  | equalsIgnoringCase (text : String)
  | matchesWhole (expression : Regex)
  | noneOf (values : List Json)
  | notStartsWith (start : String)
  | notEndsWith (stop : String)
  | numeric (bounds : List (Comparison × Double))
  | within (network : Network)
deriving Repr

private def startsWith (text start : String) : Bool := start.toList.isPrefixOf text.toList

private def endsWith (text stop : String) : Bool := stop.toList.isSuffixOf text.toList

def Test.accepts : Test → Json → Bool
  | equals expected, value => expected.same value
  | startsWith start, .string s => AccessPolicy.startsWith s start
  | endsWith stop, .string s => AccessPolicy.endsWith s stop
  | equalsIgnoringCase text, .string s => Text.lower s == text
  | matchesWhole expression, .string s => expression.accepts s
  | noneOf values, value => !values.any (·.same value)
  | notStartsWith start, .string s => !AccessPolicy.startsWith s start
  | notEndsWith stop, .string s => !AccessPolicy.endsWith s stop
  | numeric bounds, .number n => bounds.all fun (comparison, bound) => comparison.holds n.toDouble bound
  | within network, .string s => (Address.parse? s).any network.contains
  | _, _ => false

/-- One of the alternatives of a leaf. -/
inductive Alternative
  /-- The field is there, or is not. -/
  | present (expected : Bool)
  | passes (test : Test)
deriving Repr

def Alternative.accepts : Alternative → Option Json → Bool
  | present expected, value => value.isSome == expected
  | passes _, none => false
  | passes test, some (.array items) => items.any test.accepts
  | passes test, some value => test.accepts value

inductive Constraint
  | leaf (key : String) (alternatives : List Alternative)
  | nested (key : String) (constraints : List Constraint)
  | anyOf (choices : List (List Constraint))
deriving Repr

namespace Constraint

/-- The field of an event that may itself be missing. -/
def member (event : Option Json) (key : String) : Option Json := event.bind (·.get? key)

mutual

def holds : Constraint → Option Json → Bool
  | leaf key alternatives, event => alternatives.any (·.accepts (member event key))
  | nested key constraints, event =>
    match member event key with
    | some (.array items) => items.any fun item => item.isObject && allHold constraints (some item)
    | some (.object fields) => allHold constraints (some (.object fields))
    | _ => allHold constraints none
  | anyOf choices, event => anyHolds choices event

def allHold : List Constraint → Option Json → Bool
  | [], _ => true
  | c :: cs, event => holds c event && allHold cs event

def anyHolds : List (List Constraint) → Option Json → Bool
  | [], _ => false
  | choice :: choices, event => allHold choice event || anyHolds choices event

end

end Constraint

structure Pattern where
  constraints : List Constraint
deriving Repr

namespace Pattern

/-- The pattern of every event. -/
def all : Pattern := ⟨[]⟩

def isAll (p : Pattern) : Bool := p.constraints.isEmpty

def accepts (p : Pattern) (event : Json) : Bool := Constraint.allHold p.constraints (some event)

end Pattern

end AccessPolicy
