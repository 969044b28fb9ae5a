import AccessPolicy.Number.Shortest

/-!
# Doubles with infinities

The numbers of settings: any double, the infinities, and the value that is no number.  A decimal text is read as the
double nearest to it, and a number is written in the fewest digits that read back, without an exponent.
-/

namespace AccessPolicy

inductive ExtendedDouble
  | finite (d : Double)
  | infinite (negative : Bool)
  | undefined
deriving DecidableEq, Repr

namespace ExtendedDouble

/-- The double nearest to `significand * 10 ^ exponent`.  Exponents far out of range are not computed. -/
def ofDecimal (negative : Bool) (significand : Nat) (exponent : Int) : ExtendedDouble :=
  let magnitude : Int := (Text.digits significand).length + exponent
  if significand = 0 ∨ magnitude < -330 then finite ⟨negative, 0⟩
  else if 310 < magnitude then infinite negative
  else
    let units := Double.onGrid significand exponent
    if units < Double.limit then finite ⟨negative, units⟩ else infinite negative

private def exponentOf : List Char → Option Int
  | [] => some 0
  | c :: cs => if c == 'e' || c == 'E' then Text.readInt cs else none

/-- Digits with a point among them or at an end, then optionally an exponent. -/
def ofMagnitude? (negative : Bool) (cs : List Char) : Option ExtendedDouble := do
  let whole := cs.takeWhile Char.isDigit
  let rest := cs.dropWhile Char.isDigit
  let afterPoint := if rest.head? == some '.' then rest.drop 1 else []
  let fraction := afterPoint.takeWhile Char.isDigit
  let rest := if rest.head? == some '.' then afterPoint.dropWhile Char.isDigit else rest
  if whole.isEmpty && fraction.isEmpty then none
  let exponent ← exponentOf rest
  return ofDecimal negative (Text.ofDigits (whole ++ fraction)) (exponent - fraction.length)

/-- A number after an optional sign; the names of the other values are read in any case. -/
def ofText? (text : List Char) : Option ExtendedDouble :=
  let negative := text.head? == some '-'
  let unsigned := if negative || text.head? == some '+' then text.drop 1 else text
  let name := String.ofList (unsigned.map Char.toLower)
  if name = "inf" ∨ name = "infinity" then some (infinite negative)
  else if name = "nan" then some undefined
  else ofMagnitude? negative unsigned

def text : ExtendedDouble → String
  | finite d =>
    let sign := if d.negative then "-" else ""
    if d.units = 0 then sign ++ "0"
    else
      let (ds, place) := Double.shortestDigits d.units
      sign ++ String.ofList (Double.positional ds place)
  | infinite negative => if negative then "-inf" else "inf"
  | undefined => "NaN"

/-- Everything but the zeros. -/
def isNonzero : ExtendedDouble → Bool
  | finite d => d.units ≠ 0
  | _ => true

end ExtendedDouble

end AccessPolicy
