import AccessPolicy.Number.Double
import AccessPolicy.Text.Decimal

/-!
# The shortest text of a double

A double is written with the fewest significant digits that read back as it, and among those with the ones
nearest to it.  For each number of digits only the two neighbours on the decimal grid have to be tried.
-/

namespace AccessPolicy.Double

/-- The decimal place of the leading digit of a positive magnitude: `10 ^ place ≤ value < 10 ^ (place + 1)`. -/
def leadingPlace (units : Nat) : Int := (Text.digits (units * Nat.pow 10 400 / one)).length - 401

/-- The units nearest to `digits * 10 ^ place`. -/
def onGrid (digits : Nat) (place : Int) : Nat :=
  if 0 ≤ place then nearest (digits * Nat.pow 10 place.natAbs * one) 1
  else nearest (digits * one) (Nat.pow 10 place.natAbs)

/-- The neighbour on the grid of `10 ^ place` that reads back as the magnitude; of two, the nearer one. -/
def shortestAt (units : Nat) (place : Int) : Option Nat :=
  let power := Nat.pow 10 place.natAbs
  let (num, den) := if 0 ≤ place then (units, one * power) else (units * power, one)
  let below := num / den
  let rest := num % den
  match onGrid below place == units, onGrid (below + 1) place == units with
  | true, true => some (if 2 * rest < den || (2 * rest == den && below % 2 == 0) then below else below + 1)
  | true, false => some below
  | false, true => some (below + 1)
  | false, false => none

/-- The shortest decimal that reads back as a positive magnitude: its digits as one number, and the place of the
last of them. -/
def shortest (units : Nat) : Nat × Int :=
  let lead := leadingPlace units
  let found := (List.range 17).findSome? fun (k : Nat) =>
    let place := lead - (k : Int)
    (shortestAt units place).map fun digits => (digits, place)
  found.getD (0, 0)

/-- The digits of the shortest decimal, without zeros at the end, and the place of the last of them. -/
def shortestDigits (units : Nat) : List Char × Int :=
  let (number, place) := shortest units
  let ds := Text.digits number
  let kept := (ds.reverse.dropWhile (· == '0')).reverse
  (kept, place + (ds.length - kept.length : Int))

/-- Digits in their places, with a point where there are places after it. -/
def positional (ds : List Char) (place : Int) : List Char :=
  let point : Int := ds.length + place
  if 0 ≤ place then ds ++ List.replicate place.natAbs '0'
  else if 0 < point then ds.take point.natAbs ++ '.' :: ds.drop point.natAbs
  else '0' :: '.' :: (List.replicate point.natAbs '0' ++ ds)

/-- Up to 16 digits before the point and up to four zeros after it are written out; beyond that an exponent is
used.  A whole number ends in `.0`. -/
def render (a : Double) : String :=
  let sign := if a.negative then "-" else ""
  if a.units = 0 then sign ++ "0.0"
  else
    let (ds, place) := shortestDigits a.units
    let point : Int := ds.length + place
    let body : List Char :=
      if -5 < point ∧ point ≤ 16 then positional ds place ++ (if 0 ≤ place then ['.', '0'] else [])
      else
        let fraction := if ds.length = 1 then [] else '.' :: ds.drop 1
        ds.take 1 ++ fraction ++ 'e' :: Text.decimal (point - 1)
    sign ++ String.ofList body

end AccessPolicy.Double
