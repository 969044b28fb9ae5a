/-!
# Finite doubles

Every finite binary64 number is a whole number of units of `2 ^ -1074`, so its magnitude is kept as that natural
number and its sign beside it (a zero has one too).  Order is that of the integers; the other operations compute
exactly and round once: `nearest` keeps 53 significant binary digits, and a half goes to the even neighbour.
-/

namespace AccessPolicy

/-- A finite double: its sign, and its magnitude in units of `2 ^ -1074`. -/
structure Double where
  negative : Bool
  units : Nat
deriving DecidableEq, Repr

namespace Double

/-- The number one, in units. -/
def one : Nat := 1 <<< 1074

/-- Magnitudes from here on are out of range. -/
def limit : Nat := 1 <<< 2098

/-- The quotient with 53 significant binary digits that is nearest to `num / den`, in units. -/
def nearest (num den : Nat) : Nat :=
  let shift := Nat.log2 (num / den) - 52
  let step := den <<< shift
  let quotient := num / step
  let rest := num % step
  let up := step < 2 * rest || (step == 2 * rest && quotient % 2 == 1)
  (if up then quotient + 1 else quotient) <<< shift

/-- The value in units, with its sign. -/
def signed (a : Double) : Int := if a.negative then -(a.units : Int) else a.units

def ofInt (n : Int) : Double := ⟨n < 0, nearest (n.natAbs * one) 1⟩

def lt (a b : Double) : Bool := a.signed < b.signed

def le (a b : Double) : Bool := a.signed ≤ b.signed

/-- The rounded difference is smaller than `2 ^ -52`. -/
def close (a b : Double) : Bool := nearest (a.signed - b.signed).natAbs 1 < 1 <<< 1022

/-- The double nearest to a power of ten, in units. -/
def powerOfTen (exponent : Nat) : Nat := nearest (Nat.pow 10 exponent * one) 1

/-- A magnitude times a power of ten.  One factor of at most `10 ^ 308` is taken at a time, and each result is
rounded; there is none when the value is out of range. -/
def scale (units : Nat) (exponent : Int) : Option Nat :=
  if exponent < -308 then
    if units = 0 then some 0 else scale (nearest (units * one) (powerOfTen 308)) (exponent + 308)
  else if exponent < 0 then some (nearest (units * one) (powerOfTen exponent.natAbs))
  else if units = 0 then some 0
  else if 308 < exponent then none
  else
    let product := nearest (units * powerOfTen exponent.natAbs) one
    if product < limit then some product else none
termination_by exponent.natAbs
decreasing_by omega

/-- The double for `significand * 10 ^ exponent`. -/
def ofDecimal (negative : Bool) (significand : Nat) (exponent : Int) : Option Double :=
  (scale (nearest (significand * one) 1) exponent).map fun units => ⟨negative, units⟩

end Double

end AccessPolicy
