/-!
# Decimal integers

Writing a number in decimal digits, and reading one back under the rules of the integer fields: an optional
sign, then ASCII digits only, then a range.  `ofDigits_digits` ties the two together.
-/

namespace AccessPolicy.Text

/-- The value of an ASCII digit. -/
def digitValue (c : Char) : Nat := c.toNat - '0'.toNat

def digitChar (d : Nat) : Char := Char.ofNat ('0'.toNat + d)

/-- The value of a hexadecimal digit, in either case. -/
def hexValue? (c : Char) : Option Nat :=
  if c.isDigit then some (digitValue c)
  else if 'a' ≤ c ∧ c ≤ 'f' then some (c.toNat - 'a'.toNat + 10)
  else if 'A' ≤ c ∧ c ≤ 'F' then some (c.toNat - 'A'.toNat + 10)
  else none

/-- The number that a row of digits stands for. -/
def ofDigits (ds : List Char) : Nat := ds.foldl (fun n d => 10 * n + digitValue d) 0

/-- A number in decimal digits, without leading zeros. -/
def digits (n : Nat) : List Char :=
  if n < 10 then [digitChar n] else digits (n / 10) ++ [digitChar (n % 10)]

/-- An integer in decimal digits, after a minus sign when it is negative. -/
def decimal : Int → List Char
  | .ofNat n => digits n
  | .negSucc n => '-' :: digits (n + 1)

/-- An integer as text. -/
def renderInt (n : Int) : String := String.ofList (decimal n)

/-- A row of one or more ASCII digits. -/
def readDigits (cs : List Char) : Option Nat :=
  if !cs.isEmpty && cs.all Char.isDigit then some (ofDigits cs) else none

/-- Digits after an optional plus sign. -/
def readNat : List Char → Option Nat
  | '+' :: cs => readDigits cs
  | cs => readDigits cs

/-- Digits after an optional sign. -/
def readInt : List Char → Option Int
  | '-' :: cs => (readDigits cs).map fun n => -(n : Int)
  | cs => (readNat cs).map Int.ofNat

/-- An integer in the range of 64 bits. -/
def readInt64 (cs : List Char) : Option Int64 := do
  let n ← readInt cs
  if Int64.minValue.toInt ≤ n ∧ n ≤ Int64.maxValue.toInt then some (Int64.ofInt n) else none

/-- A natural number below `2 ^ 16`; a minus sign is refused, even before a zero. -/
def readUInt16 (cs : List Char) : Option UInt16 := do
  let n ← readNat cs
  if n < UInt16.size then some (UInt16.ofNat n) else none

private theorem digitValue_digitChar : ∀ d < 10, digitValue (digitChar d) = d := by decide

theorem ofDigits_concat (ds : List Char) (c : Char) :
    ofDigits (ds ++ [c]) = 10 * ofDigits ds + digitValue c := by
  simp [ofDigits]

theorem ofDigits_digits (n : Nat) : ofDigits (digits n) = n := by
  induction n using digits.induct with
  | case1 n small => rw [digits, if_pos small]; simp [ofDigits, digitValue_digitChar n small]
  | case2 n large ih =>
    rw [digits, if_neg large, ofDigits_concat, ih, digitValue_digitChar _ (Nat.mod_lt n (by omega))]
    exact Nat.div_add_mod n 10

end AccessPolicy.Text
