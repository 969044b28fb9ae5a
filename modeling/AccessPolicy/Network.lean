import AccessPolicy.Text.Decimal
import AccessPolicy.Text.Split

/-!
# Network addresses

An address is a word of 32 or 128 bits.  A network is an address with the number of leading bits that its members
share with it; the other bits of the address do not matter.
-/

namespace AccessPolicy

open Text

inductive Address
  | v4 (bits : BitVec 32)
  | v6 (bits : BitVec 128)
deriving DecidableEq, Repr

inductive Network
  | v4 (address : BitVec 32) (length : Nat)
  | v6 (address : BitVec 128) (length : Nat)
deriving DecidableEq, Repr

/-- The address and the network are of one family and agree on the leading bits. -/
def Network.contains : Network → Address → Bool
  | v4 network length, .v4 address => network >>> (32 - length) == address >>> (32 - length)
  | v6 network length, .v6 address => network >>> (128 - length) == address >>> (128 - length)
  | _, _ => false

namespace Address

/-- One to three digits for a number below 256; a number of two or three digits does not start with a zero. -/
def readOctet (cs : List Char) : Option (BitVec 8) := do
  let n ← readDigits cs
  if cs.length ≤ 3 ∧ (cs.length = 1 ∨ cs.head? ≠ some '0') ∧ n < 256 then some (BitVec.ofNat 8 n) else none

/-- Four numbers between dots. -/
def readV4 (cs : List Char) : Option (BitVec 32) :=
  match (splitEach '.' cs).mapM readOctet with
  | some [a, b, c, d] => some (a ++ b ++ c ++ d)
  | _ => none

private def hexDigit? (c : Char) : Option Nat :=
  if c.isDigit then some (c.toNat - '0'.toNat)
  else if 'a' ≤ c ∧ c ≤ 'f' then some (c.toNat - 'a'.toNat + 10)
  else if 'A' ≤ c ∧ c ≤ 'F' then some (c.toNat - 'A'.toNat + 10)
  else none

/-- One to four hexadecimal digits. -/
def readGroup (cs : List Char) : Option (BitVec 16) := do
  let ds ← cs.mapM hexDigit?
  if 1 ≤ ds.length ∧ ds.length ≤ 4 then some (BitVec.ofNat 16 (ds.foldl (fun n d => 16 * n + d) 0)) else none

/-- Groups between colons, or none at all. -/
def readGroups (cs : List Char) : Option (List (BitVec 16)) :=
  if cs.isEmpty then some [] else (splitEach ':' cs).mapM readGroup

/-- Groups between colons of which the last two may be written as an address of 32 bits. -/
def readLastGroups (cs : List Char) : Option (List (BitVec 16)) :=
  let pieces := splitEach ':' cs
  match pieces.getLast?.bind readV4 with
  | some bits => do
    let groups ← pieces.dropLast.mapM readGroup
    some (groups ++ [bits.extractLsb' 16 16, bits.extractLsb' 0 16])
  | none => readGroups cs

/-- The text before the first double colon, and what follows it. -/
def splitGap : List Char → Option (List Char × List Char)
  | [] => none
  | ':' :: ':' :: cs => some ([], cs)
  | c :: cs => (splitGap cs).map fun (before, after) => (c :: before, after)

/-- Eight groups, of which one or more zeros in a row may be written as a double colon. -/
def readV6 (cs : List Char) : Option (BitVec 128) := do
  let groups ← match splitGap cs with
    | none => readLastGroups cs
    | some (before, after) => do
      let front ← readGroups before
      let back ← readLastGroups after
      if front.length + back.length ≤ 7 then
        some (front ++ List.replicate (8 - front.length - back.length) 0 ++ back)
      else none
  if groups.length = 8 then some (groups.foldl (fun bits g => (bits <<< 16) ||| g.setWidth 128) 0) else none

def parse? (s : String) : Option Address :=
  ((readV4 s.toList).map v4).or ((readV6 s.toList).map v6)

end Address

namespace Network

/-- The number of ones with which a mask begins, if only zeros follow. -/
def maskLength? (mask : BitVec 32) : Option Nat :=
  (List.range 33).find? fun length => mask == BitVec.allOnes 32 <<< (32 - length)

/-- The length after the slash, or the mask. -/
def readV4Length (cs : List Char) : Option Nat :=
  match Address.readV4 cs with
  | some mask => maskLength? mask
  | none => (readNat cs).filter (· ≤ 32)

def parseV4? (cs : List Char) : Option Network :=
  match splitEach '/' cs with
  | [address] => (Address.readV4 address).map fun bits => v4 bits 32
  | [address, length] => do
    let bits ← Address.readV4 address
    let length ← readV4Length length
    some (v4 bits length)
  | _ => none

def parseV6? (cs : List Char) : Option Network :=
  match splitEach '/' cs with
  | [address] => (Address.readV6 address).map fun bits => v6 bits 128
  | [address, length] => do
    let bits ← Address.readV6 address
    let length ← (readNat length).filter (· ≤ 128)
    some (v6 bits length)
  | _ => none

/-- An address, alone or with a length after a slash; an address of 32 bits may have a mask there. -/
def parse? (s : String) : Option Network := (parseV4? s.toList).or (parseV6? s.toList)

end Network

end AccessPolicy
