import AccessPolicy.Text.CaseTable

/-!
# Lower case

The full lower-case mapping of Unicode.  It is a mapping of characters but for two letters: a capital I with a dot
becomes two characters, and a capital sigma takes its final form at the end of a word.
-/

namespace AccessPolicy.Text

private def inRanges (ranges : List (Nat × Nat)) (c : Char) : Bool :=
  ranges.any fun (first, last) => first ≤ c.toNat && c.toNat ≤ last

def isCaseIgnorable (c : Char) : Bool := inRanges caseIgnorableRanges c

def isCased (c : Char) : Bool := inRanges casedRanges c

/-- The lower case of a letter, by itself. -/
def lowerChar (c : Char) : Char :=
  if c.toNat < 0x80 then c.toLower
  else
    let run := lowerRuns.find? fun (first, last, step, _) =>
      first ≤ c.toNat && c.toNat ≤ last && (c.toNat - first) % step == 0
    match run with
    | some (_, _, _, shift) => Char.ofNat (c.toNat + shift).toNat
    | none => c

/-- After what is passed over, the text goes on with a cased letter. -/
def startsCased (cs : List Char) : Bool := (cs.dropWhile isCaseIgnorable).head?.any isCased

/-- The lower case of a text that comes after a cased letter, or not. -/
def lowerFrom (afterCased : Bool) : List Char → List Char
  | [] => []
  | c :: cs =>
    let image :=
      if c = 'Σ' then [if afterCased && !startsCased cs then 'ς' else 'σ']
      else if c = 'İ' then ['i', '\u0307']
      else [lowerChar c]
    image ++ lowerFrom (if isCaseIgnorable c then afterCased else isCased c) cs

def lower (s : String) : String := String.ofList (lowerFrom false s.toList)

end AccessPolicy.Text
