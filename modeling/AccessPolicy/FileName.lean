/-!
# Names of files

The system names a file by bytes.  Most names are texts in UTF-8, but nothing keeps a name from being none: then no
suffix fits it, and where it is shown, replacement characters stand for what cannot be read.
-/

namespace AccessPolicy

/-- The name of a file, a directory or a link. -/
structure FileName where
  bytes : List UInt8
deriving DecidableEq, Repr

namespace FileName

def ofText (text : String) : FileName := ⟨text.toUTF8.data.toList⟩

instance : Coe String FileName := ⟨ofText⟩

/-- Names are compared byte by byte. -/
instance : LT FileName := ⟨fun a b => a.bytes < b.bytes⟩

instance (a b : FileName) : Decidable (a < b) := inferInstanceAs (Decidable (a.bytes < b.bytes))

/-- The text that the name is, if it is one. -/
def text? (name : FileName) : Option String := String.fromUTF8? ⟨name.bytes.toArray⟩

/-- The name is a text with this suffix. -/
def hasSuffix (suffix : String) (name : FileName) : Bool :=
  name.text?.any fun text => suffix.toList.isSuffixOf text.toList

/-! ### Showing a name -/

/-- How many bytes a character has that begins with this one; no character begins with the bytes that get zero. -/
def width (first : UInt8) : Nat :=
  if first < 0x80 then 1
  else if first < 0xC2 then 0
  else if first < 0xE0 then 2
  else if first < 0xF0 then 3
  else if first < 0xF5 then 4
  else 0

/-- Whether a character of three bytes or more that begins with the one byte may go on with the other. -/
def goesOn (first second : UInt8) : Bool :=
  (if first = 0xE0 then 0xA0 else if first = 0xF0 then 0x90 else 0x80) ≤ second &&
    second ≤ if first = 0xED then 0x9F else if first = 0xF4 then 0x8F else 0xBF

/-- How many of the bytes belong to the character that the first one begins, where it is broken off. -/
def brokenWidth : List UInt8 → Nat
  | first :: second :: more =>
    if width first < 3 || !goesOn first second then 1
    else if width first = 4 && more.head?.any (fun third => 0x80 ≤ third && third ≤ 0xBF) then 3
    else 2
  | _ => 1

/-- The bytes as they are shown, each character that is broken off as one replacement character. -/
def shown : List UInt8 → String
  | [] => ""
  | first :: rest =>
    if width first = 0 then "\uFFFD" ++ shown rest
    else
      match String.fromUTF8? ⟨((first :: rest).take (width first)).toArray⟩ with
      | some character => character ++ shown (rest.drop (width first - 1))
      | none => "\uFFFD" ++ shown (rest.drop (brokenWidth (first :: rest) - 1))
termination_by bytes => bytes.length
decreasing_by all_goals grind

/-- The name as it is shown. -/
def display (name : FileName) : String := name.text?.getD (shown name.bytes)

end FileName

end AccessPolicy
