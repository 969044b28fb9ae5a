import AccessPolicy.Pattern.Basic

/-!
# Pattern indexes

An index is a list of patterns, each with an id and with what is registered under it, in the order in which they
were registered.  One id may stand in it several times; removing it removes them all.
-/

namespace AccessPolicy

structure Entry (α : Type) where
  id : String
  pattern : Pattern
  payload : α

structure Index (α : Type) where
  entries : List (Entry α) := []

namespace Index

variable {α : Type}

def insert (index : Index α) (entry : Entry α) : Index α := ⟨index.entries ++ [entry]⟩

def remove (index : Index α) (id : String) : Index α := ⟨index.entries.filter (·.id ≠ id)⟩

/-- How many entries stand under an id. -/
def count (index : Index α) (id : String) : Nat := index.entries.countP (·.id = id)

/-- What is registered under the patterns of an event. -/
def matching (index : Index α) (event : Json) : List α :=
  (index.entries.filter (·.pattern.accepts event)).map Entry.payload

def ids (index : Index α) : List String := index.entries.map Entry.id

def contains (index : Index α) (id : String) : Bool := index.entries.any (·.id = id)

def size (index : Index α) : Nat := index.entries.length

def isEmpty (index : Index α) : Bool := index.entries.isEmpty

@[simp] theorem entries_insert (index : Index α) (entry : Entry α) :
    (index.insert entry).entries = index.entries ++ [entry] := rfl

@[simp] theorem entries_remove (index : Index α) (id : String) :
    (index.remove id).entries = index.entries.filter (·.id ≠ id) := rfl

end Index

end AccessPolicy
