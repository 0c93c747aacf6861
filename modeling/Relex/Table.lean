/-
Tables: values under names, in the order in which the names first came
in. A name that is put in again keeps its place; one that was taken out
and comes back goes to the end.
-/
namespace Relex

/-- Values under names. -/
structure Table (α : Type) where
  entries : List (String × α)
  deriving Repr

namespace Table

variable {α : Type}

/-- No names. -/
def empty : Table α := ⟨[]⟩

instance : Inhabited (Table α) := ⟨empty⟩

/-- The value under a name. -/
def get? (t : Table α) (name : String) : Option α :=
  t.entries.lookup name

/-- Is there a value under the name? -/
def has (t : Table α) (name : String) : Bool := (t.get? name).isSome

/-- The names, in order. -/
def names (t : Table α) : List String := t.entries.map (·.1)

/-- The values, in order. -/
def values (t : Table α) : List α := t.entries.map (·.2)

/-- How many names there are. -/
def size (t : Table α) : Nat := t.entries.length

/-- Puts a value under a name in some entries. -/
def insertInto (name : String) (value : α) :
    List (String × α) → List (String × α)
  | [] => [(name, value)]
  | (n, v) :: rest =>
    if n = name then (name, value) :: rest
    else (n, v) :: insertInto name value rest

/-- Puts a value under a name, in place of the one there may be. -/
def insert (t : Table α) (name : String) (value : α) : Table α :=
  ⟨insertInto name value t.entries⟩

/-- Puts a value under a name, unless there is one. -/
def insertNew (t : Table α) (name : String) (value : α) : Table α :=
  if t.has name then t else t.insert name value

/-- Takes a name out. -/
def erase (t : Table α) (name : String) : Table α :=
  ⟨t.entries.filter (·.1 ≠ name)⟩

end Table

end Relex
