/-! Tables by name: lists of entries in ascending order of their keys. The order
only shows when a table is listed; what a look-up finds after an insertion does
not depend on it. -/
namespace ShaderGraph

abbrev Table (α : Type) := List (String × α)

namespace Table
variable {α : Type}

/-- The entry under a key. -/
def find? : Table α → String → Option α
  | [], _ => none
  | (k, a) :: table, key => if key = k then some a else find? table key

/-- Puts an entry in its place, instead of one with the same key. -/
def insert : Table α → String → α → Table α
  | [], key, a => [(key, a)]
  | (k, b) :: table, key, a =>
    if key < k then (key, a) :: (k, b) :: table
    else if key = k then (key, a) :: table
    else (k, b) :: insert table key a

/-- Puts an entry in its place unless there is one with the same key. -/
def insertNew (table : Table α) (key : String) (a : α) : Table α :=
  if (table.find? key).isSome then table else table.insert key a

def erase (table : Table α) (key : String) : Table α := table.filter (·.1 != key)

/-- The last entry of a list counts. -/
def ofList (entries : List (String × α)) : Table α :=
  entries.foldl (fun table (key, a) => table.insert key a) []

def keys (table : Table α) : List String := table.map Prod.fst

end Table

end ShaderGraph
