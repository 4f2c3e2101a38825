/-
# Sets of entity types

What is known about the types of a value.  The empty set knows nothing: the value may hold
entities of every type.
-/
import VectorQuery.OrderedMap

namespace VectorQuery

/-- A set of type names in ascending order. -/
abbrev TypeSet := OrderedMap String Unit

namespace TypeSet

/-- The set of some names. -/
def ofList (names : List String) : TypeSet := OrderedMap.ofList (names.map (·, ()))

/-- The set of one name. -/
def single (name : String) : TypeSet := OrderedMap.empty.insert name ()

/-- The names in ascending order. -/
def names (s : TypeSet) : List String := s.keys

/-- The names of either set. -/
def union (s t : TypeSet) : TypeSet := t.names.foldl (fun s name => s.insert name ()) s

/-- The types of entities that belong to two values. -/
def both (s t : TypeSet) : TypeSet :=
  if s.isEmpty then t
  else if t.isEmpty then s
  else s.filter fun name _ => t.contains name

/-- The types of entities that belong to either of two values. -/
def either (s t : TypeSet) : TypeSet := if s.isEmpty || t.isEmpty then .empty else s.union t

/-- The names with bars between them. -/
def text (s : TypeSet) : String := "|".intercalate s.names

end TypeSet

end VectorQuery
