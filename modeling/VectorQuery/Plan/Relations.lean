/-
# Finding the relations of an arrow

An arrow joins every type that its left side may hold with every type that its right side may
hold.  For each pair the relations registered from left to right count, or, when there are none,
those from right to left.  A pair may have one such relation at most, and some pair must have one.
-/
import VectorQuery.Plan.Basic
import VectorQuery.Plan.Error
import VectorQuery.Plan.TypeSet
import VectorQuery.Store.Snapshot

namespace VectorQuery.Snapshot

/-- The names of the types in order. -/
def typeNames (s : Snapshot) : List String := s.types.keys

/-- The relations from one type to another, of a name if one is given. -/
def relationsBetween (s : Snapshot) (name : Option String) (source target : String) :
    List RelationKey :=
  s.relations.keys.filter fun k =>
    k.sourceType = source && k.targetType = target && name.all fun n => k.relation = n

/-- The relations that may join a pair of types, and whether they lead from right to left. -/
def joining (s : Snapshot) (name : Option String) (left right : String) :
    List RelationKey × Bool :=
  let forward := s.relationsBetween name left right
  if forward.isEmpty then (s.relationsBetween name right left, true) else (forward, false)

/-- The relation that joins a pair of types, if there is one. -/
def binding? (s : Snapshot) (name : Option String) (left right : String) :
    Except PlanError (Option RelationBinding) :=
  match s.joining name left right with
  | ([], _) => .ok none
  | ([key], reversed) => .ok (some ⟨left, right, key, reversed⟩)
  | (keys, _) => .error (.ambiguousRelation left right (keys.map (·.relation)))

/-- The types that a set stands for. -/
def possible (s : Snapshot) (types : TypeSet) : List String :=
  if types.isEmpty then s.typeNames else types.names

/-- The relations of an arrow between two sets of types. -/
def bindings (s : Snapshot) (name : Option String) (left right : TypeSet) :
    Except PlanError (List RelationBinding) := do
  let lefts := s.possible left
  let rights := s.possible right
  let pairs := lefts.flatMap fun l => rights.map fun r => (l, r)
  let found ← pairs.mapM fun (l, r) => s.binding? name l r
  match found.filterMap id with
  | [] => .error (.unknownRelation ("|".intercalate lefts) name ("|".intercalate rights))
  | bindings => .ok bindings

end VectorQuery.Snapshot
