/-
# Nearest neighbours

A search compares a query vector with the dense embeddings of candidates by the cosine of their
angle. Hits come in descending similarity, equal ones by ordinal.  A search index narrows the
candidates without changing the answer, so searches scan.
-/
import VectorQuery.Ranking
import VectorQuery.Store.Snapshot

namespace VectorQuery

/-- What rounding may add to a distance that lies on the bound: the gap above one. -/
def distanceSlack : Single := ⟨0x34000000⟩

namespace Snapshot

/-- The query has the dimension of the store and a positive norm. -/
def checkQuery (s : Snapshot) (query : Embedding) : Except StoreError Unit :=
  if query.length ≠ s.denseDim then .error (.queryDimension query.length s.denseDim)
  else if 0 < query.norm then .ok ()
  else .error .zeroNorm

/-- The similarity of an entity to a query, unless the entity lies beyond the distance bound. -/
def hit? (s : Snapshot) (query : Embedding) (bound : Option Single) (ordinal : Nat) :
    Option (Hit Single) := do
  let e ← s.entity? ordinal
  let similarity ← query.cosine? e.dense
  if bound.any fun d => d + distanceSlack < 1 - similarity then none
  else some ⟨ordinal, similarity⟩

/-- The nearest of some candidates within a distance bound, at most `k`. -/
def nearestAmong (s : Snapshot) (query : Embedding) (candidates : List Nat) (k : Option Nat)
    (bound : Option Single) : Except StoreError (List (Hit Single)) := do
  s.checkQuery query
  .ok (atMost k (Hit.ranked (candidates.filterMap (s.hit? query bound))))

/-- The nearest entities of a type within a distance bound, at most `k`. -/
def nearest (s : Snapshot) (query : Embedding) (entityType : String) (k : Option Nat)
    (bound : Option Single) : Except StoreError (List (Hit Single)) :=
  match s.members? entityType with
  | none => .ok []
  | some members => s.nearestAmong query members k bound

end Snapshot

end VectorQuery
