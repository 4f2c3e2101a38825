/-
# Scores of related entities

A relation predicts a vector for an entity on its source side.  The score of a pair is the cosine
between that prediction and the embedding of the entity on the other side.  An entity's score is
the best of its pairs.
-/
import VectorQuery.Execution.Error
import VectorQuery.ScoredSet
import VectorQuery.Store.Snapshot

namespace VectorQuery

/-- The best scores of the entities on the left and on the right. -/
structure RelationScores where
  left : ScoredSet Single
  right : ScoredSet Single

namespace RelationScores

/-- No pair has been scored. -/
def empty : RelationScores := ⟨.empty, .empty⟩

/-- What a score counts for when entities are compared: an undefined one is worse than any. -/
def counted (score : Single) : Single := Quantity.greater (-.infinity) score

/-- The scores with those of one more pair. -/
def record (r : RelationScores) (left right : Nat) (score : Single) : RelationScores :=
  ⟨r.left.insert left (counted score), r.right.insert right (counted score)⟩

/-- The members of a set that are of a type. -/
def ofType (s : Snapshot) (set : ScoredSet Single) (t : String) : List Nat :=
  let members := s.members t
  set.members.filter fun o => members.contains o

/-- The scores of one source with every target, as pairs of target and score. -/
def fromSource (s : Snapshot) (relation : RelationKey) (op : Operator) (source : Entity Double)
    (targets : List Nat) : Except ExecutionError (List (Nat × Single)) :=
  let predicted := op.apply source
  if 0 < predicted.norm then
    .ok (targets.filterMap fun o => do
      let target ← s.entity? o
      let score ← predicted.cosine? (op.space.embedding target)
      some (o, score))
  else .error (.zeroRelated relation source.key)

/-- The scores with those of all pairs that a binding joins. -/
def addBinding (s : Snapshot) (left right : ScoredSet Single) (r : RelationScores)
    (b : RelationBinding) : Except ExecutionError RelationScores :=
  match s.relations.get? b.key with
  | none => .error (.missingRelation b.key)
  | some op =>
    let lefts := ofType s left b.leftType
    let rights := ofType s right b.rightType
    let (sources, targets) := if b.reversed then (rights, lefts) else (lefts, rights)
    sources.foldlM (fun r o =>
      match s.entity? o with
      | none => .ok r
      | some source => do
        let scored ← fromSource s b.key op source targets
        .ok (scored.foldl (fun r (t, score) =>
          if b.reversed then r.record t o score else r.record o t score) r)) r

/-- The scores of all pairs that the bindings join. -/
def compute (s : Snapshot) (bindings : List RelationBinding) (left right : ScoredSet Single) :
    Except ExecutionError RelationScores :=
  bindings.foldlM (addBinding s left right) empty

end RelationScores

end VectorQuery
