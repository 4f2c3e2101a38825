/-
# Errors of execution
-/
import VectorQuery.Plan.Text
import VectorQuery.Store.Error

namespace VectorQuery

/-- Why a plan cannot be run to its end. -/
inductive ExecutionError where
  /-- The dense embeddings of a target cancel out. -/
  | zeroCentroid (targets : Nat)
  /-- The vector predicted by an analogy has zero norm. -/
  | zeroPrediction
  /-- The vector that a relation predicts for an entity has zero norm. -/
  | zeroRelated (relation : RelationKey) (entity : EntityKey)
  /-- The store cannot be searched for a vector. -/
  | search (cause : StoreError)
  /-- The snapshot does not hold a relation of the plan. -/
  | missingRelation (relation : RelationKey)
  /-- The snapshot does not hold an entity of a value. -/
  | missingEntity (ordinal : Nat)
  /-- An operation reads a variable that has no value. -/
  | unbound (name : String)
  /-- An operation has too few inputs. -/
  | missingInput (action : String) (place : Nat)

namespace ExecutionError

/-- The error in words. -/
def message : ExecutionError → String
  | .zeroCentroid targets =>
    "numerical error: centroid of " ++ toString targets ++ " target entities has zero norm"
  | .zeroPrediction => "numerical error: analogy prediction b - a + c has zero norm"
  | .zeroRelated relation entity =>
    "numerical error: relation " ++ relation.text ++ " maps " ++ entity.text
      ++ " to a zero-norm vector"
  | .search cause => "numerical error: " ++ cause.message
  | .missingRelation relation => "index corruption: relation " ++ relation.text ++ " vanished"
  | .missingEntity ordinal => "index corruption: ordinal " ++ toString ordinal ++ " out of range"
  | .unbound name => "plan references unbound variable `" ++ name ++ "`"
  | .missingInput action place =>
    "internal error: " ++ action ++ " is missing input " ++ toString place

end ExecutionError

end VectorQuery
