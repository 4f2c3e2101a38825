/-
# Errors of planning

A query that names something unknown to the snapshot, or that says something without a meaning,
has no plan.
-/
import VectorQuery.Number.Double
import VectorQuery.Query.Basic

namespace VectorQuery

/-- Why a query has no plan. -/
inductive PlanError where
  | unknownType (name : String) (known : List String)
  | unknownRelation (source : String) (relation : Option String) (target : String)
  | ambiguousRelation (source target : String) (candidates : List String)
  | unknownField (field : String)
  /-- An analogy whose second term may be of several types. -/
  | ambiguousTarget (types : List String)
  /-- A connective without operands. -/
  | noOperands (op : Connective)
  /-- A negation of other than one operand. -/
  | negatedOperands (found : Nat)
  /-- A distance that no two vectors have. -/
  | distanceRange (distance : Double)
  /-- An objective over a field that is no metadata. -/
  | builtinObjective (field : String)
  /-- A weight that is not finite. -/
  | unboundedWeight (field : String) (weight : Double)

namespace PlanError

/-- The message about a parameter. -/
def parameter (name reason : String) : String := "invalid parameter `" ++ name ++ "`: " ++ reason

/-- The error in words. -/
def message : PlanError → String
  | .unknownType name known =>
    "unknown entity type `" ++ name ++ "` (known types: " ++ ", ".intercalate known ++ ")"
  | .unknownRelation source relation target =>
    "no relation" ++ (relation.map fun r => " `" ++ r ++ "`").getD "" ++ " between `" ++ source
      ++ "` and `" ++ target ++ "`"
  | .ambiguousRelation source target candidates =>
    "ambiguous relation between `" ++ source ++ "` and `" ++ target ++ "`: candidates "
      ++ ", ".intercalate candidates
  | .unknownField field => "unknown metadata field `" ++ field ++ "`"
  | .ambiguousTarget types =>
    "cannot infer an analogy target type from " ++ ", ".intercalate types
      ++ "; name one with `type(?)`"
  | .noOperands op => parameter op.word "no operands"
  | .negatedOperands found =>
    parameter Connective.not.word ("expects one operand, got " ++ toString found)
  | .distanceRange d => parameter "distance" (Double.text d ++ " is outside [0, 2]")
  | .builtinObjective field => parameter field "objective terms must be numeric metadata fields"
  | .unboundedWeight field w => parameter field ("weight " ++ Double.text w ++ " is not finite")

end PlanError

end VectorQuery
