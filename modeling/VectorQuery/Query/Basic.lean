/-
# Queries

The query language has seven shapes: looking entities up by name, following a relation, joining
results logically, comparing metadata, searching by similarity, completing an analogy, and
choosing a selection that optimizes an objective.
-/
import VectorQuery.Scalar

namespace VectorQuery

/-- Which way an objective is driven. -/
inductive Direction where
  | maximize
  | minimize
  deriving BEq, DecidableEq, Repr

/-- The keyword of a direction. -/
def Direction.word : Direction → String
  | .maximize => "maximize"
  | .minimize => "minimize"

/-- One weighted field of an objective. -/
structure Term (α : Type) where
  field : String
  weight : α
  deriving BEq, DecidableEq, Repr

/-- A weighted sum of numeric fields. -/
structure Objective (α : Type) where
  terms : List (Term α)
  deriving BEq, DecidableEq, Repr

/-- How operands of a logical query are joined. -/
inductive Connective where
  | and
  | or
  | not
  deriving BEq, DecidableEq, Repr

/-- The keyword of a connective. -/
def Connective.word : Connective → String
  | .and => "AND"
  | .or => "OR"
  | .not => "NOT"

/-- A query. -/
inductive Query where
  /-- `type("name")`: entities of a type by name; fuzzily with `~`. -/
  | lookup (entityType name : String) (fuzzy : Bool)
  /-- `left -> right`, or `left -[relation]-> right`. -/
  | relation (left : Query) (relation : Option String) (right : Query)
  /-- Operands joined by a connective; a negation has one operand, the others two or more. -/
  | logical (op : Connective) (operands : List Query)
  /-- A condition on metadata. -/
  | comparison (condition : Comparison Double)
  /-- `similar_to(target, distance=…, top_k=…, type=…)`. -/
  | similar (target : Query) (distance : Option Double) (topK : Option Nat)
      (targetType : Option String)
  /-- `a is_to b as c is_to ?`, or `… is_to type(?)`. -/
  | analogy (a b c : Query) (targetType : Option String)
  /-- `maximize(objective) subject_to(constraint, …)`. -/
  | optimize (direction : Direction) (objective : Objective Double)
      (constraints : List (Comparison Double))
  deriving BEq, Repr, Inhabited

namespace Query

/-- The name of the query's shape. -/
def kind : Query → String
  | .lookup .. => "atomic"
  | .relation .. => "relational"
  | .logical .. => "logical"
  | .comparison .. => "comparison"
  | .similar .. => "similarity"
  | .analogy .. => "analogy"
  | .optimize .. => "optimization"

/-- The queries directly below, left to right. -/
def children : Query → List Query
  | .lookup .. | .comparison .. | .optimize .. => []
  | .relation l _ r => [l, r]
  | .logical _ qs => qs
  | .similar t .. => [t]
  | .analogy a b c _ => [a, b, c]

end Query

end VectorQuery
