/-
# Outlines of queries

The tree of a query, with the names and the values of all its parts.
-/
import VectorQuery.Number.Double
import VectorQuery.Query.Basic
import VectorQuery.Text.Outline

namespace VectorQuery

open Text (Outline)

/-- A number with its point, or with an exponent where that is shorter by far. -/
def Number.outline (x : Double) : Outline := .leaf ((Double.reading x).text .dump)

/-- A truth value. -/
def Text.Outline.bool (b : Bool) : Outline := .leaf (if b then "true" else "false")

/-- A scalar and its kind. -/
def Scalar.outline : Scalar Double → Outline
  | .bool b => .wrap "Bool" (.bool b)
  | .number x => .wrap "Number" (Number.outline x)
  | .text s => .wrap "Text" (.quoted s)

/-- The name of an operator. -/
def CompareOp.outline : CompareOp → Outline
  | .lt => .leaf "Lt"
  | .le => .leaf "Le"
  | .gt => .leaf "Gt"
  | .ge => .leaf "Ge"
  | .eq => .leaf "Eq"
  | .ne => .leaf "Ne"

/-- A condition. -/
def Comparison.outline (c : Comparison Double) : Outline :=
  .record "Comparison"
    [("field", .quoted c.field), ("op", c.op.outline), ("value", c.value.outline)]

/-- The name of a connective. -/
def Connective.outline : Connective → Outline
  | .and => .leaf "And"
  | .or => .leaf "Or"
  | .not => .leaf "Not"

/-- The name of a direction. -/
def Direction.outline : Direction → Outline
  | .maximize => .leaf "Maximize"
  | .minimize => .leaf "Minimize"

/-- An objective and its terms. -/
def Objective.outline (o : Objective Double) : Outline :=
  .record "Objective" [("terms", .list (o.terms.map fun t =>
    .record "ObjectiveTerm" [("field", .quoted t.field), ("weight", Number.outline t.weight)]))]

namespace Query

/-- A shape and its parts. -/
def shape (name : String) (parts : List (String × Outline)) : Outline :=
  .wrap name (.record name parts)

mutual

/-- The tree of a query. -/
def outline : Query → Outline
  | .lookup entityType name fuzzy =>
    shape "Atomic"
      [("entity_type", .quoted entityType), ("identifier", .quoted name), ("fuzzy", .bool fuzzy)]
  | .relation left name right =>
    shape "Relational"
      [("left", outline left), ("relation", .option .quoted name), ("right", outline right)]
  | .logical op operands =>
    shape "Logical" [("op", op.outline), ("operands", .list (outlines operands))]
  | .comparison c => .wrap "Comparison" c.outline
  | .similar target distance topK targetType =>
    shape "Similarity"
      [("target", outline target), ("distance", .option Number.outline distance),
        ("top_k", .option (fun n => .leaf (toString n)) topK),
        ("target_type", .option .quoted targetType)]
  | .analogy a b c targetType =>
    shape "Analogy"
      [("a", outline a), ("b", outline b), ("c", outline c),
        ("target_type", .option .quoted targetType)]
  | .optimize direction objective constraints =>
    shape "Optimization"
      [("direction", direction.outline), ("objective", objective.outline),
        ("constraints", .list (constraints.map Comparison.outline))]

/-- The trees of queries. -/
def outlines : List Query → List Outline
  | [] => []
  | q :: qs => outline q :: outlines qs

end

end Query

end VectorQuery
