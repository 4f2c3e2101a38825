/-
# Plans as JSON documents
-/
import VectorQuery.Plan.Basic
import VectorQuery.Query.Document

namespace VectorQuery

/-- Texts as a document. -/
def Json.strings (items : List String) : Json := .array (items.map Json.string)

/-- The access in documents. -/
def Access.tag : Access → String
  | .hash => "hash"
  | .typeScan => "type_scan"
  | .searchIndex => "ann"
  | .bruteForce => "brute_force"
  | .metadata => "metadata"
  | .none => "none"

/-- The way of a look-up in documents. -/
def LookupMode.tag : LookupMode → String
  | .exact => "exact"
  | .wildcard => "wildcard"
  | .glob => "glob"
  | .fuzzy => "fuzzy"

/-- The key of a relation as a document. -/
def RelationKey.toJson (k : RelationKey) : Json :=
  .object [("source_type", .string k.sourceType), ("relation", .string k.relation),
    ("target_type", .string k.targetType)]

/-- A binding as a document. -/
def RelationBinding.toJson (b : RelationBinding) : Json :=
  .object [("left_type", .string b.leftType), ("right_type", .string b.rightType),
    ("key", b.key.toJson), ("reversed", .bool b.reversed)]

/-- A budget as a document. -/
def Budget.toJson (b : Budget Double) : Json :=
  .object [("field", .string b.field), ("limit", .real b.limit), ("strict", .bool b.strict)]

/-- A count that may be missing. -/
def Json.count : Option Nat → Json
  | some n => .natural n
  | none => .null

/-- An action as the fields of a document. -/
def Action.fields : Action → List (String × Json)
  | .lookup t name mode =>
    [("op", .string "lookup"), ("entity_type", .string t), ("identifier", .string name),
      ("mode", .string mode.tag)]
  | .scan types => [("op", .string "scan"), ("types", Json.strings types)]
  | .filter c => [("op", .string "filter"), ("comparison", .object c.fields)]
  | .relate bindings minScore =>
    [("op", .string "bind_relation"), ("bindings", .array (bindings.map RelationBinding.toJson)),
      ("min_score", .single minScore)]
  | .nearest maxDistance topK types =>
    [("op", .string "similarity"), ("max_distance", .single maxDistance),
      ("top_k", Json.count topK), ("target_types", Json.strings types)]
  | .and => [("op", .string "and")]
  | .or => [("op", .string "or")]
  | .not => [("op", .string "not")]
  | .analogy t k =>
    [("op", .string "analogy"), ("target_type", .string t), ("top_k", .natural k)]
  | .optimize direction objective filters budgets =>
    [("op", .string "optimize"), ("direction", .string direction.word),
      ("objective", objective.toJson),
      ("filters", .array (filters.map fun c => .object c.fields)),
      ("budgets", .array (budgets.map Budget.toJson))]
  | .collect topK => [("op", .string "collect"), ("top_k", Json.count topK)]

/-- An operation as a document. -/
def Operation.toJson (op : Operation) : Json :=
  .object (op.action.fields ++
    [("inputs", Json.strings (op.inputs.map Variable.text)), ("output", .string op.output.text),
      ("estimated_cost", .real op.cost), ("estimated_rows", .real op.rows),
      ("index_hint", .string op.access.tag), ("parallel", .bool op.parallel)])

/-- The name of a shape in documents. -/
def Shape.tag : Shape → String
  | .matches => "match"
  | .recommendation => "recommendation"

/-- A plan as a document. -/
def Plan.toJson (p : Plan) : Json :=
  .object [("query", .string p.query), ("operations", .array (p.operations.map Operation.toJson)),
    ("result", .string p.result.text), ("shape", .string p.shape.tag),
    ("total_cost", .real p.totalCost), ("index_hints", Json.strings p.advice),
    ("optimizations", Json.strings p.notes), ("result_types", Json.strings p.types)]

end VectorQuery
