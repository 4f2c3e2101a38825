/-
# Queries as JSON documents

Every query is an object whose `kind` names its shape.  Reading ignores unknown fields; an
optional field may be missing or null.  A query may also be an array of its kind and its fields in
order, with nothing left out, and within another query the kind may be given by its place in
`Query.kinds`.
-/
import VectorQuery.Json.Basic
import VectorQuery.Query.Basic

namespace VectorQuery

/-- A scalar as a document. -/
def Scalar.toJson : Scalar Double → Json
  | .bool b => .bool b
  | .number x => .real x
  | .text s => .string s

/-- The scalar that a document is. -/
def Scalar.ofJson? : Json → Option (Scalar Double)
  | .bool b => some (.bool b)
  | .string s => some (.text s)
  | j => j.real?.map .number

/-- The comparison operator written with a symbol. -/
def CompareOp.ofSymbol? (s : String) : Option CompareOp :=
  [CompareOp.lt, .le, .gt, .ge, .eq, .ne].find? (·.symbol == s)

/-- A comparison as the fields of a document. -/
def Comparison.fields (c : Comparison Double) : List (String × Json) :=
  [("field", .string c.field), ("op", .string c.op.symbol), ("value", c.value.toJson)]

/-- The comparison that a document is. -/
def Comparison.ofJson? (j : Json) : Option (Comparison Double) := do
  match ← j.fullRecord? ["field", "op", "value"] with
  | [field, op, value] =>
    some ⟨← (← field).string?, ← CompareOp.ofSymbol? (← (← op).word?), ← Scalar.ofJson? (← value)⟩
  | _ => none

/-- An objective as a document. -/
def Objective.toJson (o : Objective Double) : Json :=
  .object [("terms", .array (o.terms.map fun t =>
    .object [("field", .string t.field), ("weight", .real t.weight)]))]

/-- The term that a document is. -/
def Term.ofJson? (j : Json) : Option (Term Double) := do
  match ← j.record? ["field", "weight"] with
  | [field, weight] => some ⟨← (← field).string?, ← (← weight).real?⟩
  | _ => none

/-- The objective that a document is. -/
def Objective.ofJson? (j : Json) : Option (Objective Double) := do
  match ← j.record? ["terms"] with
  | [terms] => some ⟨← (← (← terms).array?).mapM Term.ofJson?⟩
  | _ => none

/-- The direction with a keyword. -/
def Direction.ofWord? (s : String) : Option Direction :=
  [Direction.maximize, .minimize].find? (·.word == s)

/-- The connective with a keyword. -/
def Connective.ofWord? (s : String) : Option Connective :=
  [Connective.and, .or, .not].find? (·.word == s)

/-- A value that may be missing or null. -/
def Json.optional? {α : Type} (read : Json → Option α) : Option Json → Option (Option α)
  | none | some .null => some none
  | some j => (read j).map some

namespace Query

/-- A text that may be null. -/
def optional : Option String → Json
  | some s => .string s
  | none => .null

mutual

/-- A query as a document. -/
def toJson : Query → Json
  | .lookup t name fuzzy =>
    .object [("kind", .string "atomic"), ("entity_type", .string t), ("identifier", .string name),
      ("fuzzy", .bool fuzzy)]
  | .relation l r q =>
    .object [("kind", .string "relational"), ("left", l.toJson), ("relation", optional r),
      ("right", q.toJson)]
  | .logical op qs =>
    .object [("kind", .string "logical"), ("op", .string op.word),
      ("operands", .array (allToJson qs))]
  | .comparison c => .object (("kind", .string "comparison") :: c.fields)
  | .similar q d k t =>
    .object [("kind", .string "similarity"), ("target", q.toJson),
      ("distance", (d.map Json.real).getD .null), ("top_k", (k.map Json.natural).getD .null),
      ("target_type", optional t)]
  | .analogy a b c t =>
    .object [("kind", .string "analogy"), ("a", a.toJson), ("b", b.toJson), ("c", c.toJson),
      ("target_type", optional t)]
  | .optimize d o cs =>
    .object [("kind", .string "optimization"), ("direction", .string d.word),
      ("objective", o.toJson), ("constraints", .array (cs.map fun c => .object c.fields))]

/-- Queries as documents. -/
def allToJson : List Query → List Json
  | [] => []
  | q :: qs => q.toJson :: allToJson qs

end

/-- The kinds of queries. -/
def kinds : List String :=
  ["atomic", "relational", "logical", "comparison", "similarity", "analogy", "optimization"]

/-- The kind that a document names; within another query its place in `kinds` does as well. -/
def kindOf? (inner : Bool) : Json → Option String
  | .string s => some s
  | .natural n => if inner then kinds[n]? else none
  | _ => none

/-- The query of a kind whose fields a document holds; `read` reads the queries in it. -/
def ofKind? (read : Json → Option Query) (kind : String) (j : Json) : Option Query := do
  match kind with
  | "atomic" =>
    match ← j.fullRecord? ["entity_type", "identifier", "fuzzy"] with
    | [t, name, fuzzy] =>
      some (.lookup (← (← t).string?) (← (← name).string?) (← (← fuzzy).bool?))
    | _ => none
  | "relational" =>
    match ← j.fullRecord? ["left", "relation", "right"] with
    | [l, name, r] =>
      some (.relation (← read (← l)) (← Json.optional? Json.string? name) (← read (← r)))
    | _ => none
  | "logical" =>
    match ← j.fullRecord? ["op", "operands"] with
    | [op, operands] =>
      some (.logical (← Connective.ofWord? (← (← op).word?))
        (← (← (← operands).array?).mapM read))
    | _ => none
  | "comparison" => (Comparison.ofJson? j).map .comparison
  | "similarity" =>
    match ← j.fullRecord? ["target", "distance", "top_k", "target_type"] with
    | [target, distance, topK, targetType] =>
      some (.similar (← read (← target)) (← Json.optional? Json.real? distance)
        (← Json.optional? Json.natural? topK) (← Json.optional? Json.string? targetType))
    | _ => none
  | "analogy" =>
    match ← j.fullRecord? ["a", "b", "c", "target_type"] with
    | [a, b, c, targetType] =>
      some (.analogy (← read (← a)) (← read (← b)) (← read (← c))
        (← Json.optional? Json.string? targetType))
    | _ => none
  | "optimization" =>
    match ← j.fullRecord? ["direction", "objective", "constraints"] with
    | [direction, objective, constraints] =>
      some (.optimize (← Direction.ofWord? (← (← direction).word?))
        (← Objective.ofJson? (← objective))
        (← (← (← constraints).array?).mapM Comparison.ofJson?))
    | _ => none
  | _ => none

/-- The query that a document within another is; `fuel` bounds its depth. -/
def ofJsonWithin : Nat → Json → Option Query
  | 0, _ => none
  | fuel + 1, j => do
    let (tag, rest) ← j.tagged? "kind"
    ofKind? (ofJsonWithin fuel) (← kindOf? true tag) rest

/-- The query that a document is. -/
def ofJson? (j : Json) : Option Query := do
  let (tag, rest) ← j.tagged? "kind"
  ofKind? (ofJsonWithin 256) (← kindOf? false tag) rest

end Query

end VectorQuery
