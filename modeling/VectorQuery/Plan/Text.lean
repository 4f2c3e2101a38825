/-
# Plans in words

An operation is written as a call: its name, then in parentheses its inputs and what else decides
its value.  The text of a plan lists the calls with their estimates.
-/
import VectorQuery.Plan.Basic
import VectorQuery.Query.Printer
import VectorQuery.Text.Lines

namespace VectorQuery

/-- The name of an action in texts. -/
def Action.name : Action → String
  | .lookup .. => "lookup"
  | .scan _ => "scan"
  | .filter _ => "filter"
  | .relate .. => "bind_relation"
  | .nearest .. => "similarity"
  | .and => "and"
  | .or => "or"
  | .not => "not"
  | .analogy .. => "analogy"
  | .optimize .. => "optimize"
  | .collect _ => "collect_results"

/-- A binding in words. -/
def RelationBinding.text (b : RelationBinding) : String :=
  b.key.text ++ if b.reversed then " (reversed)" else ""

/-- What decides the value of an action besides its inputs. -/
def Action.parameters : Action → List String
  | .lookup t name mode => [t, "\"" ++ name ++ "\"" ++ if mode = .fuzzy then "~" else ""]
  | .scan [] => ["*"]
  | .scan types => types
  | .filter c => [c.canonical]
  | .relate bindings minScore =>
    [" | ".intercalate (bindings.map RelationBinding.text), "min_score=" ++ Single.text minScore]
  | .nearest maxDistance topK types =>
    ["distance<=" ++ Single.text maxDistance]
      ++ (topK.map fun k => "top_k=" ++ toString k).toList
      ++ if types.isEmpty then [] else ["in=" ++ "|".intercalate types]
  | .and | .or | .not | .collect none => []
  | .analogy t k => ["target=" ++ t, "top_k=" ++ toString k]
  | .optimize direction objective filters budgets =>
    (direction.word ++ " " ++ objective.canonical) :: filters.map Comparison.canonical
      ++ budgets.map Budget.text
  | .collect (some k) => ["top_k=" ++ toString k]

namespace Operation

/-- The operation as a call. -/
def call (op : Operation) : String :=
  let parameters := ", ".intercalate op.action.parameters
  op.action.name ++ "("
    ++ ", ".intercalate (op.inputs.map Variable.text
      ++ if parameters.isEmpty then [] else [parameters]) ++ ")"

/-- The operation with its output and estimates. -/
def text (op : Operation) : String :=
  op.output.text ++ " = " ++ op.call ++ " [cost=" ++ Double.fixed 2 op.cost ++ ", rows~"
    ++ Double.fixed 0 op.rows ++ ", index=" ++ op.access.text ++ "]"
    ++ if op.parallel then " (parallel)" else ""

end Operation

namespace Plan

/-- Lines under a heading, if there are any. -/
def listing (heading : String) (items : List String) : List String :=
  if items.isEmpty then [] else "" :: heading :: items.map ("  - " ++ ·)

/-- The operations with their numbers. -/
def steps (p : Plan) : List String :=
  List.zipWith (fun i op => toString (i + 1) ++ ". " ++ op.text) (List.range p.operations.length)
    p.operations

/-- The text of a plan, line by line. -/
def lines (p : Plan) : List String :=
  ["Query Execution Plan", .ofList (List.replicate 80 '='), "Query: " ++ p.query, "",
    "Estimated Cost: " ++ Double.fixed 2 p.totalCost,
    "Operations: " ++ toString p.operations.length, "", "Execution Steps:"]
    ++ p.steps ++ listing "Index Hints:" p.advice ++ listing "Optimizations:" p.notes

/-- The text of a plan. -/
def explain (p : Plan) : String := Text.ofLines p.lines

end Plan

end VectorQuery
