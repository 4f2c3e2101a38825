/-
# Reports of executed plans

A match is explained by the operation that its value comes from; a recommendation by its share of
the objective.
-/
import VectorQuery.Execution.Basic
import VectorQuery.Report.Basic

namespace VectorQuery

/-- Why an entity matches, from the action that its score comes from. -/
def explainMatch (root : Option Action) (score : Single) : String :=
  let shown := Single.fixed 3 score
  match root with
  | some (.lookup _ _ .exact) => "exact identifier match"
  | some (.lookup _ _ .wildcard) => "member of the requested type"
  | some (.lookup _ _ .glob) => "identifier matches the pattern"
  | some (.lookup _ _ .fuzzy) => "fuzzy name match (" ++ shown ++ ")"
  | some (.nearest ..) =>
    "cosine similarity " ++ shown ++ " (distance " ++ Single.fixed 3 (1 - score) ++ ")"
  | some (.relate ..) => "relation score " ++ shown
  | some (.analogy ..) => "similarity to the analogy prediction " ++ shown
  | some .and => "weakest operand score " ++ shown
  | some .or => "strongest operand score " ++ shown
  | some .not => "outside the excluded set"
  | some (.filter c) => "satisfies " ++ c.canonical
  | some (.scan _) => "member of the queried universe"
  | _ => "score " ++ shown

/-- The action that the plan's result comes from. -/
def Plan.rootAction? (p : Plan) : Option Action := (p.root? >>= p.operation?).map (·.action)

/-- The mean of some numbers, zero when there are none. -/
def mean32 (xs : List Single) : Single :=
  if xs.isEmpty then 0 else Quantity.sum xs / Single.ofNat xs.length

/-- The report of the entities that a plan found. -/
def MatchReport.of (s : Snapshot) (p : Plan) (x : Execution) : MatchReport :=
  let found := x.result.ranked.filterMap fun h => (s.entity? h.ordinal).map fun e =>
    { entity := e.summary, score := h.score, distance := 1 - h.score
      confidence := Quantity.clamp 0 1 h.score
      explanation := explainMatch p.rootAction? h.score : EntityMatch }
  { query := p.query, found := found, meanConfidence := mean32 (found.map (·.confidence))
    trace := x.trace, time := 0 }

/-- The fields that the plan's optimizations read, in order and once each. -/
def Plan.metricFields (p : Plan) : List String :=
  let fields := p.operations.flatMap fun op =>
    match op.action with
    | .optimize _ o _ budgets => o.terms.map (·.field) ++ budgets.map (·.field)
    | _ => []
  (OrderedMap.ofList (fields.map (·, ()))).keys

/-- The numbers of an entity in some fields. -/
def Entity.metrics (e : Entity Double) (fields : List String) : OrderedMap String Double :=
  .ofList (fields.filterMap fun f => (e.number? f).map (f, ·))

/-- The least number above one, less one. -/
def unitGap : Double := 1 / 4503599627370496

/-- The percentage of the objective that a candidate contributes. -/
def share (objective total : Double) : Double :=
  if unitGap < Quantity.magnitude total then 100 * objective / total else 0

/-- Why a candidate was selected. -/
def rationale (objective total : Double) : String :=
  "contributes " ++ Double.fixed 3 objective ++ " (" ++ Double.fixed 0 (share objective total)
    ++ "% of the objective)"

/-- A budget with what is used of it, in words. -/
def BudgetUsage.text (b : BudgetUsage) : String :=
  b.field ++ " " ++ Double.fixed 2 b.used ++ " of " ++ (if b.strict then "<" else "<=")
    ++ Double.fixed 2 b.limit

/-- What a selection uses of each budget. -/
def Optimization.budgetUsage (o : Optimization Double) : List BudgetUsage :=
  o.usage.map fun (b, used) => ⟨b.field, b.limit, b.strict, used⟩

/-- An optimization in one line. -/
def Optimization.summary (o : Optimization Double) : String :=
  let budgets := ", ".intercalate (o.budgetUsage.map BudgetUsage.text)
  o.solver.name ++ " solver selected " ++ toString o.selected.length ++ " of "
    ++ toString o.considered.length ++ " candidates; objective " ++ Double.fixed 3 o.value
    ++ (if o.usage.isEmpty then "" else "; " ++ budgets)
    ++ if o.feasible then "" else " (relaxed)"

/-- The report of a selection, which shows at most `limit` entities. -/
def RecommendationReport.of (p : Plan) (x : Execution) (o : Optimization Double)
    (limit : Option Nat) : RecommendationReport :=
  let shown := atMost limit o.selected
  let recommendations := shown.zipIdx.map fun (c, i) =>
    { rank := i + 1, entity := c.entity.summary, objective := c.raw
      rationale := rationale c.raw o.value
      metrics := c.entity.metrics p.metricFields : Recommendation }
  { query := p.query
    recommendations := recommendations
    tradeOffs :=
      { summary := o.summary, dimensions := o.dimensions.map Dimension.text
        frontier := o.frontier.map (·.entity.summary)
        dominated := o.dominated.map (·.entity.summary), budgets := o.budgetUsage }
    alternatives := o.alternatives.map fun a =>
      ⟨a.candidate.entity.summary, a.candidate.raw, a.tradeOff.text⟩
    objective := o.value, feasible := o.feasible, solver := o.solver.name
    trace := x.trace, time := 0 }

/-- The report of an executed plan. -/
def Report.of (s : Snapshot) (p : Plan) (x : Execution) (limit : Option Nat) : Report :=
  match p.shape, x.optimization with
  | .recommendation, some o => .recommendation (.of p x o limit)
  | _, _ => .found (.of s p x)

end VectorQuery
