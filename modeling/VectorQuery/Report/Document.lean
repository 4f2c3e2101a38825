/-
# Reports as JSON documents

The fields of a document come in a fixed order, its kind first.  Reading accepts them in any order
and passes over unknown ones, but every field has to be there.
-/
import VectorQuery.Json.Basic
import VectorQuery.Plan.Document
import VectorQuery.Report.Basic

namespace VectorQuery

namespace Json

/-- The values of the named fields of a record, none of which may be missing. -/
def fields? (names : List String) (j : Json) : Option (List Json) := do
  (← j.fullRecord? names).mapM id

/-- The items of an array, each of which `read` accepts. -/
def items? {α : Type} (read : Json → Option α) (j : Json) : Option (List α) := do
  (← j.array?).mapM read

/-- The fields of an object, each of which `read` accepts; the last one of a name counts. -/
def map? {α : Type} (read : Json → Option α) (j : Json) : Option (OrderedMap String α) := do
  let fields ← (← j.object?).mapM fun (name, v) => do some (name, ← read v)
  some (.ofList fields)

/-- A map as a document. -/
def ofMap {α : Type} (write : α → Json) (m : OrderedMap String α) : Json :=
  .object (m.entries.map fun (name, v) => (name, write v))

end Json

/-- A step as a document. -/
def TraceStep.toJson (t : TraceStep) : Json :=
  .object [("step", .natural t.step), ("operation", .string t.operation),
    ("output", .string t.output), ("result_size", .natural t.resultSize),
    ("elapsed_us", .natural t.elapsed)]

/-- The step that a document is. -/
def TraceStep.ofJson? (j : Json) : Option TraceStep := do
  match ← j.fields? ["step", "operation", "output", "result_size", "elapsed_us"] with
  | [step, operation, output, size, elapsed] =>
    some ⟨← step.natural?, ← operation.string?, ← output.string?, ← size.natural?,
      ← elapsed.natural?⟩
  | _ => none

/-- A trace as a document. -/
def Trace.toJson (t : Trace) : Json :=
  .object [("steps", .array (t.steps.map TraceStep.toJson)), ("notes", Json.strings t.notes),
    ("warnings", Json.strings t.warnings)]

/-- The trace that a document is. -/
def Trace.ofJson? (j : Json) : Option Trace := do
  match ← j.fields? ["steps", "notes", "warnings"] with
  | [steps, notes, warnings] =>
    some ⟨← steps.items? TraceStep.ofJson?, ← notes.items? Json.string?,
      ← warnings.items? Json.string?⟩
  | _ => none

namespace EntitySummary

/-- A summary as a document. -/
def toJson (e : EntitySummary) : Json :=
  .object [("entity_type", .string e.entityType), ("id", .string e.id),
    ("display_name", .string e.displayName), ("metadata", Json.ofMap Scalar.toJson e.metadata)]

/-- The summary that a document is. -/
def ofJson? (j : Json) : Option EntitySummary := do
  match ← j.fields? ["entity_type", "id", "display_name", "metadata"] with
  | [entityType, id, displayName, metadata] =>
    some ⟨← entityType.string?, ← id.string?, ← displayName.string?,
      ← metadata.map? Scalar.ofJson?⟩
  | _ => none

end EntitySummary

/-- A match as a document. -/
def EntityMatch.toJson (m : EntityMatch) : Json :=
  .object [("entity", m.entity.toJson), ("score", .single m.score),
    ("distance", .single m.distance), ("confidence", .single m.confidence),
    ("explanation", .string m.explanation)]

/-- The match that a document is. -/
def EntityMatch.ofJson? (j : Json) : Option EntityMatch := do
  match ← j.fields? ["entity", "score", "distance", "confidence", "explanation"] with
  | [entity, score, distance, confidence, explanation] =>
    some ⟨← EntitySummary.ofJson? entity, ← score.single?, ← distance.single?,
      ← confidence.single?, ← explanation.string?⟩
  | _ => none

/-- A recommendation as a document. -/
def Recommendation.toJson (r : Recommendation) : Json :=
  .object [("rank", .natural r.rank), ("entity", r.entity.toJson),
    ("objective", .real r.objective), ("rationale", .string r.rationale),
    ("metrics", Json.ofMap Json.real r.metrics)]

/-- The recommendation that a document is. -/
def Recommendation.ofJson? (j : Json) : Option Recommendation := do
  match ← j.fields? ["rank", "entity", "objective", "rationale", "metrics"] with
  | [rank, entity, objective, rationale, metrics] =>
    some ⟨← rank.natural?, ← EntitySummary.ofJson? entity, ← objective.real?,
      ← rationale.string?, ← metrics.map? Json.real?⟩
  | _ => none

/-- An alternative as a document. -/
def AlternativeSummary.toJson (a : AlternativeSummary) : Json :=
  .object [("entity", a.entity.toJson), ("objective", .real a.objective),
    ("trade_off", .string a.tradeOff)]

/-- The alternative that a document is. -/
def AlternativeSummary.ofJson? (j : Json) : Option AlternativeSummary := do
  match ← j.fields? ["entity", "objective", "trade_off"] with
  | [entity, objective, tradeOff] =>
    some ⟨← EntitySummary.ofJson? entity, ← objective.real?, ← tradeOff.string?⟩
  | _ => none

/-- The use of a budget as a document. -/
def BudgetUsage.toJson (b : BudgetUsage) : Json :=
  .object [("field", .string b.field), ("limit", .real b.limit), ("strict", .bool b.strict),
    ("used", .real b.used)]

/-- The use of a budget that a document is. -/
def BudgetUsage.ofJson? (j : Json) : Option BudgetUsage := do
  match ← j.fields? ["field", "limit", "strict", "used"] with
  | [field, limit, strict, used] =>
    some ⟨← field.string?, ← limit.real?, ← strict.bool?, ← used.real?⟩
  | _ => none

/-- Trade-offs as a document. -/
def TradeOffSummary.toJson (t : TradeOffSummary) : Json :=
  .object [("summary", .string t.summary), ("dimensions", Json.strings t.dimensions),
    ("pareto_frontier", .array (t.frontier.map EntitySummary.toJson)),
    ("dominated", .array (t.dominated.map EntitySummary.toJson)),
    ("budgets", .array (t.budgets.map BudgetUsage.toJson))]

/-- The trade-offs that a document is. -/
def TradeOffSummary.ofJson? (j : Json) : Option TradeOffSummary := do
  match ← j.fields? ["summary", "dimensions", "pareto_frontier", "dominated", "budgets"] with
  | [summary, dimensions, frontier, dominated, budgets] =>
    some ⟨← summary.string?, ← dimensions.items? Json.string?,
      ← frontier.items? EntitySummary.ofJson?, ← dominated.items? EntitySummary.ofJson?,
      ← budgets.items? BudgetUsage.ofJson?⟩
  | _ => none

/-- The severity of a name. -/
def Severity.ofName? (s : String) : Option Severity := Severity.all.find? (·.name == s)

/-- A gap as a document. -/
def Gap.toJson (g : Gap) : Json :=
  .object [("gap_type", .string g.kind), ("entity", g.entity.toJson),
    ("description", .string g.description), ("severity", .string g.severity.name),
    ("best_score", .single g.best)]

/-- The gap that a document is. -/
def Gap.ofJson? (j : Json) : Option Gap := do
  match ← j.fields? ["gap_type", "entity", "description", "severity", "best_score"] with
  | [kind, entity, description, severity, best] =>
    some ⟨← kind.string?, ← EntitySummary.ofJson? entity, ← description.string?,
      ← Severity.ofName? (← severity.word?), ← best.single?⟩
  | _ => none

/-- An opportunity as a document. -/
def Opportunity.toJson (o : Opportunity) : Json :=
  .object [("entity", o.entity.toJson), ("description", .string o.description),
    ("value", .real o.value), ("effort", .real o.effort), ("roi", .real o.roi)]

/-- The opportunity that a document is. -/
def Opportunity.ofJson? (j : Json) : Option Opportunity := do
  match ← j.fields? ["entity", "description", "value", "effort", "roi"] with
  | [entity, description, value, effort, roi] =>
    some ⟨← EntitySummary.ofJson? entity, ← description.string?, ← value.real?, ← effort.real?,
      ← roi.real?⟩
  | _ => none

/-- A report of matches as the fields of a document. -/
def MatchReport.fields (r : MatchReport) : List (String × Json) :=
  [("query", .string r.query), ("matches", .array (r.found.map EntityMatch.toJson)),
    ("mean_confidence", .single r.meanConfidence), ("trace", r.trace.toJson),
    ("execution_time_ms", .real r.time)]

/-- The report of matches that a document is. -/
def MatchReport.ofJson? (j : Json) : Option MatchReport := do
  match ← j.fields? ["query", "matches", "mean_confidence", "trace", "execution_time_ms"] with
  | [query, found, mean, trace, time] =>
    some ⟨← query.string?, ← found.items? EntityMatch.ofJson?, ← mean.single?,
      ← Trace.ofJson? trace, ← time.real?⟩
  | _ => none

/-- A recommended selection as the fields of a document. -/
def RecommendationReport.fields (r : RecommendationReport) : List (String × Json) :=
  [("query", .string r.query),
    ("recommendations", .array (r.recommendations.map Recommendation.toJson)),
    ("trade_offs", r.tradeOffs.toJson),
    ("alternatives", .array (r.alternatives.map AlternativeSummary.toJson)),
    ("objective_value", .real r.objective), ("feasible", .bool r.feasible),
    ("solver", .string r.solver), ("trace", r.trace.toJson), ("execution_time_ms", .real r.time)]

/-- The recommended selection that a document is. -/
def RecommendationReport.ofJson? (j : Json) : Option RecommendationReport := do
  match ← j.fields? ["query", "recommendations", "trade_offs", "alternatives", "objective_value",
    "feasible", "solver", "trace", "execution_time_ms"] with
  | [query, recommendations, tradeOffs, alternatives, objective, feasible, solver, trace, time] =>
    some ⟨← query.string?, ← recommendations.items? Recommendation.ofJson?,
      ← TradeOffSummary.ofJson? tradeOffs, ← alternatives.items? AlternativeSummary.ofJson?,
      ← objective.real?, ← feasible.bool?, ← solver.string?, ← Trace.ofJson? trace, ← time.real?⟩
  | _ => none

/-- An analysis as the fields of a document. -/
def AnalysisReport.fields (r : AnalysisReport) : List (String × Json) :=
  [("query", .string r.query), ("metrics", Json.ofMap Json.real r.metrics),
    ("gaps", .array (r.gaps.map Gap.toJson)),
    ("opportunities", .array (r.opportunities.map Opportunity.toJson)),
    ("insights", Json.strings r.insights), ("trace", r.trace.toJson),
    ("execution_time_ms", .real r.time)]

/-- The analysis that a document is. -/
def AnalysisReport.ofJson? (j : Json) : Option AnalysisReport := do
  match ← j.fields? ["query", "metrics", "gaps", "opportunities", "insights", "trace",
    "execution_time_ms"] with
  | [query, metrics, gaps, opportunities, insights, trace, time] =>
    some ⟨← query.string?, ← metrics.map? Json.real?, ← gaps.items? Gap.ofJson?,
      ← opportunities.items? Opportunity.ofJson?, ← insights.items? Json.string?,
      ← Trace.ofJson? trace, ← time.real?⟩
  | _ => none

namespace Report

/-- A report as a document. -/
def toJson : Report → Json
  | .found r => .object (("kind", .string "match") :: r.fields)
  | .recommendation r => .object (("kind", .string "recommendation") :: r.fields)
  | .analysis r => .object (("kind", .string "analysis") :: r.fields)

/-- The report that a document is. -/
def ofJson? (j : Json) : Option Report := do
  let (tag, rest) ← j.tagged? "kind"
  match ← tag.string? with
  | "match" => (MatchReport.ofJson? rest).map .found
  | "recommendation" => (RecommendationReport.ofJson? rest).map .recommendation
  | "analysis" => (AnalysisReport.ofJson? rest).map .analysis
  | _ => none

end Report

end VectorQuery
