/-
# Gaps and opportunities

An analysis asks what an answer leaves out.  For an arrow it is the entities on the right that
nothing on the left relates to well enough; for any other query it is the entities of the queried
types that do not match.  Every gap is an opportunity, of a value that grows as the best score
falls.
-/
import VectorQuery.Execution.Basic
import VectorQuery.Report.Basic

namespace VectorQuery.Analysis

/-- An entity that is left out. -/
structure Missing where
  ordinal : Nat
  entity : Entity Double
  /-- The best score that speaks for the entity. -/
  best : Single
  /-- The score that would have been enough. -/
  threshold : Single
  kind : String
  description : String

/-- The entities on the right that no entity on the left relates to well enough. -/
def unserved (s : Snapshot) (minScore : Single) (scores : RelationScores)
    (right : ScoredSet Single) : List Missing :=
  right.members.filterMap fun o =>
    let best := Quantity.positivePart ((scores.right.score? o).getD 0)
    if best < minScore then
      (s.entity? o).map fun e =>
        ⟨o, e, best, minScore, "unserved", "no related entity reaches score "
          ++ Single.fixed 2 minScore ++ " (best " ++ Single.fixed 3 best ++ ")"⟩
    else none

/-- The entities of some types outside a set, each with its similarity to the nearest in the set. -/
def unmatched (s : Snapshot) (types : List String) (found : ScoredSet Single) : List Missing :=
  let embeddings := found.members.filterMap fun o => (s.entity? o).map (·.dense)
  let outside := (s.ordinals types).filter fun o => !found.contains o
  outside.filterMap fun o => (s.entity? o).map fun e =>
    let best := (embeddings.filterMap e.dense.cosine?).foldl Quantity.greater 0
    ⟨o, e, best, 1, "unmatched", "not matched by the query (closest match similarity "
      ++ Single.fixed 3 best ++ ")"⟩

/-- The value of an input of an operation. -/
def input (x : Execution) (op : Operation) (n : Nat) :
    Except ExecutionError (ScoredSet Single) :=
  match op.inputs[n]? >>= x.bindings.value? with
  | some set => .ok set
  | none => .error (.unbound (op.output.text ++ "[" ++ toString n ++ "]"))

/-- What a query leaves out; `found` is its answer before a limit. -/
def missing (s : Snapshot) (p : Plan) (x : Execution) (found : ScoredSet Single) :
    Except ExecutionError (List Missing) :=
  match p.root? >>= p.operation? with
  | some op =>
    match op.action with
    | .relate bindings minScore => do
      let left ← input x op 0
      let right ← input x op 1
      let scores ← RelationScores.compute s bindings left right
      .ok (unserved s minScore scores right)
    | _ => .ok (unmatched s p.types found)
  | none => .ok (unmatched s p.types found)

/-- How badly the entity is missing. -/
def Missing.severity (m : Missing) : Severity := .ofSupport m.best m.threshold

/-- The gap that a missing entity is. -/
def Missing.gap (m : Missing) : Gap :=
  ⟨m.kind, m.entity.summary, m.description, m.severity, m.best⟩

/-- A missing entity is listed no later than another: the more severe first, then the one with less
support, then by ordinal. -/
def Missing.before (a b : Missing) : Bool :=
  if a.severity ≠ b.severity then b.severity.level < a.severity.level
  else
    match Quantity.rank a.best b.best with
    | .lt => true
    | .eq => a.ordinal ≤ b.ordinal
    | .gt => false

/-- What closing the gap would bring. -/
def Missing.opportunity (config : ExecutorConfig) (m : Missing) : Opportunity :=
  let weight := (m.entity.number? config.valueField).getD 1
  let value := (1 - Quantity.clamp 0 1 m.best).toDouble * weight
  let effort := ((m.entity.number? config.effortField).filter (0 < ·)).getD 1
  let description := "close the " ++ m.kind ++ " gap for " ++ m.entity.key.text ++ ": value "
    ++ Double.fixed 2 value ++ " at effort " ++ Double.fixed 2 effort
  ⟨m.entity.summary, description, value, effort, value / effort⟩

/-- The opportunities of missing entities with their ordinals, the greatest return first. -/
def opportunities (config : ExecutorConfig) (ms : List Missing) : List (Nat × Opportunity) :=
  rankedBy (·.2.roi) (·.1) (ms.map fun m => (m.ordinal, m.opportunity config))

/-- The part of the entities that match, one at most. -/
def coverage (count total : Nat) : Double :=
  Quantity.lesser (Double.ofNat count / Double.ofNat total) 1

/-- Figures of an answer with the given scores. -/
def metrics (scores : List Single) (total gaps : Nat) : OrderedMap String Double :=
  let count := scores.length
  let (mean, least, greatest) : Double × Double × Double :=
    match scores with
    | [] => (0, 0, 0)
    | _ =>
      (Quantity.sum (scores.map Single.toDouble) / Double.ofNat count,
        (scores.foldl Quantity.lesser .infinity).toDouble,
        (scores.foldl Quantity.greater (-.infinity)).toDouble)
  .ofList [("result_count", Double.ofNat count), ("universe_size", Double.ofNat total),
    ("coverage_ratio", if total = 0 then 0 else coverage count total), ("mean_score", mean),
    ("min_score", least), ("max_score", greatest), ("gap_count", Double.ofNat gaps)]

/-- How much of the queried types matches. -/
def coverageInsight (count total : Nat) : List String :=
  if count = 0 then ["The query matched nothing; check identifiers or relax thresholds."]
  else if 0 < total then
    [toString count ++ " of " ++ toString total ++ " entities matched ("
      ++ Double.fixed 1 (100 * coverage count total) ++ "% coverage)."]
  else []

/-- How many gaps there are. -/
def gapInsight (gaps : List Gap) : List String :=
  if gaps.isEmpty then []
  else
    let critical := (gaps.filter (·.severity = .critical)).length
    [toString gaps.length ++ " gap(s) found, " ++ toString critical ++ " critical."]

/-- Which opportunity is the best. -/
def opportunityInsight : List Opportunity → List String
  | [] => []
  | top :: _ =>
    ["Highest-ROI opportunity: " ++ top.entity.text ++ " (roi " ++ Double.fixed 2 top.roi ++ ")."]

/-- The most gaps and opportunities that are shown: as many as the plan collects. -/
def shownLimit (p : Plan) : Option Nat :=
  match p.operation? p.result with
  | some op =>
    match op.action with
    | .collect topK => topK
    | _ => none
  | none => none

/-- The analysis of an executed plan. -/
def run (s : Snapshot) (config : ExecutorConfig) (p : Plan) (x : Execution) :
    Except ExecutionError AnalysisReport := do
  let found := (p.root? >>= x.bindings.value?).getD x.result
  let ms := (← missing s p x found).mergeSort Missing.before
  let gaps := ms.map Missing.gap
  let chances := (opportunities config ms).map (·.2)
  let total := (s.ordinals p.types).length
  let limit := shownLimit p
  .ok
    { query := p.query
      metrics := metrics (found.toList.map (·.score)) total gaps.length
      gaps := atMost limit gaps
      opportunities := atMost limit chances
      insights := coverageInsight found.size total ++ gapInsight gaps ++ opportunityInsight chances
      trace := x.trace, time := 0 }

end VectorQuery.Analysis
