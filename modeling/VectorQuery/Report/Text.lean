/-
# Reports as text

A report for a reader: one line an entity, then the trace of the query and how long it took.
-/
import VectorQuery.Report.Basic
import VectorQuery.Text.Lines
import VectorQuery.Text.Style

namespace VectorQuery

open Text (Style padLeft padRight)

/-- The lines of a trace; none when nothing happened. -/
def Trace.shown (color : Bool) (t : Trace) : List String :=
  if t.steps.isEmpty && t.notes.isEmpty && t.warnings.isEmpty then []
  else
    Style.bold.paint color "trace:" :: t.steps.map ("  " ++ ·.text)
      ++ t.notes.map ("  " ++ Style.blue.paint color "note:" ++ " " ++ ·)
      ++ t.warnings.map ("  " ++ Style.yellowBold.paint color "warning:" ++ " " ++ ·)

/-- The line that repeats the query. -/
def Report.queryLine (color : Bool) (query : String) : String :=
  Style.bold.paint color "query:" ++ " " ++ query

/-- The place of an item in a list, from one on. -/
def Report.place (i : Nat) : String := padLeft 3 (toString i) ++ ". "

/-- An entity in a column of its own. -/
def EntitySummary.column (color : Bool) (e : EntitySummary) : String :=
  Style.cyan.column color 32 e.text

namespace MatchReport

/-- A match and its place, counted from zero. -/
def line (color : Bool) (m : EntityMatch) (i : Nat) : String :=
  Report.place (i + 1) ++ m.entity.column color ++ " score " ++ Single.fixed 3 m.score ++ "  "
    ++ Style.dimmed.paint color m.explanation

/-- The lines of a match report. -/
def lines (color : Bool) (r : MatchReport) : List String :=
  Report.queryLine color r.query ::
    if r.found.isEmpty then [Style.yellow.paint color "no matches"]
    else r.found.zipIdx.map (fun (m, i) => line color m i)
      ++ [toString r.found.length ++ " match(es), mean confidence "
        ++ Single.fixed 3 r.meanConfidence]

end MatchReport

namespace RecommendationReport

/-- A recommendation. -/
def line (color : Bool) (r : Recommendation) : String :=
  Report.place r.rank ++ r.entity.column color ++ " " ++ r.rationale ++ "  ["
    ++ ", ".intercalate (r.metrics.entries.map fun (name, v) => name ++ "=" ++ Double.text v)
    ++ "]"

/-- An alternative. -/
def alternative (a : AlternativeSummary) : String :=
  "  - " ++ a.entity.text ++ " (" ++ Double.fixed 3 a.objective ++ "): " ++ a.tradeOff

/-- The lines of a recommendation report. -/
def lines (color : Bool) (r : RecommendationReport) : List String :=
  let bold := Style.bold.paint color
  let relaxed := "constraints were relaxed; see warnings"
  let frontier := "  pareto frontier over " ++ " ".intercalate r.tradeOffs.dimensions ++ ": "
    ++ ", ".intercalate (r.tradeOffs.frontier.map EntitySummary.text)
  Report.queryLine color r.query ::
    (if r.feasible then [] else [Style.yellowBold.paint color relaxed])
    ++ r.recommendations.map (line color)
    ++ [bold "objective:" ++ " " ++ Double.fixed 3 r.objective ++ " (" ++ r.solver ++ " solver)",
      bold "trade-offs:" ++ " " ++ r.tradeOffs.summary]
    ++ (if r.tradeOffs.frontier.isEmpty then [] else [frontier])
    ++ if r.alternatives.isEmpty then []
      else bold "alternatives:" :: r.alternatives.map alternative

end RecommendationReport

/-- The name of a severity, the more striking the higher. -/
def Severity.shown (color : Bool) (s : Severity) : String :=
  match s with
  | .critical => Style.redBold.paint color s.name
  | .high => Style.red.paint color s.name
  | .medium => Style.yellow.paint color s.name
  | .low => s.name

namespace AnalysisReport

/-- A gap. -/
def gap (color : Bool) (g : Gap) : String :=
  "  [" ++ g.severity.shown color ++ "] " ++ g.entity.text ++ ": " ++ g.description

/-- An opportunity and its place, counted from zero. -/
def opportunity (o : Opportunity) (i : Nat) : String :=
  Report.place (i + 1) ++ "roi " ++ Double.fixed 2 o.roi ++ "  " ++ o.description

/-- The lines of an analysis. -/
def lines (color : Bool) (r : AnalysisReport) : List String :=
  let bold := Style.bold.paint color
  Report.queryLine color r.query :: bold "metrics:" ::
    r.metrics.entries.map (fun (name, v) => "  " ++ padRight 16 name ++ " " ++ Double.fixed 3 v)
    ++ (if r.gaps.isEmpty then [] else bold "gaps:" :: r.gaps.map (gap color))
    ++ (if r.opportunities.isEmpty then []
      else bold "opportunities:" :: r.opportunities.zipIdx.map fun (o, i) => opportunity o i)
    ++ r.insights.map (Style.green.paint color "*" ++ " " ++ ·)

end AnalysisReport

/-- The lines of a report, its trace among them. -/
def Report.lines (color : Bool) (r : Report) : List String :=
  (match r with
    | .found r => r.lines color
    | .recommendation r => r.lines color
    | .analysis r => r.lines color)
  ++ r.trace.shown color
  ++ [Style.dimmed.paint color ("(" ++ Double.fixed 2 r.time ++ " ms)")]

/-- A report as text. -/
def Report.text (color : Bool) (r : Report) : String := Text.ofLines (r.lines color)

end VectorQuery
