/-
# Answering queries

An engine holds a store and settings.  A query text is parsed, lowered to a plan on the store's
current snapshot, and executed; any of the three may fail, and so may the time run out.
-/
import VectorQuery.Plan.Lowering
import VectorQuery.Query.Parser
import VectorQuery.Report.Analysis
import VectorQuery.Report.Explain
import VectorQuery.Store.Basic

namespace VectorQuery

/-- Why a query has no answer. -/
inductive QueryError where
  | parse (cause : ParseError)
  | plan (cause : PlanError)
  | execution (cause : ExecutionError)
  | timeout (budget : Nat) (trace : Trace)

namespace QueryError

/-- What ended an execution. -/
def ofInterruption : Interruption → QueryError
  | .failed cause => .execution cause
  | .timeout budget trace => .timeout budget trace

/-- The error in words. -/
def message : QueryError → String
  | .parse cause => "parse error: " ++ cause.message
  | .plan cause => "compile error: " ++ cause.message
  | .execution cause => "execution error: " ++ cause.message
  | .timeout budget _ => "query timed out after 0 ms (budget " ++ toString budget ++ " ms)"

/-- The error in words, and then its cause. -/
def report (e : QueryError) : String :=
  match e with
  | .parse cause => e.message ++ ": " ++ cause.message
  | .plan cause => e.message ++ ": " ++ cause.message
  | .execution cause => e.message ++ ": " ++ cause.message
  | .timeout .. => e.message

/-- What was done before the time ran out. -/
def trace? : QueryError → Option Trace
  | .timeout _ trace => some trace
  | _ => none

/-- The exit code of a program that ends with the error. -/
def exitCode : QueryError → Nat
  | .parse _ => 1
  | .plan _ => 2
  | .execution _ | .timeout .. => 3

end QueryError

/-- What a single query may take and show. -/
structure QueryOptions where
  /-- The most entities shown. -/
  limit : Option Nat := none
  /-- The time that the query may take, in milliseconds. -/
  timeout : Option Nat := none

/-- A store with the settings that its queries are answered by. -/
structure Engine where
  store : Store
  config : EngineConfig
  matcher : NameMatcher
  predict : AnalogySolver

namespace Engine

/-- The engine with names matched by edit distance and analogies by offset. -/
def new (store : Store) (config : EngineConfig) : Engine :=
  ⟨store, config, NameMatch.byEdits config.executor.fuzzyMaxDistance, offsetAnalogy⟩

/-- What plans are run on and with. -/
def executor (e : Engine) (s : Snapshot) : Executor :=
  ⟨s, e.config.executor, e.matcher, e.predict⟩

/-- The query that a text is. -/
def parse (text : String) : Except QueryError Query := (Query.parse text).mapError .parse

/-- The plan of a query on a snapshot. -/
def plan (e : Engine) (s : Snapshot) (q : Query) (limit : Option Nat) : Except QueryError Plan :=
  (Plan.ofQuery s e.config q limit).mapError .plan

/-- The plan of a query text on the current snapshot. -/
def compile (e : Engine) (text : String) (limit : Option Nat) : Except QueryError Plan := do
  e.plan e.store.current (← parse text) limit

/-- Plans and executes a query text. -/
def run (e : Engine) (s : Snapshot) (text : String) (options : QueryOptions) :
    Except QueryError (Plan × Execution) := do
  let p ← e.plan s (← parse text) options.limit
  let x ← ((e.executor s).run p options.timeout).mapError .ofInterruption
  .ok (p, x)

/-- The answer to a query text on a snapshot. -/
def executeOn (e : Engine) (s : Snapshot) (text : String) (options : QueryOptions) :
    Except QueryError Report := do
  let (p, x) ← e.run s text options
  .ok (.of s p x options.limit)

/-- The answer to a query text. -/
def execute (e : Engine) (text : String) (options : QueryOptions) : Except QueryError Report :=
  e.executeOn e.store.current text options

/-- The analysis of a query text. -/
def analyze (e : Engine) (text : String) (options : QueryOptions) :
    Except QueryError AnalysisReport := do
  let s := e.store.current
  let (p, x) ← e.run s text options
  (Analysis.run s e.config.executor p x).mapError .execution

end Engine

end VectorQuery
