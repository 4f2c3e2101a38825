/-
# Running a plan

A plan runs level by level.  The operations of a level read the values bound by earlier levels
only, so they may run in any order: those marked as parallel come before the others where there
are several of them.  What they compute is bound in the order of the plan; of several failures in
a level the first in the plan counts.  The time that a query may take is checked before each
operation.  Running takes no time here, so only a limit of zero is ever exceeded.
-/
import VectorQuery.Execution.Step
import VectorQuery.Execution.Trace

namespace VectorQuery

/-- Values of variables; the latest one of a variable comes first. -/
abbrev Bindings := List (Variable × ScoredSet Single)

namespace Bindings

/-- The value of a variable. -/
def value? (b : Bindings) (v : Variable) : Option (ScoredSet Single) := List.lookup v b

/-- Binds a variable, whatever its value was. -/
def bind (b : Bindings) (v : Variable) (set : ScoredSet Single) : Bindings :=
  (v, set) :: List.filter (fun (w, _) => w ≠ v) b

end Bindings

/-- What a plan has computed so far. -/
structure Progress where
  bindings : Bindings
  optimizations : List (Variable × Optimization Double)
  /-- The steps that were run, by the index of their operation. -/
  steps : OrderedMap Nat TraceStep
  notes : List String
  warnings : List String

namespace Progress

/-- Nothing has been computed. -/
def start : Progress := ⟨[], [], .empty, [], []⟩

/-- The result of one more operation. -/
def commit (p : Progress) (index : Nat) (op : Operation) (r : StepResult) : Progress :=
  { bindings := p.bindings.bind op.output r.set
    optimizations := (r.optimization.map (op.output, ·)).toList ++ p.optimizations
    steps := p.steps.insert index ⟨index + 1, op.call, op.output.text, r.set.size, 0⟩
    notes := p.notes ++ r.notes
    warnings := p.warnings ++ r.warnings }

/-- The trace of what was run. -/
def trace (p : Progress) : Trace := ⟨p.steps.values, p.notes, p.warnings⟩

end Progress

/-- What a plan computes. -/
structure Execution where
  result : ScoredSet Single
  bindings : Bindings
  /-- The optimization that the plan ends in, if it does. -/
  optimization : Option (Optimization Double)
  trace : Trace

/-- Why a plan did not run to its end. -/
inductive Interruption where
  | failed (cause : ExecutionError)
  /-- The limit of `budget` milliseconds was exceeded. -/
  | timeout (budget : Nat) (trace : Trace)

namespace Executor

/-- The time that the query may take has run out. -/
def expired (limit : Option Nat) : Bool := limit = some 0

/-- The trace of a plan that ran out of time before an operation. -/
def expiredBefore (p : Progress) (op : Operation) : Trace :=
  let t := p.trace
  { t with
    warnings := t.warnings ++ ["deadline reached before " ++ op.output.text ++ " = " ++ op.call] }

/-- Why an operation of a level has no result. -/
inductive Halt where
  | failed (cause : ExecutionError)
  /-- The time had run out before it. -/
  | late

/-- Runs an operation on the values bound before its level. -/
def attempt (x : Executor) (limit : Option Nat) (before : Bindings) (op : Operation) :
    Except Halt StepResult :=
  if expired limit then .error .late
  else
    match x.step before.value? op with
    | .ok r => .ok r
    | .error e => .error (.failed e)

/-- Binds what an operation computed, or ends the run. -/
def settle (limit : Option Nat) (p : Progress) (index : Nat) (op : Operation) :
    Except Halt StepResult → Except Interruption Progress
  | .ok r => .ok (p.commit index op r)
  | .error .late => .error (.timeout (limit.getD 0) (expiredBefore p op))
  | .error (.failed e) => .error (.failed e)

/-- The order in which the operations of a level run: where several are marked as parallel, these
come first. -/
def schedule (x : Executor) (operations : List Operation) (level : List Nat) : List Nat :=
  let (marked, others) := level.partition fun i =>
    x.config.parallel && operations[i]?.any (·.parallel)
  if 1 < marked.length then marked ++ others else level

/-- What the operations of a level come to, by their indexes. -/
def attempts (x : Executor) (limit : Option Nat) (operations : List Operation) (before : Bindings)
    (level : List Nat) : OrderedMap Nat (Operation × Except Halt StepResult) :=
  .ofList ((x.schedule operations level).filterMap fun i =>
    operations[i]?.map fun op => (i, op, x.attempt limit before op))

/-- Runs the operations of a level, and then binds what they computed in the order of the plan. -/
def runLevel (x : Executor) (limit : Option Nat) (operations : List Operation) (p : Progress)
    (level : List Nat) : Except Interruption Progress :=
  (x.attempts limit operations p.bindings level).entries.foldlM
    (fun p (i, op, result) => settle limit p i op result) p

/-- Runs a plan within a limit of milliseconds, if one is given. -/
def run (x : Executor) (plan : Plan) (limit : Option Nat) : Except Interruption Execution := do
  let p ← plan.levels.foldlM (x.runLevel limit plan.operations) .start
  match p.bindings.value? plan.result with
  | none => .error (.failed (.unbound plan.result.text))
  | some result =>
    .ok
      { result := result, bindings := p.bindings
        optimization := plan.root? >>= fun v => List.lookup v p.optimizations
        trace := p.trace }

end Executor

end VectorQuery
