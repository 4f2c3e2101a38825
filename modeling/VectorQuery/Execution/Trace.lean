/-
# Traces

A trace tells what each operation of a plan computed, and what was worth noting on the way.
-/
namespace VectorQuery

/-- An operation that was run. -/
structure TraceStep where
  step : Nat
  operation : String
  output : String
  resultSize : Nat
  /-- How long the operation took, in microseconds. -/
  elapsed : Nat
  deriving DecidableEq, Repr

/-- A step in words. -/
def TraceStep.text (t : TraceStep) : String :=
  toString t.step ++ ". " ++ t.output ++ " = " ++ t.operation ++ " -> " ++ toString t.resultSize
    ++ " entities (" ++ toString t.elapsed ++ " us)"

/-- What happened while a plan was run. -/
structure Trace where
  steps : List TraceStep
  notes : List String
  warnings : List String
  deriving DecidableEq, Repr

namespace Trace

/-- Nothing happened. -/
def empty : Trace := ⟨[], [], []⟩

/-- A trace line by line. -/
def lines (t : Trace) : List String :=
  t.steps.map TraceStep.text ++ t.notes.map ("note: " ++ ·) ++ t.warnings.map ("warning: " ++ ·)

end Trace

end VectorQuery
