/-
# What queries mean

`evaluate` gives a query its meaning by recursion on its shape: there are no operations, variables
or estimates.  It keeps the types seen from left to right, since a comparison, a negation and an
optimization draw on all entities of those types.

A `Strategy` says what becomes of a subquery.  `Strategy.direct` evaluates it anew wherever it
stands, so `Query.meaning` is the meaning that a plan has to agree with.
-/
import VectorQuery.Engine

namespace VectorQuery

/-- The entities that a query stands for, and the types that they may have. -/
structure Meaning where
  set : ScoredSet Single
  types : TypeSet

namespace Meaning

/-- All entities of some types. -/
def everything (x : Executor) (types : TypeSet) : Meaning :=
  ⟨.uniform (x.snapshot.ordinals types.names) 1, types⟩

/-- The entities that satisfy a condition. -/
def filter (x : Executor) (a : Meaning) (c : Comparison Double) : Meaning :=
  ⟨x.filter a.set c, a.types⟩

/-- The entities that satisfy conditions, one after the other. -/
def filterAll (x : Executor) (a : Meaning) (cs : List (Comparison Double)) : Meaning :=
  cs.foldl (filter x) a

/-- The entities of both. -/
def both (a b : Meaning) : Meaning := ⟨a.set.and b.set, a.types.both b.types⟩

/-- The entities of either. -/
def either (a b : Meaning) : Meaning := ⟨a.set.or b.set, a.types.either b.types⟩

/-- The entities of `all` that are not in `a`. -/
def outside (a all : Meaning) : Meaning := ⟨a.set.complement all.set.members, all.types⟩

end Meaning

/-- A way to relate the entities of two sides, as `Executor.relate` does. -/
abbrev Relating := List RelationBinding → Single → ScoredSet Single → ScoredSet Single →
  Except ExecutionError (ScoredSet Single)

/-- Sides are related as an operation of a plan relates them. -/
def Executor.relating (x : Executor) : Relating := fun bindings minScore left right =>
  (x.relate bindings minScore left right).map (·.set)

/-- How an evaluator knows the types seen so far, what becomes of a subquery, and how two sides are
related. -/
structure Strategy (m : Type → Type) where
  seen : m TypeSet
  see : TypeSet → m Unit
  subquery : Query → m Meaning → m Meaning
  relate : Relating

namespace Evaluation

/-! ## Names and parameters -/

/-- A failure to plan. -/
def planned {α : Type} (e : Except PlanError α) : Except QueryError α := e.mapError .plan

/-- A failure to execute. -/
def executed {α : Type} (e : Except ExecutionError α) : Except QueryError α := e.mapError .execution

/-- The type is known. -/
def checkType (s : Snapshot) (name : String) : Except PlanError Unit :=
  if s.hasType name then .ok () else .error (.unknownType name s.typeNames)

/-- The field is known. -/
def checkField (s : Snapshot) (field : String) : Except PlanError Unit :=
  if isBuiltinField field || s.fields.contains field then .ok () else .error (.unknownField field)

/-- The fields of conditions are known. -/
def checkConditions (s : Snapshot) (cs : List (Comparison Double)) : Except PlanError Unit :=
  cs.forM fun c => checkField s c.field

/-- The field of a term is numeric metadata and its weight is finite. -/
def checkTerm (s : Snapshot) (t : Term Double) : Except PlanError Unit := do
  if isBuiltinField t.field then .error (.builtinObjective t.field)
  checkField s t.field
  if !t.weight.isFinite then .error (.unboundedWeight t.field t.weight)

/-- A distance lies between 0 and 2. -/
def checkDistance (d : Double) : Except PlanError Unit :=
  if !(0 ≤ d && d ≤ 2) then .error (.distanceRange d) else .ok ()

/-- The type of an analogy's answers: the one named, or the only type of its second term. -/
def analogyType (s : Snapshot) (second : TypeSet) : Option String → Except PlanError String
  | some t => do
    checkType s t
    .ok t
  | none =>
    match second.names with
    | [t] => .ok t
    | _ => .error (.ambiguousTarget (s.possible second))

/-! ## Single shapes

Each shape is computed from the evaluations of its operands. -/

section

variable {m : Type → Type} [Monad m] [MonadLift (Except QueryError) m] (x : Executor)
  (config : EngineConfig) (σ : Strategy m)

/-- All entities of the types seen so far. -/
def everything : m Meaning := do
  let types ← σ.seen
  pure (.everything x types)

/-- Entities by name. -/
def lookup (t name : String) (fuzzy : Bool) : m Meaning := do
  planned (checkType x.snapshot t)
  σ.see (.single t)
  pure ⟨(x.lookup t name (LookupMode.of name fuzzy)).set, .single t⟩

/-- The entities of the seen types that satisfy a condition. -/
def comparison (c : Comparison Double) : m Meaning := do
  planned (checkField x.snapshot c.field)
  let all ← everything x σ
  pure (all.filter x c)

/-- The entities that satisfy conditions, of all operands, or of the seen types if there are no
operands. -/
def conjunction (conditions : List (Comparison Double)) (operands : m (List Meaning)) :
    m Meaning := do
  planned (checkConditions x.snapshot conditions)
  match ← operands with
  | [] => do
    let all ← everything x σ
    pure (all.filterAll x conditions)
  | a :: as => pure ((as.foldl Meaning.both a).filterAll x conditions)

/-- The entities of some operand. -/
def disjunction (operands : m (List Meaning)) : m Meaning := do
  match ← operands with
  | [] => planned (.error (.noOperands .or))
  | a :: as => pure (as.foldl Meaning.either a)

/-- The entities of the seen types that are not in the operand. -/
def negation (operand : m Meaning) : m Meaning := do
  let a ← operand
  let all ← everything x σ
  pure (a.outside all)

/-- The entities on the left that relate to some on the right. -/
def arrow (name : Option String) (left right : m Meaning) : m Meaning := do
  let left ← left
  let right ← right
  let bindings ← planned (x.snapshot.bindings name left.types right.types)
  let set ← executed (σ.relate bindings config.executor.relationMinScore left.set right.set)
  pure ⟨set, left.types⟩

/-- The type searched: the one named, or those of the target. -/
def searchedTypes (target : Meaning) : Option String → m TypeSet
  | some t => do
    planned (checkType x.snapshot t)
    σ.see (.single t)
    pure (.single t)
  | none => pure target.types

/-- The entities near to a target. -/
def similarity (distance : Option Double) (topK : Option Nat) (targetType : Option String)
    (target : m Meaning) : m Meaning := do
  let target ← target
  let types ← searchedTypes x σ target targetType
  let distance := distance.getD config.compiler.defaultDistance
  planned (checkDistance distance)
  let found ← executed (x.nearest distance.toSingle topK types.names none target.set)
  pure ⟨found.set, types⟩

/-- The entities that relate to the third operand as the second does to the first. -/
def analogy (targetType : Option String) (a b c : m Meaning) : m Meaning := do
  let a ← a
  let b ← b
  let c ← c
  let t ← planned (analogyType x.snapshot b.types targetType)
  σ.see (.single t)
  let found ← executed (x.analogy t (max config.compiler.analogyTopK 1) a.set b.set c.set)
  pure ⟨found.set, .single t⟩

/-- A selection from the seen types. -/
def optimization (direction : Direction) (objective : Objective Double)
    (constraints : List (Comparison Double)) : m Meaning := do
  planned (objective.terms.forM (checkTerm x.snapshot))
  planned (checkConditions x.snapshot constraints)
  let all ← everything x σ
  let budgets := constraints.filterMap Lowering.budget?
  let filters := constraints.filter fun c => (Lowering.budget? c).isNone
  pure ⟨(x.optimize ⟨direction, objective, filters, budgets⟩ all.set).set, all.types⟩

end

end Evaluation

/-! ## All queries -/

section

variable {m : Type → Type} [Monad m] [MonadLift (Except QueryError) m] (x : Executor)
  (config : EngineConfig) (σ : Strategy m)

open Evaluation

mutual

/-- The meaning of a query from those of its subqueries.  A conjunction sets its comparisons aside,
intersects its other operands, and applies every comparison as a filter. -/
def compute : Query → m Meaning
  | .lookup t name fuzzy => lookup x σ t name fuzzy
  | .relation l name r =>
    arrow x config σ name (σ.subquery l (compute l)) (σ.subquery r (compute r))
  | .logical .and qs => conjunction x σ (qs.filterMap Lowering.comparison?) (computeOthers qs)
  | .logical .or qs => disjunction (computeAll qs)
  | .logical .not [q] => negation x σ (σ.subquery q (compute q))
  | .logical .not qs => planned (.error (.negatedOperands qs.length))
  | .comparison c => comparison x σ c
  | .similar t distance topK targetType =>
    similarity x config σ distance topK targetType (σ.subquery t (compute t))
  | .analogy a b c targetType =>
    analogy x config σ targetType (σ.subquery a (compute a)) (σ.subquery b (compute b))
      (σ.subquery c (compute c))
  | .optimize direction objective constraints => optimization x σ direction objective constraints

/-- The meanings of the queries that are no comparisons. -/
def computeOthers : List Query → m (List Meaning)
  | [] => pure []
  | q :: qs =>
    if (Lowering.comparison? q).isSome then computeOthers qs
    else do
      let a ← σ.subquery q (compute q)
      let as ← computeOthers qs
      pure (a :: as)

/-- The meanings of queries. -/
def computeAll : List Query → m (List Meaning)
  | [] => pure []
  | q :: qs => do
    let a ← σ.subquery q (compute q)
    let as ← computeAll qs
    pure (a :: as)

end

/-- The meaning of a query. -/
def evaluate (q : Query) : m Meaning := σ.subquery q (compute x config σ q)

end

/-- An evaluation with the types seen so far. -/
abbrev Direct := StateT TypeSet (Except QueryError)

/-- Subqueries are evaluated anew wherever they stand. -/
def Strategy.direct (relate : Relating) : Strategy Direct where
  seen := get
  see types := modify fun seen => seen.union types
  subquery _ make := make
  relate := relate

/-- The meaning of a query. -/
def Query.meaning (x : Executor) (config : EngineConfig) (q : Query) : Except QueryError Meaning :=
  (evaluate x config (.direct x.relating) q).run' .empty

end VectorQuery
