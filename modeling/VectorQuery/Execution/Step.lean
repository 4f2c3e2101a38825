/-
# Running one operation

An operation computes a scored set from the values of its inputs.  An operation that finds nothing
where something was asked for leaves a note.
-/
import VectorQuery.Execution.RelationScores
import VectorQuery.Name.Glob
import VectorQuery.Name.Match
import VectorQuery.Number.Word
import VectorQuery.Optimization.Basic
import VectorQuery.Store.Search

namespace VectorQuery

/-- A way to predict the vector that relates to `c` as `b` does to `a`. -/
abbrev AnalogySolver := (a b c : Embedding) → Embedding

/-- The prediction `b - a + c`. -/
def offsetAnalogy : AnalogySolver := fun a b c => (b.sub a).add c

/-- What operations are run on and with. -/
structure Executor where
  snapshot : Snapshot
  config : ExecutorConfig
  matcher : NameMatcher
  predict : AnalogySolver

/-- What an operation leaves behind. -/
structure StepResult where
  set : ScoredSet Single
  notes : List String
  warnings : List String
  optimization : Option (Optimization Double)

namespace StepResult

/-- A set and nothing else. -/
def ofSet (set : ScoredSet Single) : StepResult := ⟨set, [], [], none⟩

/-- No entities, and a note that says why. -/
def nothing (note : String) : StepResult := ⟨.empty, [note], [], none⟩

end StepResult

namespace Executor

/-- The better score of an entity's display name and id against a name. -/
def nameScore? (x : Executor) (name : String) (e : Entity Double) : Option Single :=
  match x.matcher e.displayName name, x.matcher e.id name with
  | some a, some b => some (Quantity.greater a b)
  | a, b => a <|> b

/-- The entities of a type that a name stands for, with their scores. -/
def named (x : Executor) (t name : String) : LookupMode → List (Hit Single)
  | .exact => (x.snapshot.ordinal? t name).toList.map (⟨·, 1⟩)
  | .wildcard => (x.snapshot.members t).map (⟨·, 1⟩)
  | .glob =>
    let accepts (s : String) : Bool := Glob.accepts name.toList s.toList
    let found := (x.snapshot.list t).filter fun (_, e) => accepts e.id || accepts e.displayName
    found.map fun (o, _) => ⟨o, 1⟩
  | .fuzzy => (x.snapshot.list t).filterMap fun (o, e) => (x.nameScore? name e).map (⟨o, ·⟩)

/-- Entities of a type by name. -/
def lookup (x : Executor) (t name : String) (mode : LookupMode) : StepResult :=
  match x.named t name mode with
  | [] => .nothing ("not found: " ++ t ++ "(\"" ++ name ++ "\")")
  | hits => .ofSet (.ofList hits)

/-- The entities of a set that satisfy a condition. -/
def filter (x : Executor) (input : ScoredSet Single) (c : Comparison Double) : ScoredSet Single :=
  input.retain fun o => (x.snapshot.entity? o).any c.holds

/-- The entities on the left that relate to some on the right with at least the given score. -/
def relate (x : Executor) (bindings : List RelationBinding) (minScore : Single)
    (left right : ScoredSet Single) : Except ExecutionError StepResult := do
  let scores ← RelationScores.compute x.snapshot bindings left right
  let related := scores.left.toList.filter fun h => minScore ≤ h.score
  let hits := related.map fun h =>
    Hit.mk h.ordinal (Quantity.lesser ((left.score? h.ordinal).getD 1) h.score)
  if hits.isEmpty && !left.isEmpty && !right.isEmpty then
    .ok (.nothing ("no entity relates to the right-hand side with score >= "
      ++ Single.text minScore))
  else .ok (.ofSet (.ofList hits))

/-- The dense embedding of a single target, or the centroid of several. -/
def queryVector (x : Executor) (target : ScoredSet Single) : Except ExecutionError Embedding :=
  match target.members.filterMap fun o => (x.snapshot.entity? o).map (·.dense) with
  | [v] => .ok v
  | vs =>
    match Embedding.centroid? vs with
    | some v => .ok v
    | none => .error (.zeroCentroid target.size)

/-- Failures of a search are failures of the plan. -/
def searched {α : Type} : Except StoreError α → Except ExecutionError α
  | .ok a => .ok a
  | .error e => .error (.search e)

/-- The nearest of the given candidates, or of each type, or of all entities. -/
def hits (x : Executor) (query : Embedding) (maxDistance : Single) (topK : Option Nat)
    (types : List String) :
    Option (ScoredSet Single) → Except ExecutionError (List (Hit Single))
  | some candidates =>
    searched (x.snapshot.nearestAmong query candidates.members topK (some maxDistance))
  | none =>
    if types.isEmpty then
      searched (x.snapshot.nearestAmong query (x.snapshot.ordinals []) topK (some maxDistance))
    else do
      let found ← types.mapM fun t =>
        searched (x.snapshot.nearest query t topK (some maxDistance))
      .ok (atMost topK (Hit.ranked found.flatten))

/-- The entities near to a target. -/
def nearest (x : Executor) (maxDistance : Single) (topK : Option Nat) (types : List String)
    (candidates : Option (ScoredSet Single)) (target : ScoredSet Single) :
    Except ExecutionError StepResult :=
  if target.isEmpty then .ok (.nothing "similarity target matched nothing")
  else do
    let query ← x.queryVector target
    .ok (.ofSet (.ofList (← x.hits query maxDistance topK types candidates)))

/-- The dense embedding of an entity. -/
def vectorOf (x : Executor) (ordinal : Nat) : Except ExecutionError Embedding :=
  match x.snapshot.entity? ordinal with
  | some e => .ok e.dense
  | none => .error (.missingEntity ordinal)

/-- The entities nearest to what the best entities of three sets predict, these three apart. -/
def analogy (x : Executor) (targetType : String) (topK : Nat) (a b c : ScoredSet Single) :
    Except ExecutionError StepResult :=
  match a.best?, b.best?, c.best? with
  | some a, some b, some c => do
    let predicted := x.predict (← x.vectorOf a.ordinal) (← x.vectorOf b.ordinal)
      (← x.vectorOf c.ordinal)
    let given := [a, b, c].map Hit.ordinal
    if 0 < predicted.norm then
      let found ← searched
        (x.snapshot.nearest predicted targetType (some (Number.word (topK + given.length))) none)
      .ok (.ofSet (.ofList ((found.filter fun h => !given.contains h.ordinal).take topK)))
    else .error .zeroPrediction
  | _, _, _ => .ok (.nothing "analogy operand matched nothing")

/-- A selection from a set. -/
def optimize (x : Executor) (r : OptimizationRequest Double) (pool : ScoredSet Single) :
    StepResult :=
  let entities := pool.members.filterMap fun o => (x.snapshot.entity? o).map (o, ·)
  let answer := Optimization.solve x.config.exactThreshold x.config.maxAlternatives r entities
  let score (c : Candidate Double) : Double :=
    match r.direction with
    | .maximize => c.raw
    | .minimize => -c.raw
  { set := .ofList (answer.selected.map fun c => ⟨c.ordinal, (score c).toSingle⟩)
    notes := ["optimize: " ++ answer.solver.name ++ " solver selected "
      ++ toString answer.selected.length ++ " of " ++ toString answer.considered.length
      ++ " candidates"]
    warnings := answer.warnings.map OptimizationWarning.text
    optimization := some answer }

/-- The value of an operation's input. -/
def input (value? : Variable → Option (ScoredSet Single)) (op : Operation) (n : Nat) :
    Except ExecutionError (ScoredSet Single) :=
  match op.inputs[n]? with
  | none => .error (.missingInput op.action.name n)
  | some v =>
    match value? v with
    | some set => .ok set
    | none => .error (.unbound v.text)

/-- Runs an operation; `value?` gives the values of variables. -/
def step (x : Executor) (value? : Variable → Option (ScoredSet Single)) (op : Operation) :
    Except ExecutionError StepResult :=
  let input (n : Nat) := input value? op n
  match op.action with
  | .lookup t name mode => .ok (x.lookup t name mode)
  | .scan types => .ok (.ofSet (.uniform (x.snapshot.ordinals types) 1))
  | .filter c => do .ok (.ofSet (x.filter (← input 0) c))
  | .relate bindings minScore => do x.relate bindings minScore (← input 0) (← input 1)
  | .nearest maxDistance topK types => do
    let candidates ← if op.inputs.length > 1 then (input 1).map some else .ok none
    x.nearest maxDistance topK types candidates (← input 0)
  | .and => do .ok (.ofSet ((← input 0).and (← input 1)))
  | .or => do .ok (.ofSet ((← input 0).or (← input 1)))
  | .not => do .ok (.ofSet ((← input 0).complement (← input 1).members))
  | .analogy t topK => do x.analogy t topK (← input 0) (← input 1) (← input 2)
  | .optimize direction objective filters budgets => do
    .ok (x.optimize ⟨direction, objective, filters, budgets⟩ (← input 0))
  | .collect topK => do
    let set ← input 0
    .ok (.ofSet (match topK with
      | some k => set.top k
      | none => set))

end Executor

end VectorQuery
