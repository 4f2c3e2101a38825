/-
# Lowering queries to plans

Operands are lowered before what joins them, so every operation reads variables that are bound
before it. Subqueries with one canonical form share a variable.  The value of a comparison, a
negation or an optimization also depends on the types seen to its left; such a subquery is shared
only where the same types have been seen.  Comparisons of a conjunction run last, the most
selective first; those selective enough run below the first search or arrow instead, where they
cannot change the answer.
-/
import VectorQuery.Plan.Relations
import VectorQuery.Query.Printer

namespace VectorQuery

/-- A part of a plan: a variable with what is known about its value. -/
structure Fragment where
  var : Variable
  types : TypeSet
  /-- How many entities are expected. -/
  rows : Double

/-- A plan under construction. -/
structure Draft where
  operations : List Operation
  /-- The fragments of subqueries, to be used again. -/
  shared : List (String × Fragment)
  /-- The types that subqueries to the left have named. -/
  seen : TypeSet
  notes : List String

/-- Extends a draft, unless the query has no plan. -/
abbrev Lowering := StateT Draft (Except PlanError)

namespace Lowering

/-- The draft without operations. -/
def start : Draft := ⟨[], [], .empty, []⟩

/-- Adds an operation, which binds the next variable. -/
def emit (action : Action) (inputs : List Variable) (cost rows : Double) (access : Access) :
    Lowering Variable := do
  let output := Variable.numbered ((← get).operations.length + 1)
  let rows := Quantity.positivePart rows
  modify fun d =>
    { d with operations := d.operations ++ [⟨action, inputs, output, cost, rows, access, false⟩] }
  pure output

/-- Adds types to those seen. -/
def see (types : TypeSet) : Lowering Unit := modify fun d => { d with seen := d.seen.union types }

/-- Adds a note. -/
def note (text : String) : Lowering Unit := modify fun d => { d with notes := d.notes ++ [text] }

/-! ### Sharing -/

mutual

/-- The value of the query depends on the types seen before it. -/
def readsSeen : Query → Bool
  | .comparison _ | .optimize .. => true
  | .logical op qs => op == .not || anyReadsSeen qs
  | .lookup .. => false
  | .relation l _ r => readsSeen l || readsSeen r
  | .similar t .. => readsSeen t
  | .analogy a b c _ => readsSeen a || readsSeen b || readsSeen c

/-- The value of one of the queries depends on the types seen before it. -/
def anyReadsSeen : List Query → Bool
  | [] => false
  | q :: qs => readsSeen q || anyReadsSeen qs

end

/-- Queries of one key have one value. -/
def sharingKey (q : Query) (seen : TypeSet) : String :=
  if readsSeen q then q.canonical ++ "|" ++ seen.text else q.canonical

/-- The fragment of a query: the one already made for its key, or a new one. -/
def share (q : Query) (make : Lowering Fragment) : Lowering Fragment := do
  let d ← get
  let key := sharingKey q d.seen
  match d.shared.lookup key with
  | some known => do
    note ("shared subtree: `" ++ q.canonical ++ "` reuses " ++ known.var.text)
    see known.types
    pure known
  | none => do
    let made ← make
    modify fun d => { d with shared := (key, made) :: d.shared }
    pure made

/-! ### Branches -/

/-- A fragment with the operations made for it: those from `first` up to `next`. -/
structure Branch where
  first : Nat
  next : Nat
  fragment : Fragment

/-- Makes a fragment and remembers its operations. -/
def branch (make : Lowering Fragment) : Lowering Branch := do
  let first := (← get).operations.length
  let fragment ← make
  pure ⟨first, (← get).operations.length, fragment⟩

/-- Marks the operations of branches, given as ranges, if two of them have any. -/
def markParallel (ranges : List (Nat × Nat)) : Lowering Unit :=
  if (ranges.filter fun (first, next) => first < next).length < 2 then pure ()
  else
    modify fun d =>
      { d with
        operations := d.operations.mapIdx fun i op =>
          if ranges.any fun (first, next) => first ≤ i && i < next then { op with parallel := true }
          else op }

/-- Marks the operations of branches. -/
def markBranches (bs : List Branch) : Lowering Unit :=
  markParallel (bs.map fun b => (b.first, b.next))

/-! ### Names and estimates -/

/-- The type is known. -/
def checkType (s : Snapshot) (name : String) : Lowering Unit :=
  if s.hasType name then pure () else throw (.unknownType name s.typeNames)

/-- The field is known. -/
def checkField (s : Snapshot) (field : String) : Lowering Unit :=
  if isBuiltinField field || s.fields.contains field then pure () else throw (.unknownField field)

/-- How many entities there are of some types. -/
def population (s : Snapshot) (types : TypeSet) : Double :=
  if types.isEmpty then Double.ofNat s.size
  else Double.ofNat (types.names.foldl (fun n t => n + s.typeSize t) 0)

/-- The part of all entities that an operator selects when a part equals the literal. -/
def ofEqual (op : CompareOp) (part : Double) : Double :=
  match op with
  | .eq => part
  | .ne => 1 - part
  | _ => 0.5

/-- The part of all entities that a comparison is expected to select. -/
def selectivity (s : Snapshot) (c : Comparison Double) : Double :=
  let total := Double.ofNat s.size
  if s.size = 0 then 0
  else
    match c.field, c.value with
    | "entity_type", .text t => ofEqual c.op (Double.ofNat (s.typeSize t) / total)
    | "id", _ => ofEqual c.op (1 / total)
    | _, _ => (s.selectivity? c).getD 0

/-- How the nearest of some types are found, and at which cost. -/
def searchAccess (s : Snapshot) (config : EngineConfig) (types : TypeSet) : Access × Double :=
  let n := population s types
  if !types.isEmpty && Double.ofNat config.compiler.indexThreshold < n
      && types.names.all s.isSearchable then
    let oversample := Double.ofNat (max config.executor.indexOversample 1)
    (.searchIndex, (Quantity.greater n 2).log2 * oversample)
  else (.bruteForce, Quantity.greater n 1)

/-! ### Single operations -/

/-- All entities of some types. -/
def scan (s : Snapshot) (types : TypeSet) : Lowering Fragment := do
  let rows := population s types
  let var ← emit (.scan types.names) [] (Quantity.greater rows 1) rows .typeScan
  pure ⟨var, types, rows⟩

/-- The entities that satisfy a condition. -/
def filter (s : Snapshot) (input : Fragment) (c : Comparison Double) : Lowering Fragment := do
  let rows := input.rows * selectivity s c
  let var ← emit (.filter c) [input.var] (Quantity.greater input.rows 1) rows .metadata
  pure ⟨var, input.types, rows⟩

/-- The entities that satisfy conditions, one after the other. -/
def filterAll (s : Snapshot) (input : Fragment) (cs : List (Comparison Double)) :
    Lowering Fragment :=
  cs.foldlM (filter s) input

/-- All entities of the types seen so far. -/
def scanSeen (s : Snapshot) : Lowering Fragment := do scan s (← get).seen

/-- Entities by name. -/
def lookup (s : Snapshot) (t name : String) (fuzzy : Bool) : Lowering Fragment := do
  checkType s t
  see (.single t)
  let n := Double.ofNat (s.typeSize t)
  let least := Quantity.greater n 1
  let mode := LookupMode.of name fuzzy
  let (cost, rows, access) : Double × Double × Access := match mode with
    | .exact => (1, 1, .hash)
    | .wildcard => (least, n, .typeScan)
    | .glob => (least, Quantity.greater (n * 0.1) 1, .typeScan)
    | .fuzzy => (2 * least, Quantity.greater (n * 0.05) 1, .typeScan)
  let rows := Quantity.lesser rows n
  let var ← emit (.lookup t name mode) [] cost rows access
  pure ⟨var, .single t, rows⟩

/-- A comparison that filters nothing but the types seen so far. -/
def bareComparison (s : Snapshot) (c : Comparison Double) : Lowering Fragment := do
  checkField s c.field
  filter s (← scanSeen s) c

/-- The entities of both fragments. -/
def intersect (a b : Fragment) : Lowering Fragment := do
  let rows := Quantity.lesser a.rows b.rows
  let var ← emit .and [a.var, b.var] (Quantity.greater (a.rows + b.rows) 1) rows .none
  pure ⟨var, a.types.both b.types, rows⟩

/-- The entities of either fragment. -/
def unite (a b : Fragment) : Lowering Fragment := do
  let rows := a.rows + b.rows
  let var ← emit .or [a.var, b.var] (Quantity.greater rows 1) rows .none
  pure ⟨var, a.types.either b.types, rows⟩

/-! ### Compound queries -/

/-- The entities of either operand. -/
def disjunction (operands : Lowering (List Branch)) : Lowering Fragment := do
  let bs ← operands
  markBranches bs
  match bs.map Branch.fragment with
  | [] => throw (.noOperands .or)
  | f :: fs => fs.foldlM unite f

/-- The entities of the seen types that are not in the operand. -/
def negation (s : Snapshot) (operand : Lowering Fragment) : Lowering Fragment := do
  let inner ← branch operand
  let all ← branch (scanSeen s)
  markBranches [inner, all]
  let everything := all.fragment
  let rows := Quantity.positivePart (everything.rows - inner.fragment.rows)
  let var ← emit .not [inner.fragment.var, everything.var] (Quantity.greater everything.rows 1) rows
    .none
  pure ⟨var, everything.types, rows⟩

/-- The entities on the left that relate to some on the right; `pushed` restricts the left. -/
def arrow (s : Snapshot) (config : EngineConfig) (name : Option String)
    (pushed : List (Comparison Double)) (left right : Lowering Fragment) : Lowering Fragment := do
  let l ← branch do filterAll s (← left) pushed
  let r ← branch right
  markBranches [l, r]
  let (left, right) := (l.fragment, r.fragment)
  let bindings ← s.bindings name left.types right.types
  let cost := Quantity.greater (Quantity.greater left.rows 1 * Quantity.greater right.rows 1) 1
  let rows := left.rows * 0.5
  let var ← emit (.relate bindings config.executor.relationMinScore) [left.var, right.var] cost rows
    .bruteForce
  pure ⟨var, left.types, rows⟩

/-- The type searched: the one named, which is seen from here on, or those of the target. -/
def searchedTypes (s : Snapshot) (target : Fragment) : Option String → Lowering TypeSet
  | some t => do
    checkType s t
    see (.single t)
    pure (.single t)
  | none => pure target.types

/-- The entities near to a target; `pushed` restricts the candidates. -/
def similarity (s : Snapshot) (config : EngineConfig) (distance : Option Double)
    (topK : Option Nat) (targetType : Option String) (pushed : List (Comparison Double))
    (target : Lowering Fragment) : Lowering Fragment := do
  let target ← target
  let types ← searchedTypes s target targetType
  let distance := distance.getD config.compiler.defaultDistance
  if !(0 ≤ distance && distance ≤ 2) then throw (.distanceRange distance)
  let n := population s types
  let (inputs, access, cost) ← show Lowering (List Variable × Access × Double) from
    if pushed.isEmpty then pure ([target.var], searchAccess s config types)
    else do
      let candidates ← filterAll s (← scan s types) pushed
      pure ([target.var, candidates.var], .bruteForce, Quantity.greater candidates.rows 1)
  let spread := Quantity.lesser (Quantity.greater (n * distance / 2) 1) n
  let rows := match topK with
    | some k => Quantity.lesser spread (Double.ofNat k)
    | none => spread
  let var ← emit (.nearest distance.toSingle topK types.names) inputs cost rows access
  pure ⟨var, types, rows⟩

/-- The type of an analogy's answers: the one named, or the only type of its second term. -/
def analogyType (s : Snapshot) (second : Fragment) : Option String → Lowering String
  | some t => do
    checkType s t
    pure t
  | none =>
    match second.types.names with
    | [t] => pure t
    | _ => throw (.ambiguousTarget (s.possible second.types))

/-- What relates to the third operand as the second does to the first. -/
def analogy (s : Snapshot) (config : EngineConfig) (targetType : Option String)
    (a b c : Lowering Fragment) : Lowering Fragment := do
  let a ← branch a
  let b ← branch b
  let c ← branch c
  markBranches [a, b, c]
  let t ← analogyType s b.fragment targetType
  see (.single t)
  let (access, cost) := searchAccess s config (.single t)
  let topK := max config.compiler.analogyTopK 1
  let rows := Double.ofNat topK
  let var ← emit (.analogy t topK) ([a, b, c].map (·.fragment.var)) cost rows access
  pure ⟨var, .single t, rows⟩

/-- The field of a term is numeric metadata and its weight is finite. -/
def checkTerm (s : Snapshot) (t : Term Double) : Lowering Unit := do
  if isBuiltinField t.field then throw (.builtinObjective t.field)
  checkField s t.field
  if !t.weight.isFinite then throw (.unboundedWeight t.field t.weight)

/-- The budget that a constraint is, if it bounds a metadata field from above by a number. -/
def budget? (c : Comparison Double) : Option (Budget Double) :=
  match c.op, c.value with
  | .le, .number limit => if isBuiltinField c.field then none else some ⟨c.field, limit, false⟩
  | .lt, .number limit => if isBuiltinField c.field then none else some ⟨c.field, limit, true⟩
  | _, _ => none

/-- A selection from the types seen so far. -/
def optimization (s : Snapshot) (config : EngineConfig) (direction : Direction)
    (objective : Objective Double) (constraints : List (Comparison Double)) :
    Lowering Fragment := do
  objective.terms.forM (checkTerm s)
  constraints.forM fun c => checkField s c.field
  let budgets := constraints.filterMap budget?
  let filters := constraints.filter fun c => (budget? c).isNone
  let candidates ← scanSeen s
  let n := candidates.rows
  if !budgets.isEmpty then
    let solver := if n ≤ Double.ofNat config.executor.exactThreshold then "exact" else "greedy"
    note ("optimize: " ++ solver ++ " solver over ~" ++ Double.fixed 0 n ++ " candidates")
  let parts := Double.ofNat (max (objective.terms.length + constraints.length) 1)
  let rows := Quantity.lesser (Quantity.greater (n * 0.5) 1) n
  let var ← emit (.optimize direction objective filters budgets) [candidates.var]
    (Quantity.greater (n * parts) 1) rows .metadata
  pure ⟨var, candidates.types, rows⟩

/-! ### Conjunctions -/

/-- The condition that a query is, if it is a comparison. -/
def comparison? : Query → Option (Comparison Double)
  | .comparison c => some c
  | _ => none

/-- Conditions may run below the root of the query without a change of the answer: below an arrow,
and below a search that does not stop after a number of results. -/
def admitsPushdown : Query → Bool
  | .similar _ _ topK _ => topK.isNone
  | .relation .. => true
  | _ => false

/-- The conditions of a conjunction, the most selective first. -/
def bySelectivity (s : Snapshot) (cs : List (Comparison Double)) : List (Comparison Double) :=
  cs.mergeSort fun a b => Quantity.rank (selectivity s a) (selectivity s b) != .gt

/-- The entities of all operands that satisfy all conditions.  `operands pushed target` lowers the
operands other than comparisons, with `pushed` below the one at `target`. -/
def conjunction (s : Snapshot) (config : EngineConfig) (qs : List Query)
    (operands : List (Comparison Double) → Option Nat → Lowering (List Branch)) :
    Lowering Fragment := do
  let conditions := qs.filterMap comparison?
  conditions.forM fun c => checkField s c.field
  let conditions := bySelectivity s conditions
  let others := qs.filter fun q => (comparison? q).isNone
  if others.isEmpty then filterAll s (← scanSeen s) conditions
  else
    let target := others.findIdx? admitsPushdown
    let selective (c : Comparison Double) : Bool :=
      target.isSome && selectivity s c < config.compiler.pushdownSelectivity
    let (pushed, remaining) := conditions.partition selective
    let below := ((target.bind (others[·]?)).map Query.kind).getD ""
    pushed.forM fun c =>
      note ("predicate pushdown: `" ++ c.canonical ++ "` (selectivity "
        ++ Double.fixed 2 (selectivity s c) ++ ") runs before " ++ below)
    let bs ← operands pushed target
    markBranches bs
    match bs.map Branch.fragment with
    | [] => throw (.noOperands .and)
    | f :: fs => filterAll s (← fs.foldlM intersect f) remaining

/-! ### All queries -/

mutual

/-- Lowers a query, with conditions below its root. -/
def lower (s : Snapshot) (config : EngineConfig) (pushed : List (Comparison Double)) (q : Query) :
    Lowering Fragment :=
  let make : Lowering Fragment := match q with
    | .lookup t name fuzzy => lookup s t name fuzzy
    | .relation l name r =>
      arrow s config name pushed (lower s config [] l) (lower s config [] r)
    | .logical .and qs => conjunction s config qs fun pushed target =>
      conjuncts s config pushed target qs
    | .logical .or qs => disjunction (branches s config qs)
    | .logical .not [q] => negation s (lower s config [] q)
    | .logical .not qs => throw (.negatedOperands qs.length)
    | .comparison c => bareComparison s c
    | .similar t distance topK targetType =>
      similarity s config distance topK targetType pushed (lower s config [] t)
    | .analogy a b c targetType =>
      analogy s config targetType (lower s config [] a) (lower s config [] b)
        (lower s config [] c)
    | .optimize direction objective constraints =>
      optimization s config direction objective constraints
  if pushed.isEmpty then share q make else make

/-- Lowers the queries of a conjunction that are no comparisons. -/
def conjuncts (s : Snapshot) (config : EngineConfig) (pushed : List (Comparison Double))
    (target : Option Nat) : List Query → Lowering (List Branch)
  | [] => pure []
  | q :: qs =>
    if (comparison? q).isSome then conjuncts s config pushed target qs
    else do
      let b ← branch (lower s config (if target = some 0 then pushed else []) q)
      let target := target.bind fun n => if n = 0 then none else some (n - 1)
      let bs ← conjuncts s config pushed target qs
      pure (b :: bs)

/-- Lowers queries one after the other. -/
def branches (s : Snapshot) (config : EngineConfig) : List Query → Lowering (List Branch)
  | [] => pure []
  | q :: qs => do
    let b ← branch (lower s config [] q)
    let bs ← branches s config qs
    pure (b :: bs)

end

/-- Collects a fragment, or the best `limit` entities of it. -/
def collect (limit : Option Nat) (root : Fragment) : Lowering Variable :=
  let rows := match limit with
    | some k => Quantity.lesser root.rows (Double.ofNat k)
    | none => root.rows
  emit (.collect limit) [root.var] (Quantity.greater root.rows 1) rows .none

end Lowering

namespace Plan

/-- What the answer of a query is reported as. -/
def shapeOf : Query → Shape
  | .optimize .. => .recommendation
  | _ => .matches

/-- The plan of a query on a snapshot; the result holds at most `limit` entities. -/
def ofQuery (s : Snapshot) (config : EngineConfig) (q : Query) (limit : Option Nat) :
    Except PlanError Plan := do
  let steps : Lowering (Fragment × Variable) := do
    let root ← Lowering.lower s config [] q
    pure (root, ← Lowering.collect limit root)
  let ((root, result), draft) ← steps.run Lowering.start
  .ok
    { query := q.canonical, operations := draft.operations, result := result, shape := shapeOf q
      notes := draft.notes, types := root.types.names }

end Plan

end VectorQuery
