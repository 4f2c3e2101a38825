/-
# Plans

A plan is a list of operations in the order in which they may run.  Each computes a scored set
from the values of variables and binds it to a variable.  `Plan.levels` groups the operations by
the longest chain of operations that they depend on, so the operations of one level do not depend
on each other.
-/
import VectorQuery.Entity.Basic
import VectorQuery.Optimization.Budget
import VectorQuery.Query.Basic
import VectorQuery.Text.Digits

namespace VectorQuery

/-- A variable of a plan.  Plans made from queries number their variables from one. -/
inductive Variable where
  | numbered (n : Nat)
  | named (name : String)
  deriving DecidableEq, Repr

namespace Variable

/-- A variable as it is written. -/
def text : Variable → String
  | .numbered n => "$v" ++ toString n
  | .named name => name

/-- The variable that is written so. -/
def ofText (s : String) : Variable :=
  let numbered := Variable.numbered (Text.decimalValue (s.toList.drop 2))
  if numbered.text = s then numbered else .named s

end Variable

/-- How an operation finds its entities. -/
inductive Access where
  /-- By the key of an entity. -/
  | hash
  /-- By the members of types. -/
  | typeScan
  /-- By a search index of a type. -/
  | searchIndex
  /-- By comparing with every candidate. -/
  | bruteForce
  /-- By metadata alone. -/
  | metadata
  /-- From the values of variables. -/
  | none
  deriving DecidableEq, Repr

namespace Access

/-- All ways, in the order in which advice is listed. -/
def all : List Access := [hash, typeScan, searchIndex, bruteForce, metadata, none]

/-- The access in the text of a plan. -/
def text : Access → String
  | .hash => "hash"
  | .typeScan => "type-scan"
  | .searchIndex => "hnsw"
  | .bruteForce => "brute-force"
  | .metadata => "metadata"
  | .none => "-"

/-- What a plan says about an access it uses. -/
def advice? : Access → Option String
  | .hash => some "Use hash index for exact lookups"
  | .typeScan => some "Use type bitmap index for scans"
  | .searchIndex => some "Use HNSW index for similarity search"
  | .bruteForce => some "Use exact cosine scan for small candidate sets"
  | .metadata => some "Evaluate metadata predicates with field statistics"
  | .none => Option.none

end Access

/-- How a name is looked up. -/
inductive LookupMode where
  /-- The entity of this id. -/
  | exact
  /-- Every entity of the type. -/
  | wildcard
  /-- Entities whose id or display name matches a pattern. -/
  | glob
  /-- Entities whose id or display name is similar. -/
  | fuzzy
  deriving DecidableEq, Repr

/-- The way a name in a query is looked up. -/
def LookupMode.of (name : String) (fuzzy : Bool) : LookupMode :=
  if name = "*" then .wildcard
  else if fuzzy then .fuzzy
  else if name.toList.any fun c => c = '*' || c = '?' then .glob
  else .exact

/-- The relation that joins a type on the left with a type on the right.  A reversed one leads
from the right to the left. -/
structure RelationBinding where
  leftType : String
  rightType : String
  key : RelationKey
  reversed : Bool
  deriving DecidableEq, Repr

/-- What an operation computes from its inputs. -/
inductive Action where
  /-- Entities of a type by name. -/
  | lookup (entityType name : String) (mode : LookupMode)
  /-- All entities of some types, of every type when none is given. -/
  | scan (types : List String)
  /-- The entities of the input that satisfy a condition. -/
  | filter (condition : Comparison Double)
  /-- The entities of the first input that relate to some of the second. -/
  | relate (bindings : List RelationBinding) (minScore : Single)
  /-- The entities near to the first input, of the second if there is one. -/
  | nearest (maxDistance : Single) (topK : Option Nat) (types : List String)
  | and
  | or
  /-- The entities of the second input that are not in the first. -/
  | not
  /-- What relates to the third input as the second does to the first. -/
  | analogy (targetType : String) (topK : Nat)
  /-- A selection from the input that drives an objective within budgets. -/
  | optimize (direction : Direction) (objective : Objective Double)
      (filters : List (Comparison Double)) (budgets : List (Budget Double))
  /-- The input, or the best part of it. -/
  | collect (topK : Option Nat)

/-- One step of a plan. -/
structure Operation where
  action : Action
  inputs : List Variable
  output : Variable
  cost : Double
  rows : Double
  access : Access
  /-- The operation belongs to a branch that is independent of another one. -/
  parallel : Bool

/-- What a plan's result is reported as. -/
inductive Shape where
  | matches
  | recommendation
  deriving DecidableEq, Repr

/-- A plan. -/
structure Plan where
  /-- The canonical form of the query. -/
  query : String
  operations : List Operation
  result : Variable
  shape : Shape
  /-- What was done to make the plan cheaper. -/
  notes : List String
  /-- The types that the result may hold, every type when none is given. -/
  types : List String

namespace Plan

/-- The cost of all operations. -/
def totalCost (p : Plan) : Double := Quantity.sum (p.operations.map (·.cost))

/-- Advice on each way of access that the plan uses. -/
def advice (p : Plan) : List String :=
  (Access.all.filter fun a => p.operations.any (·.access = a)).filterMap Access.advice?

/-- The operation that binds a variable. -/
def operation? (p : Plan) (output : Variable) : Option Operation :=
  p.operations.find? (·.output = output)

/-- The variable that the plan's last operation collects. -/
def root? (p : Plan) : Option Variable := p.operation? p.result >>= fun op => op.inputs.head?

/-- How many operations an operation has to wait for, one after the other. -/
def depthIn (known : List (Variable × Nat)) (op : Operation) : Nat :=
  (op.inputs.filterMap fun v => List.lookup v known).foldl (fun d k => max d (k + 1)) 0

/-- The depth of each operation, given those of variables bound before. -/
def depths : List (Variable × Nat) → List Operation → List Nat
  | _, [] => []
  | known, op :: ops =>
    let d := depthIn known op
    d :: depths ((op.output, d) :: known) ops

/-- The indexes of operations grouped by depth. -/
def levels (p : Plan) : List (List Nat) :=
  let ds := depths [] p.operations
  let count := ds.foldl (fun n d => max n (d + 1)) 0
  (List.range count).map fun d => (List.range ds.length).filter fun i => ds[i]? = some d

end Plan

end VectorQuery
