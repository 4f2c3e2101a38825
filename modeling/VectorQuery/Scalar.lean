/-
# Scalars and comparisons

A metadata value of an entity and a literal of a query are the same thing: a truth value, a number
or a text.  Two scalars are ordered only within one kind.
-/
import VectorQuery.Number.Quantity

namespace VectorQuery

/-- A truth value, a number or a text. -/
inductive Scalar (α : Type) where
  | bool (value : Bool)
  | number (value : α)
  | text (value : String)
  deriving BEq, DecidableEq, Repr

namespace Scalar

variable {α : Type}

/-- The number, if it is one. -/
def number? : Scalar α → Option α
  | .number x => some x
  | _ => none

/-- The name of the scalar's kind. -/
def kind : Scalar α → String
  | .bool _ => "bool"
  | .number _ => "number"
  | .text _ => "text"

/-- The scalar as it is shown: texts stand for themselves. -/
def shown [Quantity α] : Scalar α → String
  | .bool b => if b then "true" else "false"
  | .number x => Quantity.text x
  | .text s => s

/-- Order of two scalars of one kind: falsehood before truth, numbers by value, texts by code
points. -/
def compare? [Quantity α] : Scalar α → Scalar α → Option Ordering
  | .bool a, .bool b => some (compare a b)
  | .number a, .number b => Quantity.compare? a b
  | .text a, .text b => some (compare a b)
  | _, _ => none

end Scalar

/-- How a field is compared with a literal. -/
inductive CompareOp where
  | lt
  | le
  | gt
  | ge
  | eq
  | ne
  deriving BEq, DecidableEq, Repr

namespace CompareOp

/-- The operator as it is written. -/
def symbol : CompareOp → String
  | .lt => "<"
  | .le => "<="
  | .gt => ">"
  | .ge => ">="
  | .eq => "=="
  | .ne => "!="

/-- The operator accepts an ordering of the field's value and the literal. -/
def accepts : CompareOp → Ordering → Bool
  | .lt, o => o == .lt
  | .le, o => o != .gt
  | .gt, o => o == .gt
  | .ge, o => o != .lt
  | .eq, o => o == .eq
  | .ne, o => o != .eq

end CompareOp

/-- `field op literal`, a condition on metadata. -/
structure Comparison (α : Type) where
  field : String
  op : CompareOp
  value : Scalar α
  deriving BEq, DecidableEq, Repr

end VectorQuery
