/-
# Budgets

A budget bounds the total of a numeric field over a selection.  Totals are sums of rounded
numbers, so a budget allows for a small tolerance: an inclusive bound is met a little above the
limit, a strict one only a little below it.
-/
import VectorQuery.Number.Quantity

namespace VectorQuery

/-- `sum(field) ≤ limit`, or `<` for a strict one. -/
structure Budget (α : Type) where
  field : String
  limit : α
  strict : Bool
  deriving DecidableEq, Repr

namespace Budget

variable {α : Type} [Quantity α]

/-- The budget allows a total. -/
def admits (b : Budget α) (total : α) : Bool :=
  if b.strict then total < b.limit - Quantity.tolerance else total ≤ b.limit + Quantity.tolerance

/-- A budget in words. -/
def text (b : Budget α) : String :=
  "sum(" ++ b.field ++ ") " ++ (if b.strict then "<" else "<=") ++ " " ++ Quantity.text b.limit

/-- Budgets allow the weights on top of what is used, each in its own field. -/
def fits (budgets : List (Budget α)) (used weights : List α) : Bool :=
  (budgets.zip (used.zip weights)).all fun (b, u, w) => b.admits (u + w)

/-- Nothing used of any budget. -/
def unused (budgets : List (Budget α)) : List α := budgets.map fun _ => Quantity.zero

/-- Weights in units of the limits, summed over all budgets. -/
def load (budgets : List (Budget α)) (weights : List α) : α :=
  Quantity.sum (List.zipWith (fun b w =>
    w / Quantity.greater (Quantity.magnitude b.limit) Quantity.tolerance) budgets weights)

end Budget

end VectorQuery
