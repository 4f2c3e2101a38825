/-
# Alternatives to a selection

A candidate that was not selected either still fits beside the selection, or it could take the
place of a selected one, or it fits in no way.
-/
import VectorQuery.Optimization.Candidate

namespace VectorQuery

/-- What selecting a candidate as well would mean. -/
inductive TradeOff (α : Type) where
  /-- It fits beside the selection. -/
  | alongside (gain : α)
  /-- It fits in the place of a selected candidate. -/
  | swap (selected : Candidate α) (change : α)
  | unfit

variable {α : Type} [Quantity α]

/-- A trade-off in words. -/
def TradeOff.text : TradeOff α → String
  | .alongside gain =>
    "fits alongside the selection: objective " ++ Quantity.signedText gain
  | .swap selected change =>
    "swap for " ++ selected.entity.key.text ++ ": objective " ++ Quantity.signedText change
  | .unfit => "does not fit the budgets, even as a swap"

/-- A candidate that was not selected. -/
structure Alternative (α : Type) where
  candidate : Candidate α
  tradeOff : TradeOff α

namespace Alternative

/-- The selected candidates whose place a candidate could take, with the change of the objective. -/
def swaps (budgets : List (Budget α)) (used : List α) (picked : List (Candidate α))
    (c : Candidate α) : List (Candidate α × α) :=
  (picked.filter fun p => c.fits budgets (List.zipWith (· - ·) used p.weights)).map fun p =>
    (p, c.score - p.score)

/-- What selecting the candidate as well would mean; of several swaps the most gainful counts. -/
def judge (budgets : List (Budget α)) (used : List α) (picked : List (Candidate α))
    (c : Candidate α) : TradeOff α :=
  if c.fits budgets used then .alongside c.score
  else
    match (rankedBy (·.2) (·.1.ordinal) (swaps budgets used picked c)).head? with
    | some (p, change) => .swap p change
    | none => .unfit

/-- The best `most` candidates that were not selected. -/
def list (most : Nat) (budgets : List (Budget α)) (picked cs : List (Candidate α)) :
    List (Alternative α) :=
  let rest := cs.filter fun c => picked.all (·.ordinal ≠ c.ordinal)
  ((Candidate.ranked rest).take most).map fun c =>
    ⟨c, judge budgets (Candidate.used budgets picked) picked c⟩

end Alternative

end VectorQuery
