/-
# Ranking by score

Whatever is listed by score is listed in the order of `ranksBefore`: the higher score first, equal
scores by ordinal.  Ordinals are unique, so a ranked list has only one order.
-/
import VectorQuery.Number.Quantity

namespace VectorQuery

/-- The score `a` at the ordinal `i` comes no later than the score `b` at the ordinal `j`. -/
def ranksBefore {σ : Type} [Quantity σ] (a : σ) (i : Nat) (b : σ) (j : Nat) : Bool :=
  match Quantity.rank b a with
  | .lt => true
  | .eq => i ≤ j
  | .gt => false

/-- Items ranked by their scores. -/
def rankedBy {α σ : Type} [Quantity σ] (score : α → σ) (ordinal : α → Nat) (items : List α) :
    List α :=
  items.mergeSort fun a b => ranksBefore (score a) (ordinal a) (score b) (ordinal b)

/-- The first `k` items; all when no `k` is given. -/
def atMost {α : Type} (k : Option Nat) (items : List α) : List α :=
  match k with
  | some k => items.take k
  | none => items

/-- An entity, by its ordinal, with a score. -/
structure Hit (σ : Type) where
  ordinal : Nat
  score : σ
  deriving DecidableEq, Repr

/-- Hits ranked by score. -/
def Hit.ranked {σ : Type} [Quantity σ] (hits : List (Hit σ)) : List (Hit σ) :=
  rankedBy Hit.score Hit.ordinal hits

end VectorQuery
