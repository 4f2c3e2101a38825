/-
# Exact quantities

The rational numbers are quantities that are always defined and finite, and whose sums are not
rounded.  Algorithms over `Quantity` run on them too, so a law of exact numbers is a law of the
algorithm itself and not of its rounding.  The instance is scoped: it is there where exact numbers
are meant.
-/
import Mathlib.Algebra.Order.BigOperators.Group.List
import Mathlib.Data.Rat.Cast.Order
import Mathlib.Tactic.Positivity
import Mathlib.Tactic.Ring
import VectorQuery.Proofs.Ranking

namespace VectorQuery.Rational

/-- Rational numbers as quantities. -/
scoped instance exact : Quantity ℚ where
  decideLT a b := inferInstanceAs (Decidable (a < b))
  decideLE a b := inferInstanceAs (Decidable (a ≤ b))
  ofNat n := n
  tolerance := 1 / 10 ^ 9
  isInfinite _ := false
  rank a b := compare a b
  text a := toString a
  signedText a := toString a

@[simp] theorem zero_eq : (Quantity.zero : ℚ) = 0 := rfl

@[simp] theorem one_eq : (Quantity.one : ℚ) = 1 := rfl

@[simp] theorem sum_nil : Quantity.sum ([] : List ℚ) = 0 := rfl

theorem sum_concat (as : List ℚ) (a : ℚ) : Quantity.sum (as ++ [a]) = Quantity.sum as + a :=
  List.foldl_append

/-- The order in which exact numbers are added does not matter. -/
theorem sum_perm {as bs : List ℚ} (h : as.Perm bs) : Quantity.sum as = Quantity.sum bs :=
  h.foldl_eq' (fun a _ b _ c => add_right_comm c a b) _

theorem sum_eq (as : List ℚ) : Quantity.sum as = as.sum := List.sum_eq_foldl.symm

theorem sum_append (as bs : List ℚ) :
    Quantity.sum (as ++ bs) = Quantity.sum as + Quantity.sum bs := by
  rw [sum_eq, sum_eq, sum_eq, List.sum_append]

theorem rankedBy_id : Quantity.RankedBy (id : ℚ → ℚ) := fun _ _ => rfl

theorem tolerance_pos : (0 : ℚ) < Quantity.tolerance := by
  change (0 : ℚ) < 1 / 10 ^ 9
  positivity

theorem magnitude_eq (a : ℚ) : Quantity.magnitude a = |a| := by
  unfold Quantity.magnitude
  rw [zero_eq]
  rcases lt_trichotomy a 0 with h | rfl | h
  · rw [if_pos h, abs_of_neg h]
  · rfl
  · rw [if_neg h.not_gt, if_neg h.not_ge, abs_of_pos h]

theorem greater_eq (a b : ℚ) : Quantity.greater a b = max a b := by
  unfold Quantity.greater Quantity.isDefined
  rw [decide_eq_true (le_refl a), Bool.not_true, Bool.false_or]
  rcases lt_or_ge a b with h | h
  · rw [if_pos (decide_eq_true h), max_eq_right h.le]
  · rw [if_neg (by simpa using h), max_eq_left h]

end VectorQuery.Rational
