/-
# Exact quantities that know of a quotient by zero

The rational numbers have a quotient by zero, so a law of them does not say that no such quotient is
formed.  A checked number is a rational number or undefined; a quotient by zero is undefined, and so
is whatever is computed from an undefined number.  An algorithm over `Quantity` that has a defined
result on checked numbers has not divided by zero on the way there, and the result is the exact one.
-/
import VectorQuery.Proofs.Number.Rational

namespace VectorQuery

/-- A rational number, or what is left of a quotient by zero. -/
structure Checked where
  value? : Option ℚ

namespace Checked

/-- A rational number. -/
def of (a : ℚ) : Checked := ⟨some a⟩

/-- An operation on two numbers, if both are defined. -/
def lift₂ (op : ℚ → ℚ → Option ℚ) (a b : Checked) : Checked :=
  ⟨a.value?.bind fun x => b.value?.bind fun y => op x y⟩

/-- A relation of two defined numbers. -/
def both (r : ℚ → ℚ → Bool) (a b : Checked) : Bool :=
  a.value?.any fun x => b.value?.any fun y => r x y

instance : Add Checked := ⟨lift₂ fun x y => some (x + y)⟩

instance : Sub Checked := ⟨lift₂ fun x y => some (x - y)⟩

instance : Mul Checked := ⟨lift₂ fun x y => some (x * y)⟩

instance : Div Checked := ⟨lift₂ fun x y => if y = 0 then none else some (x / y)⟩

instance : Neg Checked := ⟨fun a => ⟨a.value?.map (-·)⟩⟩

instance : LT Checked := ⟨fun a b => both (fun x y => x < y) a b = true⟩

instance : LE Checked := ⟨fun a b => both (fun x y => x ≤ y) a b = true⟩

instance : Quantity Checked where
  decideLT _ _ := inferInstanceAs (Decidable (_ = true))
  decideLE _ _ := inferInstanceAs (Decidable (_ = true))
  ofNat n := of n
  tolerance := of (1 / 10 ^ 9)
  isInfinite _ := false
  rank a b := compare a.value? b.value?
  text a := a.value?.elim "NaN" toString
  signedText a := a.value?.elim "NaN" toString

theorem of_sub (a b : ℚ) : of a - of b = of (a - b) := rfl

theorem of_mul (a b : ℚ) : of a * of b = of (a * b) := rfl

theorem of_div (a b : ℚ) : of a / of b = if b = 0 then ⟨none⟩ else of (a / b) :=
  apply_ite Checked.mk _ _ _

theorem of_lt_iff (a b : ℚ) : of a < of b ↔ a < b := decide_eq_true_iff

theorem of_le_iff (a b : ℚ) : of a ≤ of b ↔ a ≤ b := decide_eq_true_iff

open scoped Rational

theorem of_clamp (low high a : ℚ) :
    Quantity.clamp (of low) (of high) (of a) = of (Quantity.clamp low high a) := by
  unfold Quantity.clamp
  rw [apply_ite of, apply_ite of]
  simp only [of_lt_iff]

end Checked

end VectorQuery
