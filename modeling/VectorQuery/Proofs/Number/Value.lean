/-
# Exact values of double precision numbers

A finite number stands for a rational one: a sign, a mantissa and a power of two (`Double.exact`).
Counted in units of the least positive number, values without a sign grow with their patterns
(`Double.strictMono_units`), so finite numbers are in the order of their values
(`Double.le_iff_exact`), and the two zeros have one value.  Of two of them the lesser and the greater
are not above and not below both.
-/
import VectorQuery.Proofs.Number.Sum
import VectorQuery.Proofs.Number.Text

namespace VectorQuery

namespace Number

/-- The rational number that a binary number is. -/
def Binary.exact (b : Binary) : ℚ := (if b.negative then -1 else 1) * (b.mantissa * 2 ^ b.exponent)

/-- The rational number that a pattern stands for, if it stands for one. -/
def Reading.exact : Reading → ℚ
  | .finite b => b.exact
  | _ => 0

theorem Reading.exact_unsigned (mantissa : Nat) (exponent : Int) (tight : Bool) :
    (Reading.finite ⟨false, mantissa, exponent, tight⟩).exact = mantissa * 2 ^ exponent :=
  one_mul _

end Number

namespace Double

variable {x y : Double}

/-- The rational number that a finite number stands for. -/
def exact (x : Double) : ℚ := x.reading.exact

/-! ## Units of the least positive number -/

/-- The number of a pattern without a sign, in units of the least positive number. -/
def units (p : Nat) : Nat :=
  if p / 2 ^ 52 = 0 then p % 2 ^ 52 else (2 ^ 52 + p % 2 ^ 52) * 2 ^ (p / 2 ^ 52 - 1)

theorem units_lt (p : Nat) : units p < 2 ^ 52 * 2 ^ (p / 2 ^ 52) := by
  have hfraction : p % 2 ^ 52 < 2 ^ 52 := Nat.mod_lt _ (by positivity)
  unfold units
  split
  · rename_i hleast
    rwa [hleast, pow_zero, Nat.mul_one]
  · rename_i hnormal
    calc (2 ^ 52 + p % 2 ^ 52) * 2 ^ (p / 2 ^ 52 - 1)
        < (2 * 2 ^ 52) * 2 ^ (p / 2 ^ 52 - 1) :=
          Nat.mul_lt_mul_of_pos_right (by omega) (by positivity)
      _ = 2 ^ 52 * 2 ^ (p / 2 ^ 52 - 1 + 1) := by rw [pow_succ]; ring
      _ = 2 ^ 52 * 2 ^ (p / 2 ^ 52) := by rw [Nat.sub_add_cancel (Nat.pos_of_ne_zero hnormal)]

theorem le_units {p : Nat} (h : p / 2 ^ 52 ≠ 0) : 2 ^ 52 * 2 ^ (p / 2 ^ 52 - 1) ≤ units p := by
  rw [units, if_neg h]
  exact Nat.mul_le_mul_right _ (Nat.le_add_right _ _)

/-- Patterns of one binade are in the order of their fractions, and a binade ends where the next
begins. -/
theorem strictMono_units : StrictMono units := by
  intro p q hlt
  have hbinade : p / 2 ^ 52 ≤ q / 2 ^ 52 := Nat.div_le_div_right hlt.le
  rcases Nat.lt_or_eq_of_le hbinade with hbelow | hsame
  · calc units p < 2 ^ 52 * 2 ^ (p / 2 ^ 52) := units_lt p
      _ ≤ 2 ^ 52 * 2 ^ (q / 2 ^ 52 - 1) :=
          Nat.mul_le_mul_left _ (Nat.pow_le_pow_right (by decide) (Nat.le_sub_one_of_lt hbelow))
      _ ≤ units q := le_units (Nat.ne_zero_of_lt hbelow)
  · have hfraction : p % 2 ^ 52 < q % 2 ^ 52 := by omega
    unfold units
    rw [hsame]
    split
    · exact hfraction
    · exact Nat.mul_lt_mul_of_pos_right (Nat.add_lt_add_left hfraction _) (by positivity)

/-! ## Values -/

theorem exact_of_nonneg (h : x.Nonneg) (hf : x.isFinite = true) :
    x.exact = units x.bits.toNat * 2 ^ (-1074 : Int) := by
  have hlt : x.bits.toNat / 2 ^ 52 < 2047 :=
    (Nat.div_lt_iff_lt_mul (by positivity)).2 ((isFinite_iff h).1 hf)
  have hreading : x.reading = .ofFields 52 11 false (x.bits.toNat / 2 ^ 52)
      (x.bits.toNat % 2 ^ 52) := Number.Format.reading_of_lt (f := .double) h
  rw [exact, hreading, Number.Reading.ofFields, if_neg hlt.ne, units]
  by_cases hleast : x.bits.toNat / 2 ^ 52 = 0
  · rw [if_pos hleast, if_pos hleast]
    exact Number.Reading.exact_unsigned ..
  · have hpower : (2 : ℚ) ^ ((-1074 : Int) + (x.bits.toNat / 2 ^ 52 - 1 : Nat)) =
        (2 ^ (x.bits.toNat / 2 ^ 52 - 1) : Nat) * 2 ^ (-1074 : Int) := by
      rw [zpow_add₀ two_ne_zero, zpow_natCast, mul_comm, Nat.cast_pow, Nat.cast_ofNat]
    rw [if_neg hleast, if_neg hleast, Nat.cast_mul, mul_assoc, ← hpower]
    exact Number.Reading.exact_unsigned ..

theorem exact_neg (h : x.Nonneg) (hf : x.isFinite = true) : (-x).exact = -x.exact := by
  obtain ⟨b, hb, -⟩ := exists_reading h hf
  have hsign : b.negative = false := (Number.bounds_of_double h hb).1
  rw [exact, exact, reading_neg h hb, hb, Number.Reading.exact, Number.Reading.exact,
    Number.Binary.exact, Number.Binary.exact, hsign]
  simp

/-- Positions counted in units: patterns without a sign on one side, their opposites on the other. -/
def level : Int → Int
  | .ofNat p => units p
  | .negSucc p => -units (p + 1)

theorem level_neg (p : Nat) : level (-p) = -units p := by
  cases p with
  | zero => rfl
  | succ p => rfl

theorem level_lt_level {a b : Int} (hlt : a < b) : level a < level b := by
  cases a with
  | ofNat p =>
      cases b with
      | ofNat q => exact Int.ofNat_lt.2 (strictMono_units (Int.ofNat_lt.1 hlt))
      | negSucc q =>
          exact absurd hlt (Int.not_lt.2 ((Int.negSucc_lt_zero q).le.trans (Int.natCast_nonneg p)))
  | negSucc p =>
      have hpos : units 0 < units (p + 1) := strictMono_units (Nat.succ_pos p)
      cases b with
      | ofNat q =>
          change -(units (p + 1) : Int) < units q
          omega
      | negSucc q =>
          have hunits : units (q + 1) < units (p + 1) := strictMono_units (by omega)
          change -(units (p + 1) : Int) < -units (q + 1)
          omega

theorem exact_eq (hf : x.isFinite = true) : x.exact = level x.position * 2 ^ (-1074 : Int) := by
  obtain ⟨u, hu, rfl | rfl⟩ := x.eq_or_eq_neg
  · rw [exact_of_nonneg hu hf, position_of_nonneg hu]
    rfl
  · rw [isFinite_neg] at hf
    rw [exact_neg hu hf, exact_of_nonneg hu hf, position_neg hu, level_neg, Int.cast_neg, neg_mul]
    rfl

/-- Finite numbers are in the order of their values. -/
theorem le_iff_exact (hx : x.isFinite = true) (hy : y.isFinite = true) :
    x ≤ y ↔ x.exact ≤ y.exact := by
  have hmono : StrictMono level := fun _ _ => level_lt_level
  rw [exact_eq hx, exact_eq hy, mul_le_mul_iff_left₀ (Number.two_zpow_pos _), Int.cast_le,
    hmono.le_iff_le, le_iff_position, isDefined_of_isFinite hx, isDefined_of_isFinite hy]
  simp

theorem exact_eq_of_le (hx : x.isFinite = true) (hy : y.isFinite = true) (h : x ≤ y) (h' : y ≤ x) :
    x.exact = y.exact :=
  le_antisymm ((le_iff_exact hx hy).1 h) ((le_iff_exact hy hx).1 h')

/-! ## The lesser and the greater -/

theorem le_refl (hx : x.isFinite = true) : x ≤ x :=
  le_of_eq_position (isDefined_of_isFinite hx) (isDefined_of_isFinite hx) rfl

theorem lesser_eq (x y : Double) : Quantity.lesser x y = x ∨ Quantity.lesser x y = y := by
  unfold Quantity.lesser
  split
  · exact .inr rfl
  · exact .inl rfl

theorem lesser_le (hx : x.isFinite = true) (hy : y.isFinite = true) :
    Quantity.lesser x y ≤ x ∧ Quantity.lesser x y ≤ y := by
  have hdefined : Quantity.isDefined x = true := decide_eq_true (le_refl hx)
  unfold Quantity.lesser
  rw [hdefined, Bool.not_true, Bool.false_or]
  split
  · rename_i hlt
    exact ⟨le_of_lt (of_decide_eq_true hlt), le_refl hy⟩
  · rename_i hge
    refine ⟨le_refl hx, le_of_not_lt (isDefined_of_isFinite hy) (isDefined_of_isFinite hx) ?_⟩
    exact fun hlt => hge (decide_eq_true hlt)

theorem greater_eq (x y : Double) : Quantity.greater x y = x ∨ Quantity.greater x y = y := by
  unfold Quantity.greater
  split
  · exact .inr rfl
  · exact .inl rfl

theorem le_greater (hx : x.isFinite = true) (hy : y.isFinite = true) :
    x ≤ Quantity.greater x y ∧ y ≤ Quantity.greater x y := by
  have hdefined : Quantity.isDefined x = true := decide_eq_true (le_refl hx)
  unfold Quantity.greater
  rw [hdefined, Bool.not_true, Bool.false_or]
  split
  · rename_i hlt
    exact ⟨le_of_lt (of_decide_eq_true hlt), le_refl hy⟩
  · rename_i hge
    refine ⟨le_refl hx, le_of_not_lt (isDefined_of_isFinite hx) (isDefined_of_isFinite hy) ?_⟩
    exact fun hlt => hge (decide_eq_true hlt)

end Double

end VectorQuery
