/-
# The order of single precision numbers

Defined numbers are ordered as their patterns are, read with the sign as the sign of an integer
(`Single.le_iff_position`), so the order is total on them and two numbers are equal if neither is
less.  The greater of two defined numbers is one of them and bounds both, and the lesser grows with
either operand; they stand at the greater and the lesser of the two positions.
-/
import VectorQuery.Proofs.Number.Single

namespace VectorQuery.Single

/-! ## Positions -/

/-- The pattern with its sign as the sign of a number. -/
def position (x : Single) : Int :=
  if x.isNegative then -((x.bits.toNat % 2 ^ 31 : Nat) : Int) else (x.bits.toNat % 2 ^ 31 : Nat)

variable {a b c x y : Single}

theorem isNegative_iff (x : Single) : x.isNegative = true ↔ 2 ^ 31 ≤ x.bits.toNat := by
  rw [isNegative, decide_eq_true_eq, UInt32.le_iff_toNat_le]
  exact Iff.rfl

/-- The place and the position of a number with a sign. -/
theorem place_of_negative (h : x.isNegative = true) :
    x.place.toNat = 2 ^ 32 - 1 - x.bits.toNat ∧ x.position = 2 ^ 31 - x.bits.toNat := by
  have hle := (isNegative_iff x).1 h
  have hlt := x.bits.toNat_lt
  rw [place, position, if_pos h, if_pos h, UInt32.toNat_not]
  refine ⟨rfl, ?_⟩
  omega

/-- The place and the position of a number without a sign. -/
theorem place_of_not_negative (h : ¬ x.isNegative = true) :
    x.place.toNat = 2 ^ 31 + x.bits.toNat ∧ x.position = x.bits.toNat := by
  have hlt : x.bits.toNat < 2 ^ 31 := Nat.lt_of_not_le (mt (isNegative_iff x).2 h)
  have hor := Nat.two_pow_add_eq_or_of_lt hlt 1
  rw [Nat.mul_one] at hor
  rw [place, position, if_neg h, if_neg h, UInt32.toNat_or, Nat.or_comm, Nat.mod_eq_of_lt hlt]
  exact ⟨hor.symm, rfl⟩

theorem bothZero_iff (x y : Single) : bothZero x y = true ↔ x.position = 0 ∧ y.position = 0 := by
  have hzero (z : Single) : z.position = 0 ↔ z.bits.toNat % 2 ^ 31 = 0 := by
    rw [position]
    split <;> omega
  rw [bothZero, Bool.and_eq_true, decide_eq_true_eq, decide_eq_true_eq, ← UInt32.toNat_inj,
    ← UInt32.toNat_inj, toNat_unsigned, toNat_unsigned, hzero, hzero]
  exact Iff.rfl

/-- Places are in the order of positions, but for zeros. -/
theorem place_lt_iff (h : ¬ (x.position = 0 ∧ y.position = 0)) :
    x.place.toNat < y.place.toNat ↔ x.position < y.position := by
  have hxlt := x.bits.toNat_lt
  have hylt := y.bits.toNat_lt
  by_cases hxn : x.isNegative = true <;> by_cases hyn : y.isNegative = true
  · obtain ⟨hxp, hxq⟩ := place_of_negative hxn
    obtain ⟨hyp, hyq⟩ := place_of_negative hyn
    rw [hxp, hyp, hxq, hyq]
    omega
  · obtain ⟨hxp, hxq⟩ := place_of_negative hxn
    obtain ⟨hyp, hyq⟩ := place_of_not_negative hyn
    have hle := (isNegative_iff x).1 hxn
    omega
  · obtain ⟨hxp, hxq⟩ := place_of_not_negative hxn
    obtain ⟨hyp, hyq⟩ := place_of_negative hyn
    have hle := (isNegative_iff y).1 hyn
    omega
  · obtain ⟨hxp, hxq⟩ := place_of_not_negative hxn
    obtain ⟨hyp, hyq⟩ := place_of_not_negative hyn
    omega

theorem lt_iff_position (x y : Single) :
    x < y ↔ x.isDefined = true ∧ y.isDefined = true ∧ x.position < y.position := by
  change (x.isDefined && y.isDefined && !bothZero x y && decide (x.place < y.place)) = true ↔ _
  rw [Bool.and_eq_true, Bool.and_eq_true, Bool.and_eq_true, Bool.not_eq_true', decide_eq_true_eq,
    UInt32.lt_iff_toNat_lt, and_assoc, and_assoc]
  refine and_congr_right fun _ => and_congr_right fun _ => ?_
  rw [← Bool.not_eq_true, bothZero_iff]
  constructor
  · rintro ⟨hzeros, hlt⟩
    exact (place_lt_iff hzeros).1 hlt
  · intro hlt
    have hzeros : ¬ (x.position = 0 ∧ y.position = 0) := by omega
    exact ⟨hzeros, (place_lt_iff hzeros).2 hlt⟩

theorem le_iff_position (x y : Single) :
    x ≤ y ↔ x.isDefined = true ∧ y.isDefined = true ∧ x.position ≤ y.position := by
  constructor
  · intro h
    have hdefined : (x.isDefined && y.isDefined && (bothZero x y || decide (x.place ≤ y.place))) =
        true := h
    rw [Bool.and_eq_true, Bool.and_eq_true, Bool.or_eq_true, bothZero_iff, decide_eq_true_eq,
      UInt32.le_iff_toNat_le] at hdefined
    obtain ⟨⟨hx, hy⟩, hle⟩ := hdefined
    refine ⟨hx, hy, Int.not_lt.1 fun hlt => ?_⟩
    have hzeros : ¬ (y.position = 0 ∧ x.position = 0) := by omega
    have hplace := (place_lt_iff hzeros).2 hlt
    omega
  · rintro ⟨hx, hy, hle⟩
    refine le_of_not_lt hy hx fun hlt => ?_
    exact absurd ((lt_iff_position y x).1 hlt).2.2 (Int.not_lt.2 hle)

/-! ## The order -/

theorem le_refl (h : a.isDefined = true) : a ≤ a := le_self_iff.2 h

theorem le_trans (h : a ≤ b) (h' : b ≤ c) : a ≤ c := by
  rw [le_iff_position] at *
  exact ⟨h.1, h'.2.1, Int.le_trans h.2.2 h'.2.2⟩

theorem le_of_lt (h : a < b) : a ≤ b := by
  rw [lt_iff_position] at h
  exact (le_iff_position a b).2 ⟨h.1, h.2.1, Int.le_of_lt h.2.2⟩

theorem lt_of_le_of_lt (h : a ≤ b) (h' : b < c) : a < c := by
  rw [le_iff_position] at h
  rw [lt_iff_position] at *
  exact ⟨h.1, h'.2.1, Int.lt_of_le_of_lt h.2.2 h'.2.2⟩

theorem lt_of_lt_of_le (h : a < b) (h' : b ≤ c) : a < c := by
  rw [le_iff_position] at h'
  rw [lt_iff_position] at *
  exact ⟨h.1, h'.2.1, Int.lt_of_lt_of_le h.2.2 h'.2.2⟩

theorem not_lt_of_le (h : a ≤ b) : ¬ b < a := by
  rw [le_iff_position] at h
  rw [lt_iff_position]
  exact fun hlt => Int.not_lt.2 h.2.2 hlt.2.2

theorem isDefined_left (h : a ≤ b) : a.isDefined = true := ((le_iff_position a b).1 h).1

theorem isDefined_right (h : a ≤ b) : b.isDefined = true := ((le_iff_position a b).1 h).2.1

/-- Nothing is less than minus infinity. -/
theorem eq_of_le_neg_infinity (h : x ≤ -infinity) : x = -infinity := by
  have hinfinity : (-infinity).position = -(255 * 2 ^ 23) ∧
      (-infinity).bits.toNat = 2 ^ 31 + 255 * 2 ^ 23 ∧ infinity.bits.toNat = 255 * 2 ^ 23 := by
    decide
  obtain ⟨hdefined, -, hle⟩ := (le_iff_position x _).1 h
  rw [isDefined, decide_eq_true_eq, UInt32.le_iff_toNat_le, toNat_unsigned, hinfinity.2.2]
    at hdefined
  rw [hinfinity.1] at hle
  have hnegative : x.isNegative = true := by
    by_contra hpositive
    have hposition := (place_of_not_negative hpositive).2
    omega
  have hposition := (place_of_negative hnegative).2
  have hsign := (isNegative_iff x).1 hnegative
  have hbits : x.bits.toNat = (-infinity).bits.toNat := by
    have hlt := x.bits.toNat_lt
    rw [hinfinity.2.1]
    omega
  cases x
  exact congrArg Single.mk (UInt32.toNat_inj.1 hbits)

theorem not_le_neg_infinity (h : 0 < x) : ¬ x ≤ -infinity := by
  intro hle
  rw [eq_of_le_neg_infinity hle] at h
  exact absurd h (by decide)

/-- Two numbers are equal if neither is above the other. -/
theorem beq_iff : (a == b) = true ↔ a ≤ b ∧ b ≤ a := by
  change (decide (a ≤ b) && decide (b ≤ a)) = true ↔ _
  rw [Bool.and_eq_true, decide_eq_true_eq, decide_eq_true_eq]

theorem isDefined_eq (a : Single) : Quantity.isDefined a = a.isDefined :=
  Bool.eq_iff_iff.2 (decide_eq_true_iff.trans le_self_iff)

/-- Numbers with neither above the other compare as equal. -/
theorem compare?_of_le (h : a ≤ b) (h' : b ≤ a) : Quantity.compare? a b = some .eq := by
  rw [Quantity.compare?, if_neg (not_lt_of_le h'), if_neg (not_lt_of_le h), if_pos h]

/-! ## The greater and the lesser -/

theorem greater_eq (ha : a.isDefined = true) :
    Quantity.greater a b = if a < b then b else a := by
  rw [Quantity.greater, isDefined_eq, ha]
  simp

/-- The greater of a number and a greatest of some is a greatest of all. -/
theorem isGreatest_greater {S : Set Single} (h : IsGreatest S a) (hb : b.isDefined = true) :
    IsGreatest {x | x ∈ S ∨ x = b} (Quantity.greater a b) := by
  have ha : a.isDefined = true := isDefined_left (h.2 h.1)
  rw [greater_eq ha]
  split
  · rename_i hlt
    refine ⟨.inr rfl, ?_⟩
    rintro x (hx | rfl)
    · exact le_trans (h.2 hx) (le_of_lt hlt)
    · exact le_refl hb
  · rename_i hle
    refine ⟨.inl h.1, ?_⟩
    rintro x (hx | rfl)
    · exact h.2 hx
    · exact le_of_not_lt ha hb hle

/-- The greater of two numbers stands at the greater of their positions. -/
theorem position_greater (ha : a.isDefined = true) (hb : b.isDefined = true) :
    (Quantity.greater a b).position = max a.position b.position := by
  rw [greater_eq ha]
  split
  · rename_i hlt
    exact (max_eq_right (Int.le_of_lt ((lt_iff_position a b).1 hlt).2.2)).symm
  · rename_i hle
    exact (max_eq_left ((le_iff_position b a).1 (le_of_not_lt ha hb hle)).2.2).symm

theorem lesser_eq (ha : a.isDefined = true) : Quantity.lesser a b = if b < a then b else a := by
  rw [Quantity.lesser, isDefined_eq, ha]
  simp

/-- The lesser of two numbers stands at the lesser of their positions. -/
theorem position_lesser (ha : a.isDefined = true) (hb : b.isDefined = true) :
    (Quantity.lesser a b).position = min a.position b.position := by
  rw [lesser_eq ha]
  split
  · rename_i hlt
    exact (min_eq_right (Int.le_of_lt ((lt_iff_position b a).1 hlt).2.2)).symm
  · rename_i hle
    exact (min_eq_left ((le_iff_position a b).1 (le_of_not_lt hb ha hle)).2.2).symm

theorem lesser_mono (h : b ≤ c) : Quantity.lesser a b ≤ Quantity.lesser a c := by
  have hb := isDefined_left h
  have hc := isDefined_right h
  rw [Quantity.lesser, Quantity.lesser, isDefined_eq]
  cases ha : a.isDefined with
  | false => exact h
  | true =>
      simp only [Bool.not_true, Bool.false_or, decide_eq_true_eq]
      split
      · split
        · exact h
        · exact le_of_lt ‹b < a›
      · split
        · rename_i hba hca
          exact absurd hca (not_lt_of_le (le_trans (le_of_not_lt hb ha hba) h))
        · exact le_refl ha

end VectorQuery.Single
