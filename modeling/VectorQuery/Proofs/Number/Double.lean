/-
# Signs of double precision numbers

Every number is one without the sign or the opposite of such a one (`Double.eq_or_eq_neg`), so what
depends on the sign is stated for the numbers without it and for their opposites.
-/
import VectorQuery.Number.Quantity

namespace VectorQuery.Double

/-- The pattern has no sign. -/
def Nonneg (x : Double) : Prop := x.bits.toNat < 2 ^ 63

instance (x : Double) : Decidable x.Nonneg := inferInstanceAs (Decidable (_ < _))

theorem ext_toNat {x y : Double} (h : x.bits.toNat = y.bits.toNat) : x = y := by
  cases x
  cases y
  exact congrArg Double.mk (UInt64.toNat_inj.1 h)

theorem neg_bits (x : Double) : (-x).bits = x.bits ^^^ 0x8000000000000000 := rfl

@[simp] theorem neg_neg (x : Double) : -(-x) = x := by
  apply ext_toNat
  rw [neg_bits, neg_bits, UInt64.xor_assoc]
  simp

theorem toNat_signBit : (0x8000000000000000 : UInt64).toNat = 2 ^ 63 := rfl

theorem toNat_neg {x : Double} (h : x.Nonneg) : (-x).bits.toNat = x.bits.toNat + 2 ^ 63 := by
  have hor : x.bits.toNat ^^^ 2 ^ 63 = 2 ^ 63 * 1 + x.bits.toNat := by
    rw [Nat.two_pow_add_eq_or_of_lt h]
    apply Nat.eq_of_testBit_eq
    intro i
    by_cases hi : i = 63
    · subst hi
      simp [Nat.testBit_lt_two_pow h]
    · simp [Nat.testBit_two_pow_of_ne (Ne.symm hi)]
  rw [neg_bits, UInt64.toNat_xor, toNat_signBit, hor]
  omega

/-- A number has no sign, or its opposite has none. -/
theorem eq_or_eq_neg (x : Double) : ∃ y, y.Nonneg ∧ (x = y ∨ x = -y) := by
  by_cases h : x.Nonneg
  · exact ⟨x, h, .inl rfl⟩
  · refine ⟨-x, ?_, .inr (neg_neg x).symm⟩
    have h63 : x.bits.toNat = (x.bits.toNat - 2 ^ 63) + 2 ^ 63 := by
      unfold Nonneg at h
      omega
    have hlt : x.bits.toNat < 2 ^ 64 := x.bits.toNat_lt
    have hy : Nonneg ⟨UInt64.ofNat (x.bits.toNat - 2 ^ 63)⟩ := by
      unfold Nonneg
      rw [UInt64.toNat_ofNat_of_lt' (by simp [UInt64.size]; omega)]
      omega
    have hx : x = -⟨UInt64.ofNat (x.bits.toNat - 2 ^ 63)⟩ := by
      apply ext_toNat
      rw [toNat_neg hy]
      dsimp only
      rw [UInt64.toNat_ofNat_of_lt' (by simp [UInt64.size]; omega)]
      exact h63
    rw [hx, neg_neg]
    exact hy

theorem toNat_unsigned (x : Double) : x.unsigned.toNat = x.bits.toNat % 2 ^ 63 := by
  rw [unsigned, UInt64.toNat_and]
  exact Nat.and_two_pow_sub_one_eq_mod _ 63

@[simp] theorem unsigned_neg (x : Double) : (-x).unsigned = x.unsigned := by
  obtain ⟨y, hy, rfl | rfl⟩ := eq_or_eq_neg x
  · apply UInt64.toNat_inj.1
    rw [toNat_unsigned, toNat_unsigned, toNat_neg hy]
    omega
  · apply UInt64.toNat_inj.1
    rw [neg_neg, toNat_unsigned, toNat_unsigned, toNat_neg hy]
    omega

@[simp] theorem isDefined_neg (x : Double) : (-x).isDefined = x.isDefined := by
  rw [isDefined, unsigned_neg, isDefined]

@[simp] theorem isFinite_neg (x : Double) : (-x).isFinite = x.isFinite := by
  rw [isFinite, unsigned_neg, isFinite]

theorem isDefined_of_isFinite {x : Double} (h : x.isFinite = true) : x.isDefined = true := by
  rw [isFinite, decide_eq_true_eq, UInt64.lt_iff_toNat_lt] at h
  rw [isDefined, decide_eq_true_eq, UInt64.le_iff_toNat_le]
  exact Nat.le_of_lt h

theorem isDefined_iff {x : Double} (h : x.Nonneg) :
    x.isDefined = true ↔ x.bits.toNat ≤ infinity.bits.toNat := by
  rw [isDefined, decide_eq_true_eq, UInt64.le_iff_toNat_le, toNat_unsigned, Nat.mod_eq_of_lt h]

theorem isFinite_iff {x : Double} (h : x.Nonneg) :
    x.isFinite = true ↔ x.bits.toNat < infinity.bits.toNat := by
  rw [isFinite, decide_eq_true_eq, UInt64.lt_iff_toNat_lt, toNat_unsigned, Nat.mod_eq_of_lt h]

theorem isNegative_of_nonneg {x : Double} (h : x.Nonneg) : x.isNegative = false := by
  rw [isNegative, decide_eq_false_iff_not, UInt64.le_iff_toNat_le, toNat_signBit]
  exact Nat.not_le.2 h

theorem isNegative_neg {x : Double} (h : x.Nonneg) : (-x).isNegative = true := by
  rw [isNegative, decide_eq_true_eq, UInt64.le_iff_toNat_le, toNat_signBit, toNat_neg h]
  exact Nat.le_add_left _ _

theorem toNat_place {x : Double} (h : x.Nonneg) : x.place.toNat = 2 ^ 63 + x.bits.toNat := by
  have hor := Nat.two_pow_add_eq_or_of_lt h 1
  rw [place, isNegative_of_nonneg h, if_neg (by simp), UInt64.toNat_or, Nat.or_comm, toNat_signBit]
  rw [Nat.mul_one] at hor
  exact hor.symm

theorem toNat_place_neg {x : Double} (h : x.Nonneg) :
    (-x).place.toNat = 2 ^ 63 - 1 - x.bits.toNat := by
  rw [place, isNegative_neg h, if_pos rfl, UInt64.toNat_not, toNat_neg h, UInt64.size]
  omega

theorem bothZero_iff (x y : Double) :
    bothZero x y = true ↔ x.bits.toNat % 2 ^ 63 = 0 ∧ y.bits.toNat % 2 ^ 63 = 0 := by
  rw [bothZero, Bool.and_eq_true, decide_eq_true_eq, decide_eq_true_eq, ← UInt64.toNat_inj,
    ← UInt64.toNat_inj, toNat_unsigned, toNat_unsigned]
  rfl

theorem lt_iff (x y : Double) : x < y ↔ x.isDefined = true ∧ y.isDefined = true ∧
    ¬ (x.bits.toNat % 2 ^ 63 = 0 ∧ y.bits.toNat % 2 ^ 63 = 0) ∧ x.place.toNat < y.place.toNat := by
  change (x.isDefined && y.isDefined && !bothZero x y && decide (x.place < y.place)) = true ↔ _
  rw [← bothZero_iff, ← UInt64.lt_iff_toNat_lt]
  simp [and_assoc]

theorem le_iff (x y : Double) : x ≤ y ↔ x.isDefined = true ∧ y.isDefined = true ∧
    ((x.bits.toNat % 2 ^ 63 = 0 ∧ y.bits.toNat % 2 ^ 63 = 0) ∨ x.place.toNat ≤ y.place.toNat) := by
  change (x.isDefined && y.isDefined && (bothZero x y || decide (x.place ≤ y.place))) = true ↔ _
  rw [← bothZero_iff, ← UInt64.le_iff_toNat_le]
  simp [and_assoc]

/-- A number that is not negative is not less than one that is not positive. -/
theorem not_lt_of_not_pos {x y : Double} (hx : ¬ x < 0) (hy : ¬ 0 < y) : ¬ x < y := by
  have hzero : (0 : Double).bits.toNat = 0 ∧ (0 : Double).place.toNat = 2 ^ 63 ∧
      (0 : Double).isDefined = true := by decide
  rw [lt_iff, hzero.1, hzero.2.1, hzero.2.2] at hx hy
  rw [lt_iff]
  rintro ⟨hdx, hdy, hzeros, hlt⟩
  simp only [hdx, hdy, true_and, and_true, Nat.zero_mod] at hx hy
  obtain ⟨u, hu, rfl | rfl⟩ := x.eq_or_eq_neg <;> obtain ⟨v, hv, rfl | rfl⟩ := y.eq_or_eq_neg
  all_goals
    simp only [toNat_place, toNat_place_neg, toNat_neg, *] at hx hy hlt hzeros
    unfold Nonneg at hu hv
    omega

/-! ## Magnitudes -/

theorem zero_eq : (Quantity.zero : Double) = ⟨0⟩ := by
  decide

theorem one_eq : (Quantity.one : Double) = ⟨0x3ff0000000000000⟩ := by
  decide

theorem nonneg_zero : Nonneg ⟨0⟩ := by
  decide

theorem nonneg_one : Nonneg ⟨0x3ff0000000000000⟩ := by
  decide

/-- A number without a sign is its own magnitude. -/
theorem magnitude_of_nonneg {x : Double} (h : x.Nonneg) : Quantity.magnitude x = x := by
  have hlt : ¬ x < Quantity.zero := by
    rw [zero_eq, lt_iff, toNat_place h, toNat_place nonneg_zero]
    rintro ⟨-, -, -, hp⟩
    exact absurd hp (Nat.not_lt.2 (Nat.add_le_add_left (Nat.zero_le _) _))
  rw [Quantity.magnitude, if_neg hlt]
  split
  · rename_i hle
    rw [zero_eq, le_iff, toNat_place h, toNat_place nonneg_zero, Nat.mod_eq_of_lt h] at hle
    rw [zero_eq]
    apply ext_toNat
    rcases hle.2.2 with h0 | h0
    · exact h0.1.symm
    · exact (Nat.le_zero.1 (Nat.add_le_add_iff_left.1 h0)).symm
  · rfl

/-- A number with a sign has the opposite as its magnitude. -/
theorem magnitude_neg {x : Double} (h : x.Nonneg) (hd : x.isDefined = true) :
    Quantity.magnitude (-x) = x := by
  rw [Quantity.magnitude]
  split
  · exact neg_neg x
  · rename_i hlt
    have hx : x = ⟨0⟩ := by
      apply ext_toNat
      refine Decidable.byContradiction fun hne => hlt ?_
      rw [zero_eq, lt_iff, toNat_place_neg h, toNat_place nonneg_zero, isDefined_neg, toNat_neg h]
      refine ⟨hd, by decide, ?_, ?_⟩
      · rintro ⟨h0, -⟩
        rw [Nat.add_mod_right, Nat.mod_eq_of_lt h] at h0
        exact hne h0
      · omega
    subst hx
    decide

example : Quantity.magnitude (-(Quantity.one : Double)) = Quantity.one := by
  decide +kernel

/-- Among the numbers without a sign only one compares as equal to one. -/
theorem compare?_one_iff {x : Double} (h : x.Nonneg) :
    Quantity.compare? x Quantity.one = some .eq ↔ x = Quantity.one := by
  constructor
  · intro hc
    unfold Quantity.compare? at hc
    split at hc
    · cases hc
    · rename_i hlt
      split at hc
      · cases hc
      · split at hc
        · rename_i hle
          rw [one_eq, le_iff, toNat_place h, toNat_place nonneg_one] at hle
          rw [one_eq, lt_iff, toNat_place h, toNat_place nonneg_one] at hlt
          have hne : ¬ (x.bits.toNat % 2 ^ 63 = 0 ∧
              (Double.mk 0x3ff0000000000000).bits.toNat % 2 ^ 63 = 0) := by
            rintro ⟨-, h0⟩
            exact absurd h0 (by decide)
          rw [one_eq]
          apply ext_toNat
          have h1 := hle.2.2.resolve_left hne
          have h2 : ¬ 2 ^ 63 + x.bits.toNat
              < 2 ^ 63 + (Double.mk 0x3ff0000000000000).bits.toNat :=
            fun hp => hlt ⟨hle.1, hle.2.1, hne, hp⟩
          omega
        · cases hc
  · rintro rfl
    decide

end VectorQuery.Double
