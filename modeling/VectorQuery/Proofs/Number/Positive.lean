/-
# Sums of positive numbers

Positive numbers may overflow as they are added, but a sum of two of them is not less than either
(`Double.le_add_of_pos`), be it infinite.  Taken from zero, a positive number leaves one of the same
magnitude (`Double.le_magnitude_zero_sub`).
-/
import VectorQuery.Proofs.Number.Sum

namespace VectorQuery.Double

open Float.Model (Format)
open Float.Model.UnpackedFloat
open Float.Model (UnpackedFloat)

variable {x y z : Double}

/-! ## The order of numbers and their opposites -/

theorem position_zero : (Quantity.zero : Double).position = 0 := by
  rw [zero_eq]
  rfl

theorem isDefined_zero : (Quantity.zero : Double).isDefined = true := by
  rw [zero_eq]
  rfl

/-- The position of the opposite is the opposite position. -/
theorem position_opposite (x : Double) : (-x).position = -x.position := by
  obtain ⟨u, hu, rfl | rfl⟩ := x.eq_or_eq_neg
  · rw [position_neg hu, position_of_nonneg hu]
  · rw [neg_neg, position_neg hu, position_of_nonneg hu, Int.neg_neg]

theorem lt_trans (h : x < y) (h' : y < z) : x < z := lt_of_le_of_lt (le_of_lt h) h'

theorem lt_of_lt_of_le (h : x < y) (h' : y ≤ z) : x < z := by
  rw [le_iff_position] at h'
  rw [lt_iff_position] at *
  exact ⟨h.1, h'.2.1, Int.lt_of_lt_of_le h.2.2 h'.2.2⟩

theorem not_le_of_lt (h : x < y) : ¬ y ≤ x := by
  rw [lt_iff_position] at h
  rw [le_iff_position]
  exact fun h' => absurd h'.2.2 (Int.not_le.2 h.2.2)

theorem not_lt_of_le (h : x ≤ y) : ¬ y < x := fun h' => not_le_of_lt h' h

/-- What is greater than zero has a positive position. -/
theorem pos_iff : Quantity.zero < x ↔ x.isDefined = true ∧ 0 < x.position := by
  rw [lt_iff_position, position_zero]
  exact and_iff_right isDefined_zero

theorem nonneg_of_pos (h : Quantity.zero < x) : x.Nonneg := by
  obtain ⟨u, hu, rfl | rfl⟩ := x.eq_or_eq_neg
  · exact hu
  · have hpos := (pos_iff.1 h).2
    rw [position_neg hu] at hpos
    omega

theorem Nonneg.isFinite_or_eq_infinity (h : x.Nonneg) (hdefined : x.isDefined = true) :
    x.isFinite = true ∨ x = infinity := by
  rw [isDefined_iff h] at hdefined
  rw [isFinite_iff h]
  rcases Nat.lt_or_eq_of_le hdefined with hlt | heq
  · exact .inl hlt
  · exact .inr (ext_toNat heq)

theorem isFinite_or_eq_infinity (h : Quantity.zero < x) : x.isFinite = true ∨ x = infinity :=
  (nonneg_of_pos h).isFinite_or_eq_infinity (pos_iff.1 h).1

theorem le_infinity (h : Quantity.zero < x) : x ≤ infinity := by
  rcases isFinite_or_eq_infinity h with hx | rfl
  · rw [le_iff_position, position_of_nonneg (nonneg_of_pos h), position_of_nonneg (by decide)]
    exact ⟨isDefined_of_isFinite hx, by decide,
      Int.ofNat_le.2 (Nat.le_of_lt ((isFinite_iff (nonneg_of_pos h)).1 hx))⟩
  · decide

/-! ## Sums -/

theorem infinity_add (hy : y.isFinite = true) : infinity + y = infinity := by
  have hparts := parts_of_isFinite hy
  have hadd : UnpackedFloat.add Format.binary64 (.infinity .positive)
      (unpack Format.binary64 y.bits.toBitVec) = .infinity .positive := by
    generalize unpack Format.binary64 y.bits.toBitVec = v at hparts
    cases hparts with
    | zero s h => rfl
    | finite s m e hm hcanonical h => rfl
  rw [add_parts (by decide) (isDefined_of_isFinite hy), hparts.pack_eq]
  change ofResult (.ofModel (.pack (UnpackedFloat.add _ (.infinity .positive) _))) = _
  rw [hadd]
  rfl

theorem add_infinity (hx : x.isFinite = true) : x + infinity = infinity := by
  have hparts := parts_of_isFinite hx
  have hadd : UnpackedFloat.add Format.binary64 (unpack Format.binary64 x.bits.toBitVec)
      (.infinity .positive) = .infinity .positive := by
    generalize unpack Format.binary64 x.bits.toBitVec = u at hparts
    cases hparts with
    | zero s h => rfl
    | finite s m e hm hcanonical h => rfl
  rw [add_parts (isDefined_of_isFinite hx) (by decide), hparts.pack_eq]
  change ofResult (.ofModel (.pack (UnpackedFloat.add _ _ (.infinity .positive)))) = _
  rw [hadd]
  rfl

/-- A sum of positive numbers is not less than the first. -/
theorem le_add_of_pos (hx : Quantity.zero < x) (hy : Quantity.zero < y) : x ≤ x + y := by
  rcases isFinite_or_eq_infinity hx with hfinite | rfl
  · rcases isFinite_or_eq_infinity hy with hfinite' | rfl
    · exact le_add hfinite hfinite' (nonneg_of_pos hy)
    · rw [add_infinity hfinite]
      exact le_infinity hx
  · rcases isFinite_or_eq_infinity hy with hfinite' | rfl
    · rw [infinity_add hfinite']
      exact le_infinity hx
    · exact le_infinity hx

/-- Added to zero, a positive number becomes no less. -/
theorem le_zero_add (hx : Quantity.zero < x) : x ≤ Quantity.zero + x := by
  rcases isFinite_or_eq_infinity hx with hfinite | rfl
  · obtain ⟨hdefined, hposition⟩ := position_zero_add hfinite
    exact le_of_eq_position (isDefined_of_isFinite hfinite) hdefined hposition.symm
  · rw [add_infinity (by rw [zero_eq]; decide)]
    exact le_infinity hx

/-! ## Differences -/

/-- Taken from zero, a finite number leaves one of the opposite position. -/
theorem position_zero_sub (hx : x.isFinite = true) :
    (Quantity.zero - x).isDefined = true ∧ (Quantity.zero - x).position = -x.position := by
  have hparts := parts_of_isFinite hx
  rw [zero_eq, sub_eq (by decide) (isDefined_of_isFinite hx), hparts.pack_eq]
  change (ofResult (.ofModel (.pack (UnpackedFloat.sub _ (.zero .positive) _)))).isDefined = true ∧
    (ofResult (.ofModel (.pack (UnpackedFloat.sub _ (.zero .positive) _)))).position = _
  generalize unpack Format.binary64 x.bits.toBitVec = u at hparts
  cases hparts with
  | zero s h =>
      rw [(Parts.zero s h).position_eq_zero]
      cases s <;> exact position_ofResult_zero .positive
  | finite s m e hm hcanonical h =>
      obtain ⟨hdefined, hposition⟩ :=
        position_ofResult (toNat_pack_canonical hcanonical (-s) hm) (patternOf_le m e)
      refine ⟨hdefined, hposition.trans ?_⟩
      rw [(position_of_toNat h (patternOf_le m e)).2]
      cases s with
      | positive => rfl
      | negative => exact (Int.neg_neg _).symm

/-- Taken from zero, a positive number leaves one of no less magnitude. -/
theorem le_magnitude_zero_sub (hx : Quantity.zero < x) :
    x ≤ Quantity.magnitude (Quantity.zero - x) := by
  rcases isFinite_or_eq_infinity hx with hfinite | rfl
  · obtain ⟨hdefined, hposition⟩ := position_zero_sub hfinite
    have hnegative : Quantity.zero - x < Quantity.zero := by
      rw [lt_iff_position, hposition, position_zero]
      exact ⟨hdefined, isDefined_zero, Int.neg_neg_of_pos (pos_iff.1 hx).2⟩
    rw [Quantity.magnitude, if_pos hnegative]
    refine le_of_eq_position (isDefined_of_isFinite hfinite) ?_ ?_
    · rwa [isDefined_neg]
    · rw [position_opposite, hposition, Int.neg_neg]
  · decide

end VectorQuery.Double
