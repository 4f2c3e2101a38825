/-
# The sign of zero

Zero has two signs that the order of numbers does not tell apart but the ranking of scores does.  A
sum has the sign only if both summands do (`Double.add_ne_opposite_zero`), and no sum of numbers is
rounded to zero, so what is added up from zero is never the zero with the sign.  Multiplying by one
and by minus one is exact (`Double.one_mul`, `Double.neg_one_mul`).
-/
import VectorQuery.Proofs.Number.Positive

namespace VectorQuery.Double

open Float.Model (Format)
open Float.Model.UnpackedFloat
open Float.Model (UnpackedFloat totalExponent)

variable {x y : Double}

theorem opposite_zero_eq : (-Quantity.zero : Double) = ⟨0x8000000000000000⟩ := by
  rw [zero_eq]
  decide

/-! ## Undefined results -/

theorem quiet_and (x : Double) : x.quiet.bits &&& 0x0008000000000000 = 0x0008000000000000 := by
  unfold quiet
  apply UInt64.toNat_inj.1
  apply Nat.eq_of_testBit_eq
  intro i
  simp only [UInt64.toNat_and, UInt64.toNat_or, Nat.testBit_and, Nat.testBit_or]
  cases (0x0008000000000000 : UInt64).toNat.testBit i <;> simp

theorem quiet_ne (x : Double) (hy : y.bits &&& 0x0008000000000000 ≠ 0x0008000000000000) :
    x.quiet ≠ y := by
  rintro rfl
  exact hy x.quiet_and

theorem quiet_ne_zero (x : Double) : x.quiet ≠ Quantity.zero := by
  refine quiet_ne x ?_
  rw [zero_eq]
  decide

theorem quiet_ne_opposite_zero (x : Double) : x.quiet ≠ -Quantity.zero := by
  refine quiet_ne x ?_
  rw [opposite_zero_eq]
  decide

/-- What is done with an undefined number leaves it undefined. -/
theorem lift₂_of_undefined {op : Float → Float → Float} (hx : x.isDefined = true)
    (hy : ¬ y.isDefined = true) : lift₂ op x y = y.quiet := by
  unfold lift₂
  rw [if_pos hx, if_neg hy]

/-! ## Numbers and their parts -/

theorem isFinite_or_infinite (h : x.isDefined = true) :
    x.isFinite = true ∨ x = infinity ∨ x = -infinity := by
  obtain ⟨u, hu, rfl | rfl⟩ := x.eq_or_eq_neg
  · exact (hu.isFinite_or_eq_infinity h).imp_right .inl
  · rw [isDefined_neg] at h
    rw [isFinite_neg]
    exact (hu.isFinite_or_eq_infinity h).imp_right fun heq => .inr (congrArg _ heq)

/-- The parts of a number make up its pattern. -/
theorem pack_parts (h : x.isDefined = true) :
    pack Format.binary64 (unpack Format.binary64 x.bits.toBitVec) = x.bits.toBitVec := by
  rcases isFinite_or_infinite h with hfinite | rfl | rfl
  · exact (parts_of_isFinite hfinite).pack_eq
  · rfl
  · rfl

theorem mul_eq (hx : x.isDefined = true) (hy : y.isDefined = true) :
    x * y = ofResult (.ofModel (.pack (UnpackedFloat.mul Format.binary64
      (unpack Format.binary64 x.bits.toBitVec) (unpack Format.binary64 y.bits.toBitVec)))) := by
  have hmul : x * y = ofResult (.ofModel (.pack (UnpackedFloat.mul Format.binary64
      (unpack Format.binary64 (pack Format.binary64 (unpack Format.binary64 x.bits.toBitVec)))
      (unpack Format.binary64 (pack Format.binary64 (unpack Format.binary64 y.bits.toBitVec)))))) := by
    change lift₂ (· * ·) x y = _
    unfold lift₂
    rw [if_pos hx, if_pos hy]
    rfl
  rw [hmul, pack_parts hx, pack_parts hy]

theorem ofResult_of_toNat {u : UnpackedFloat} (hy : y.isDefined = true)
    (h : (pack Format.binary64 u).toNat = y.bits.toNat) : ofResult (.ofModel (.pack u)) = y := by
  have hmod : (pack Format.binary64 u).toNat % 2 ^ 63 ≤ 2047 * 2 ^ 52 := by
    rw [isDefined, decide_eq_true_eq, UInt64.le_iff_toNat_le, toNat_unsigned] at hy
    rwa [h]
  have hnan : (Float.ofModel (.pack u)).isNaN = false := isNaN_unpack hmod
  unfold ofResult
  rw [hnan, if_neg Bool.false_ne_true]
  exact ext_toNat h

/-! ## Products with one -/

/-- The opposite has the opposite sign. -/
theorem toNat_opposite {s : Sign} {p : Nat} (hp : p < 2 ^ 63)
    (h : x.bits.toNat = s.toBitVec.toNat * 2 ^ 63 + p) :
    (-x).bits.toNat = (-s).toBitVec.toNat * 2 ^ 63 + p := by
  cases s with
  | positive =>
      rw [toNat_positive] at h
      have hnonneg : x.Nonneg := by
        unfold Nonneg
        omega
      rw [toNat_neg hnonneg, h]
      change _ = 1 * 2 ^ 63 + p
      omega
  | negative =>
      obtain ⟨u, hu, rfl | rfl⟩ := x.eq_or_eq_neg
      · rw [toNat_negative] at h
        unfold Nonneg at hu
        omega
      · rw [toNat_neg hu, toNat_negative] at h
        rw [neg_neg]
        change _ = 0 * 2 ^ 63 + p
        omega

theorem round_of_le {s : Sign} {m : Nat} {e : Int} (h : e ≤ (m.log2 : Int) + e - 52) :
    round Format.binary64 s m e = roundWithAccuracy Format.binary64 s m e .exact := by
  have hzero : (e - Format.binary64.targetExponent (totalExponent m e)).toNat = 0 := by
    change (e - max ((m.log2 : Int) + 1 + e - 53) (-1074)).toNat = 0
    omega
  unfold UnpackedFloat.round decreaseExponent
  dsimp only
  rw [hzero, Nat.shiftLeft_zero, Int.natCast_zero, Int.sub_zero]

/-- A product with one, of either sign, needs no rounding. -/
theorem toNat_pack_mul_one {u : UnpackedFloat} (s : Sign) (h : Parts x u) :
    ∃ s' p, p ≤ 2047 * 2 ^ 52 ∧ x.bits.toNat = s'.toBitVec.toNat * 2 ^ 63 + p ∧
      (pack Format.binary64 (UnpackedFloat.mul Format.binary64
        (.finite s (2 ^ 52) (-52) (by decide)) u)).toNat = (s * s').toBitVec.toNat * 2 ^ 63 + p := by
  cases h with
  | zero s' h =>
      exact ⟨s', 0, Nat.zero_le _, h.trans (Nat.add_zero _).symm,
        (pack_zero (s * s')).trans (Nat.add_zero _).symm⟩
  | finite s' m e hm hcanonical h =>
      have hm' : 0 < 2 ^ 52 * m := Nat.mul_pos (Nat.two_pow_pos 52) hm
      obtain ⟨q, t, hrounds, hpack⟩ := exists_rounds hm' (-52 + e)
      have hexponent : (e - (-52 + e)).toNat = 52 := by omega
      have hexact : m * 2 ^ (e - (-52 + e)).toNat = 2 ^ 52 * m := by rw [hexponent, Nat.mul_comm]
      have hle := hrounds.le_patternOf hm hcanonical (by omega) (Nat.le_of_eq hexact)
      have hge := hrounds.patternOf_le hm' hcanonical (by omega) (Nat.le_of_eq hexact.symm)
      refine ⟨s', patternOf m e, patternOf_le m e, h, ?_⟩
      have hlog : 52 ≤ (2 ^ 52 * m).log2 :=
        (Nat.le_log2 (Nat.ne_of_gt hm')).2 (Nat.le_mul_of_pos_right _ hm)
      rw [Nat.le_antisymm hle hge, ← hpack (s * s'), round_of_le (by omega)]
      rfl

theorem one_mul (hx : x.isDefined = true) : Quantity.one * x = x := by
  rw [one_eq]
  rcases isFinite_or_infinite hx with hfinite | rfl | rfl
  · obtain ⟨s, p, -, hbits, hpack⟩ := toNat_pack_mul_one .positive (parts_of_isFinite hfinite)
    rw [mul_eq (by decide) hx]
    refine ofResult_of_toNat hx (Eq.trans hpack (Eq.trans ?_ hbits.symm))
    cases s <;> rfl
  · decide
  · decide

theorem neg_one_mul (hx : x.isDefined = true) : -Quantity.one * x = -x := by
  have hneg : (-x).isDefined = true := (isDefined_neg x).trans hx
  rw [one_eq]
  rcases isFinite_or_infinite hx with hfinite | rfl | rfl
  · obtain ⟨s, p, hp, hbits, hpack⟩ := toNat_pack_mul_one .negative (parts_of_isFinite hfinite)
    rw [mul_eq (by decide) hx]
    refine ofResult_of_toNat hneg (Eq.trans hpack (Eq.trans ?_ (toNat_opposite (by omega) hbits).symm))
    cases s <;> rfl
  · decide
  · decide

/-! ## Sums that are zero -/

/-- A number above the least one is not rounded to zero. -/
theorem Rounds.pos {m q : Nat} {e t : Int} (h : Rounds m e q t) (hm : 0 < m) (he : -1074 ≤ e) :
    0 < q := by
  have ht := h.exponent
  by_cases hnormal : -1074 < t
  · exact Nat.lt_of_lt_of_le (Nat.two_pow_pos 52) (h.normal hm hnormal)
  · have hzero : (t - e).toNat = 0 := by omega
    have hfloor := h.floor_le
    rw [hzero, Nat.pow_zero, Nat.div_one] at hfloor
    exact Nat.lt_of_lt_of_le (Nat.mul_pos hm (Nat.two_pow_pos _)) hfloor

theorem patternOf_pos {m : Nat} (hm : 0 < m) (e : Int) : 0 < patternOf m e := by
  unfold patternOf
  omega

/-- The result is not the zero with the sign. -/
def NotOppositeZero (u : UnpackedFloat) : Prop := (pack Format.binary64 u).toNat ≠ 2 ^ 63

theorem notOppositeZero_zero : NotOppositeZero (.zero .positive) := by
  unfold NotOppositeZero
  rw [pack_zero]
  decide

theorem notOppositeZero_round {m : Nat} {e : Int} (s : Sign) (hm : 0 < m) (he : -1074 ≤ e) :
    NotOppositeZero (round Format.binary64 s m e) := by
  obtain ⟨q, t, hrounds, hpack⟩ := exists_rounds hm e
  have hpos := patternOf_pos (hrounds.pos hm he) t
  have hle := patternOf_le q t
  unfold NotOppositeZero
  rw [hpack]
  cases s with
  | positive =>
      rw [toNat_positive]
      omega
  | negative =>
      rw [toNat_negative]
      omega

theorem notOppositeZero_normalize (n : Int) {e : Int} (he : -1074 ≤ e) :
    NotOppositeZero (normalize Format.binary64 n e .positive) := by
  rcases Int.lt_trichotomy n 0 with hnegative | rfl | hpositive
  · rw [normalize_of_neg hnegative]
    exact notOppositeZero_round _ (by omega) he
  · rw [normalize_zero]
    exact notOppositeZero_zero
  · rw [normalize_of_pos hpositive]
    exact notOppositeZero_round _ (by omega) he

theorem notOppositeZero_undefined : NotOppositeZero .notANumber := by
  unfold NotOppositeZero
  decide

theorem notOppositeZero_infinity (s : Sign) : NotOppositeZero (.infinity s) := by
  unfold NotOppositeZero
  cases s <;> decide

theorem Parts.notOppositeZero {u : UnpackedFloat} (h : Parts x u) (hx : x ≠ -Quantity.zero) :
    NotOppositeZero u := by
  unfold NotOppositeZero
  rw [h.pack_eq]
  intro hbits
  rw [opposite_zero_eq] at hx
  exact hx (ext_toNat hbits)

theorem Parts.finite_ne {s : Sign} {m : Nat} {e : Int} {hm : 0 < m} (h : Parts x (.finite s m e hm)) :
    x ≠ -Quantity.zero := by
  rw [opposite_zero_eq]
  rintro rfl
  cases h with
  | finite _ _ _ _ _ h =>
      have hpos := patternOf_pos hm e
      have hle := patternOf_le m e
      change 2 ^ 63 = _ at h
      cases s with
      | positive =>
          rw [toNat_positive] at h
          omega
      | negative =>
          rw [toNat_negative] at h
          omega

theorem unpack_cases (h : x.isDefined = true) :
    (∃ s, unpack Format.binary64 x.bits.toBitVec = .infinity s) ∨
      Parts x (unpack Format.binary64 x.bits.toBitVec) := by
  rcases isFinite_or_infinite h with hfinite | rfl | rfl
  · exact .inr (parts_of_isFinite hfinite)
  · exact .inl ⟨.positive, rfl⟩
  · exact .inl ⟨.negative, rfl⟩

theorem notOppositeZero_infinity_add (s : Sign) (v : UnpackedFloat) :
    NotOppositeZero (UnpackedFloat.add Format.binary64 (.infinity s) v) := by
  cases v with
  | notANumber => exact notOppositeZero_undefined
  | infinity s' =>
      cases s <;> cases s' <;>
        first | exact notOppositeZero_infinity _ | exact notOppositeZero_undefined
  | zero s' => exact notOppositeZero_infinity s
  | finite s' m e hm => exact notOppositeZero_infinity s

theorem Parts.notOppositeZero_add {u v : UnpackedFloat} (hu : Parts x u) (hv : Parts y v)
    (hx : x ≠ -Quantity.zero) : NotOppositeZero (UnpackedFloat.add Format.binary64 u v) := by
  cases hu with
  | zero s h =>
      cases s with
      | negative =>
          rw [opposite_zero_eq] at hx
          exact absurd (ext_toNat h) hx
      | positive =>
          cases hv with
          | zero s' h' => cases s' <;> exact notOppositeZero_zero
          | finite s' m' e' hm' hcanonical' h' =>
              have hparts := Parts.finite s' m' e' hm' hcanonical' h'
              exact hparts.notOppositeZero hparts.finite_ne
  | finite s m e hm hcanonical h =>
      cases hv with
      | zero s' h' => exact (Parts.finite s m e hm hcanonical h).notOppositeZero hx
      | finite s' m' e' hm' hcanonical' h' =>
          have hleast := hcanonical.least_le
          have hleast' := hcanonical'.least_le
          exact notOppositeZero_normalize _ (by omega)

theorem ofResult_ne {u : UnpackedFloat} (h : NotOppositeZero u) :
    ofResult (.ofModel (.pack u)) ≠ -Quantity.zero := by
  rw [opposite_zero_eq]
  unfold ofResult
  split
  · decide
  · intro heq
    exact h (congrArg (fun x : Double => x.bits.toNat) heq)

/-- A sum has no sign of zero that the first summand does not have. -/
theorem add_ne_opposite_zero (hx : x ≠ -Quantity.zero) : x + y ≠ -Quantity.zero := by
  by_cases hdx : x.isDefined = true
  · by_cases hdy : y.isDefined = true
    · rw [add_parts hdx hdy, pack_parts hdx, pack_parts hdy]
      refine ofResult_ne ?_
      rcases unpack_cases hdx with ⟨s, hs⟩ | hu
      · rw [hs]
        exact notOppositeZero_infinity_add s _
      · rcases unpack_cases hdy with ⟨s, hs⟩ | hv
        · rw [hs]
          generalize unpack Format.binary64 x.bits.toBitVec = u at hu
          cases hu <;> exact notOppositeZero_infinity s
        · exact hu.notOppositeZero_add hv hx
    · change lift₂ (· + ·) x y ≠ _
      rw [lift₂_of_undefined hdx hdy]
      exact y.quiet_ne_opposite_zero
  · change lift₂ (· + ·) x y ≠ _
    unfold lift₂
    rw [if_neg hdx]
    exact x.quiet_ne_opposite_zero

example : (Quantity.one + -Quantity.one : Double) = Quantity.zero := by
  decide +kernel

/-! ## Numbers that compare as equal -/

theorem isDefined_one : (Quantity.one : Double).isDefined = true := by
  rw [one_eq]
  rfl

theorem one_mul_ne_opposite_zero (hx : x ≠ -Quantity.zero) : Quantity.one * x ≠ -Quantity.zero := by
  by_cases hdefined : x.isDefined = true
  · rwa [one_mul hdefined]
  · change lift₂ (· * ·) Quantity.one x ≠ _
    rw [lift₂_of_undefined isDefined_one hdefined]
    exact x.quiet_ne_opposite_zero

theorem neg_one_mul_ne_zero (hx : x ≠ -Quantity.zero) : -Quantity.one * x ≠ Quantity.zero := by
  by_cases hdefined : x.isDefined = true
  · rw [neg_one_mul hdefined]
    rintro heq
    rw [← heq, neg_neg] at hx
    exact hx rfl
  · change lift₂ (· * ·) (-Quantity.one) x ≠ _
    rw [lift₂_of_undefined ((isDefined_neg _).trans isDefined_one) hdefined]
    exact x.quiet_ne_zero

/-- Only zeros of different signs are different and have one position. -/
theorem eq_of_position_eq (h : x.position = y.position) :
    x = y ∨ (x = Quantity.zero ∧ y = -Quantity.zero) ∨ x = -Quantity.zero ∧ y = Quantity.zero := by
  have hzero : ∀ u : Double, u.bits.toNat = 0 → u = Quantity.zero := by
    intro u hu
    rw [zero_eq]
    exact ext_toNat hu
  obtain ⟨u, hu, rfl | rfl⟩ := x.eq_or_eq_neg
  · obtain ⟨v, hv, rfl | rfl⟩ := y.eq_or_eq_neg
    · rw [position_of_nonneg hu, position_of_nonneg hv] at h
      exact .inl (ext_toNat (Int.ofNat.inj h))
    · rw [position_of_nonneg hu, position_neg hv] at h
      rw [hzero x (by omega), hzero v (by omega)]
      exact .inr (.inl ⟨rfl, rfl⟩)
  · obtain ⟨v, hv, rfl | rfl⟩ := y.eq_or_eq_neg
    · rw [position_neg hu, position_of_nonneg hv] at h
      rw [hzero u (by omega), hzero y (by omega)]
      exact .inr (.inr ⟨rfl, rfl⟩)
    · rw [position_neg hu, position_neg hv] at h
      exact .inl (congrArg _ (ext_toNat (by omega)))

theorem position_le_of_place_le (h : x.place.toNat ≤ y.place.toNat) : x.position ≤ y.position := by
  obtain ⟨u, hu, rfl | rfl⟩ := x.eq_or_eq_neg <;> obtain ⟨v, hv, rfl | rfl⟩ := y.eq_or_eq_neg <;>
    simp only [toNat_place, toNat_place_neg, position_of_nonneg, position_neg, *] at * <;>
    unfold Nonneg at hu hv <;> omega

/-- Unless zeros of both signs are compared, numbers are ordered by their places. -/
theorem lt_of_place_lt {z : Double} (hz : z = Quantity.zero ∨ z = -Quantity.zero)
    (hx : x.isDefined = true) (hy : y.isDefined = true) (hxz : x ≠ z) (hyz : y ≠ z)
    (h : x.place.toNat < y.place.toNat) : x < y := by
  rcases Int.lt_or_eq_of_le (position_le_of_place_le (Nat.le_of_lt h)) with hlt | heq
  · exact (lt_iff_position x y).2 ⟨hx, hy, hlt⟩
  · rcases eq_of_position_eq heq with rfl | ⟨rfl, rfl⟩ | ⟨rfl, rfl⟩
    · exact absurd h (Nat.lt_irrefl _)
    · rcases hz with rfl | rfl
      · exact absurd rfl hxz
      · exact absurd rfl hyz
    · rcases hz with rfl | rfl
      · exact absurd rfl hyz
      · exact absurd rfl hxz

theorem eq_of_place_eq (h : x.place.toNat = y.place.toNat) : x = y := by
  have hposition : x.position = y.position :=
    Int.le_antisymm (position_le_of_place_le (Nat.le_of_eq h))
      (position_le_of_place_le (Nat.le_of_eq h.symm))
  have hzeros : (Quantity.zero : Double).place.toNat ≠ (-Quantity.zero : Double).place.toNat := by
    rw [opposite_zero_eq, zero_eq]
    decide
  rcases eq_of_position_eq hposition with heq | ⟨rfl, rfl⟩ | ⟨rfl, rfl⟩
  · exact heq
  · exact absurd h hzeros
  · exact absurd h.symm hzeros

end VectorQuery.Double
