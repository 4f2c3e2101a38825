/-
# Defined single precision numbers

The norm of an embedding with defined components is defined, and so is its distance from one: a
square, a sum of squares and zeros, and the root of such a sum are never undefined.  A number that
has a square root is not negative, or it is zero (`IsRadicand`); sums of these and their roots are
again such numbers, by the cases of what a pattern stands for.
-/
import Mathlib
import VectorQuery.Embedding

namespace VectorQuery.Single

open Float.Model (Format UnpackedFloat)
open Float.Model.UnpackedFloat

/-! ## Order -/

/-- Of two defined numbers one is not less than the other only if it is not above it. -/
theorem le_of_not_lt {a b : Single} (ha : a.isDefined = true) (hb : b.isDefined = true)
    (h : ¬ a < b) : b ≤ a := by
  have hlt : (a.isDefined && b.isDefined && !bothZero a b && decide (a.place < b.place)) = false :=
    Bool.eq_false_iff.2 h
  change (b.isDefined && a.isDefined && (bothZero b a || decide (b.place ≤ a.place))) = true
  rw [ha, hb] at hlt ⊢
  have hzeros : bothZero b a = bothZero a b := Bool.and_comm ..
  rw [hzeros]
  cases hzero : bothZero a b with
  | true => rfl
  | false =>
      rw [hzero] at hlt
      simpa using hlt

theorem le_self_iff {a : Single} : a ≤ a ↔ a.isDefined = true := by
  change (a.isDefined && a.isDefined && (bothZero a a || decide (a.place ≤ a.place))) = true ↔ _
  simp

theorem isDefined_of_isFinite {a : Single} (h : Quantity.isFinite a = true) :
    a.isDefined = true := by
  rw [Quantity.isFinite, Bool.and_eq_true] at h
  exact le_self_iff.1 (of_decide_eq_true h.1)

/-! ## What a pattern stands for -/

/-- What the pattern stands for, taken apart. -/
def parts (x : Single) : UnpackedFloat := unpack Format.binary32 x.bits.toBitVec

theorem isNaN_unpack {spec : Format} (b : BitVec spec.numBits) :
    (unpack spec b).isNaN = true ↔ unpackExponent b = -1#_ ∧ unpackMantissa b ≠ 0#_ := by
  unfold unpack
  dsimp only
  split
  · split <;> simp_all [isNaN]
  · split
    · split <;> simp_all [isNaN]
    · simp_all [isNaN]

theorem toNat_unsigned (x : Single) : x.unsigned.toNat = x.bits.toNat % 2 ^ 31 := by
  rw [unsigned, UInt32.toNat_and]
  exact Nat.and_two_pow_sub_one_eq_mod _ 31

theorem toNat_exponent (x : Single) :
    (@unpackExponent Format.binary32 x.bits.toBitVec).toNat = x.bits.toNat / 2 ^ 23 % 256 := by
  simp [unpackExponent, BitVec.extractLsb, Nat.shiftRight_eq_div_pow]

theorem toNat_mantissa (x : Single) :
    (@unpackMantissa Format.binary32 x.bits.toBitVec).toNat = x.bits.toNat % 2 ^ 23 := by
  simp [unpackMantissa, BitVec.extractLsb]

/-- A number is undefined when its exponent is the greatest and its fraction is not zero. -/
theorem isDefined_iff_parts (x : Single) : x.isDefined = true ↔ x.parts.isNaN = false := by
  have hinfinity : infinity.bits.toNat = 255 * 2 ^ 23 := rfl
  rw [← Bool.not_eq_true, parts, isNaN_unpack, ← BitVec.toNat_inj, ne_eq, ← BitVec.toNat_inj,
    toNat_exponent, toNat_mantissa, isDefined, decide_eq_true_eq, UInt32.le_iff_toNat_le,
    toNat_unsigned, hinfinity]
  change _ ↔ ¬ (_ = 255 ∧ ¬ _ = 0)
  omega

/-- A number that has a square root. -/
def IsRadicand : UnpackedFloat → Prop
  | .infinity .positive | .zero _ | .finite .positive .. => True
  | _ => False

theorem IsRadicand.isNaN_eq_false {f : UnpackedFloat} (h : IsRadicand f) : f.isNaN = false := by
  cases f with
  | notANumber => exact h.elim
  | _ => rfl

/-- The components that a number is packed into. -/
theorem pack_eq {f : UnpackedFloat} (h : f.isNaN = false) :
    ∃ sign exponent mantissa,
      pack Format.binary32 f = packComponents Format.binary32 sign exponent mantissa ∧
      (exponent = -1#_ → mantissa = 0#_) ∧
      (IsRadicand f → sign = .positive ∨ exponent = 0#_ ∧ mantissa = 0#_) := by
  cases f with
  | notANumber => exact nomatch h
  | infinity sign =>
      refine ⟨sign, -1#_, 0#_, rfl, fun _ => rfl, fun hr => .inl ?_⟩
      cases sign with
      | negative => exact hr.elim
      | positive => rfl
  | zero sign => exact ⟨sign, 0#_, 0#_, rfl, fun _ => rfl, fun _ => .inr ⟨rfl, rfl⟩⟩
  | finite sign m e hm =>
      have hsign : IsRadicand (.finite sign m e hm) → sign = .positive := by
        intro hr
        cases sign with
        | negative => exact hr.elim
        | positive => rfl
      unfold pack
      dsimp only
      split
      · exact ⟨sign, -1#_, 0#_, rfl, fun _ => rfl, fun hr => .inl (hsign hr)⟩
      · rename_i hsmall
        split
        · refine ⟨sign, _, _, rfl, fun hone => ?_, fun hr => .inl (hsign hr)⟩
          -- the exponent would be too great for the format
          have hexponent := congrArg BitVec.toNat hone
          rw [BitVec.toNat_ofNat] at hexponent
          change _ % 256 = 255 at hexponent
          change ¬ 256 ≤ _ + 1 at hsmall
          omega
        · exact ⟨sign, 0#_, _, rfl, fun hone => absurd hone (by decide), fun hr => .inl (hsign hr)⟩

theorem isRadicand_unpack_positive {exponent : BitVec 8} {mantissa : BitVec 23}
    (h : exponent = -1#_ → mantissa = 0#_) :
    IsRadicand (unpack Format.binary32
      (packComponents Format.binary32 .positive exponent mantissa)) := by
  unfold unpack
  simp only [unpackExponent_packComponents, unpackMantissa_packComponents,
    unpackSign_packComponents]
  change IsRadicand (if exponent = -1#8 then if mantissa = 0#23 then .infinity .positive
    else .notANumber else _)
  split
  · rw [if_pos (h ‹_›)]
    trivial
  · split
    · split <;> trivial
    · trivial

/-- Packing makes no number undefined. -/
theorem isNaN_unpack_pack {f : UnpackedFloat} (h : f.isNaN = false) :
    (unpack Format.binary32 (pack Format.binary32 f)).isNaN = false := by
  obtain ⟨sign, exponent, mantissa, heq, hinfinite, -⟩ := pack_eq h
  rw [heq, ← Bool.not_eq_true, isNaN_unpack, unpackExponent_packComponents,
    unpackMantissa_packComponents]
  exact fun hnan => hnan.2 (hinfinite hnan.1)

/-- Packing keeps a number one that has a square root. -/
theorem isRadicand_unpack_pack {f : UnpackedFloat} (h : IsRadicand f) :
    IsRadicand (unpack Format.binary32 (pack Format.binary32 f)) := by
  obtain ⟨sign, exponent, mantissa, heq, hinfinite, hsign⟩ := pack_eq h.isNaN_eq_false
  rw [heq]
  rcases hsign h with rfl | ⟨rfl, rfl⟩
  · exact isRadicand_unpack_positive hinfinite
  · cases sign <;> trivial

/-! ## Operations -/

theorem isRadicand_roundWithAccuracy {spec : Format} (m : Nat) (e : Int) (accuracy : Accuracy) :
    IsRadicand (roundWithAccuracy spec .positive m e accuracy) := by
  unfold roundWithAccuracy
  dsimp only
  split <;> trivial

theorem isNaN_roundWithAccuracy {spec : Format} (sign : Sign) (m : Nat) (e : Int)
    (accuracy : Accuracy) : (roundWithAccuracy spec sign m e accuracy).isNaN = false := by
  unfold roundWithAccuracy
  dsimp only
  split <;> rfl

theorem isNaN_normalize {spec : Format} (m e : Int) (sign : Sign) :
    (UnpackedFloat.normalize spec m e sign).isNaN = false := by
  unfold UnpackedFloat.normalize
  split
  · exact isNaN_roundWithAccuracy ..
  · rfl
  · exact isNaN_roundWithAccuracy ..

theorem isRadicand_normalize {spec : Format} {m : Int} (h : 0 ≤ m) (e : Int) (sign : Sign) :
    IsRadicand (UnpackedFloat.normalize spec m e sign) := by
  unfold UnpackedFloat.normalize
  split
  · rename_i hlt
    exact absurd (Int.compare_eq_lt.1 hlt) (Int.not_lt.2 h)
  · trivial
  · exact isRadicand_roundWithAccuracy ..

theorem isRadicand_mul_self {spec : Format} {f : UnpackedFloat} (h : f.isNaN = false) :
    IsRadicand (mul spec f f) := by
  have hsign (sign : Sign) : sign * sign = .positive := by cases sign <;> rfl
  cases f with
  | notANumber => exact nomatch h
  | infinity sign =>
      rw [mul, hsign]
      trivial
  | zero sign => trivial
  | finite sign m e hm =>
      rw [mul, hsign]
      exact isRadicand_roundWithAccuracy ..

theorem isRadicand_add {spec : Format} {f g : UnpackedFloat} (hf : IsRadicand f)
    (hg : IsRadicand g) : IsRadicand (UnpackedFloat.add spec f g) := by
  match f, g, hf, hg with
  | .infinity .positive, .infinity .positive, _, _ => trivial
  | .infinity .positive, .zero _, _, _ => trivial
  | .infinity .positive, .finite .positive .., _, _ => trivial
  | .zero _, .infinity .positive, _, _ => trivial
  | .zero s, .zero t, _, _ => cases s <;> cases t <;> trivial
  | .zero _, .finite .positive .., _, _ => trivial
  | .finite .positive .., .infinity .positive, _, _ => trivial
  | .finite .positive .., .zero _, _, _ => trivial
  | .finite .positive m e _, .finite .positive n d _, _, _ =>
      exact isRadicand_normalize (Int.add_nonneg (Int.natCast_nonneg _) (Int.natCast_nonneg _)) ..

theorem isNaN_sqrt {spec : Format} {f : UnpackedFloat} (h : IsRadicand f) :
    (UnpackedFloat.sqrt spec f).isNaN = false := by
  match f, h with
  | .infinity .positive, _ => rfl
  | .zero _, _ => rfl
  | .finite .positive .., _ => exact isNaN_roundWithAccuracy ..

/-- Only infinities have no difference. -/
theorem isNaN_sub {spec : Format} {f g : UnpackedFloat} (hf : f.isNaN = false)
    (hg : g.isFinite = true) : (UnpackedFloat.sub spec f g).isNaN = false := by
  match f, g, hf, hg with
  | .infinity _, .zero _, _, _ => rfl
  | .infinity _, .finite .., _, _ => rfl
  | .zero s, .zero t, _, _ => cases s <;> cases t <;> rfl
  | .zero _, .finite .., _, _ => rfl
  | .finite .., .zero _, _, _ => rfl
  | .finite .., .finite .., _, _ => exact isNaN_normalize ..

theorem parts_ofResult {f : UnpackedFloat} (h : f.isNaN = false) :
    (ofResult (.ofModel (.pack f))).parts = unpack Format.binary32 (pack Format.binary32 f) := by
  have hdefined : (Float32.ofModel (.pack f)).isNaN = false := isNaN_unpack_pack h
  rw [ofResult, hdefined]
  rfl

theorem isRadicand_ofResult {f : UnpackedFloat} (h : IsRadicand f) :
    IsRadicand (ofResult (.ofModel (.pack f))).parts := by
  rw [parts_ofResult h.isNaN_eq_false]
  exact isRadicand_unpack_pack h

theorem isDefined_ofResult {f : UnpackedFloat} (h : f.isNaN = false) :
    (ofResult (.ofModel (.pack f))).isDefined = true := by
  rw [isDefined_iff_parts, parts_ofResult h]
  exact isNaN_unpack_pack h

section

variable {x y : Single}

theorem isDefined_of_isRadicand (h : IsRadicand x.parts) : x.isDefined = true :=
  (isDefined_iff_parts x).2 h.isNaN_eq_false

/-- A square has a square root. -/
theorem isRadicand_parts_mul_self (h : x.isDefined = true) : IsRadicand (x * x).parts := by
  have hparts := isNaN_unpack_pack ((isDefined_iff_parts x).1 h)
  change IsRadicand (lift₂ (· * ·) x x).parts
  rw [lift₂, if_pos h, if_pos h]
  exact isRadicand_ofResult (isRadicand_mul_self hparts)

theorem isRadicand_parts_add (hx : IsRadicand x.parts) (hy : IsRadicand y.parts) :
    IsRadicand (x + y).parts := by
  change IsRadicand (lift₂ (· + ·) x y).parts
  rw [lift₂, if_pos (isDefined_of_isRadicand hx), if_pos (isDefined_of_isRadicand hy)]
  exact isRadicand_ofResult (isRadicand_add (isRadicand_unpack_pack hx) (isRadicand_unpack_pack hy))

theorem isDefined_sqrt (h : IsRadicand x.parts) : x.sqrt.isDefined = true := by
  rw [sqrt, lift, if_pos (isDefined_of_isRadicand h)]
  exact isDefined_ofResult (isNaN_sqrt (isRadicand_unpack_pack h))

theorem isDefined_sub_one (h : x.isDefined = true) : (x - 1).isDefined = true := by
  have hone : (1 : Single).isDefined = true := by decide
  have hfinite : (Float32.ofBits (1 : Single).bits).toModel.unpack.isFinite = true := by
    decide
  change (lift₂ (· - ·) x 1).isDefined = true
  rw [lift₂, if_pos h, if_pos hone]
  exact isDefined_ofResult (isNaN_sub (isNaN_unpack_pack ((isDefined_iff_parts x).1 h)) hfinite)

end

/-! ## Norms -/

theorem isRadicand_foldl_add {xs : List Single} {sum : Single} (hsum : IsRadicand sum.parts)
    (h : ∀ x ∈ xs, IsRadicand x.parts) : IsRadicand (xs.foldl (· + ·) sum).parts := by
  induction xs generalizing sum with
  | nil => exact hsum
  | cons x xs ih =>
      exact ih (isRadicand_parts_add hsum (h x List.mem_cons_self)) fun y hy =>
        h y (List.mem_cons_of_mem x hy)

/-- A sum of squares has a square root. -/
theorem isRadicand_dot_self {v : Embedding} (h : ∀ x ∈ v, x.isDefined = true) :
    IsRadicand (v.dot v).parts := by
  have hzero : (-(Quantity.zero : Single)).parts = .zero .negative := rfl
  refine isRadicand_foldl_add (hzero ▸ trivial) fun y hy => ?_
  rw [List.zipWith_self] at hy
  obtain ⟨x, hx, rfl⟩ := List.mem_map.1 hy
  exact isRadicand_parts_mul_self (h x hx)

/-- The norm of defined components is defined. -/
theorem isDefined_norm {v : Embedding} (h : ∀ x ∈ v, x.isDefined = true) :
    v.norm.isDefined = true :=
  isDefined_sqrt (isRadicand_dot_self h)

theorem isDefined_neg (x : Single) : (-x).isDefined = x.isDefined := by
  have hbits : (-x).bits = x.bits ^^^ 0x80000000 := rfl
  have hsign : (0x80000000 : UInt32).toNat = 2 ^ 31 := rfl
  have hunsigned : (-x).unsigned = x.unsigned := by
    rw [← UInt32.toNat_inj, toNat_unsigned, toNat_unsigned, hbits, UInt32.toNat_xor, hsign,
      Nat.xor_mod_two_pow, Nat.mod_self, Nat.xor_zero]
  rw [isDefined, hunsigned, isDefined]

theorem isDefined_magnitude {x : Single} (h : x.isDefined = true) :
    (Quantity.magnitude x).isDefined = true := by
  unfold Quantity.magnitude
  split
  · exact (isDefined_neg x).trans h
  · split
    · decide
    · exact h

example : Quantity.magnitude (-(1 : Single)) = 1 := by
  decide +kernel

end VectorQuery.Single
