/-
# Ratios to one

A finite number in single precision is a mantissa of at most 24 bits with the exponent that its
format asks for.  Its quotient by one has the same mantissa, perhaps with a zero behind it, so
nothing is rounded (`Single.div_one`).
-/
import VectorQuery.Proofs.Number.Norm
import VectorQuery.Proofs.Number.Sum

namespace VectorQuery.Single

open Float.Model (Format)
open Float.Model.UnpackedFloat
open Float.Model (UnpackedFloat totalExponent)

/-! ## Parts of a pattern -/

theorem toNat_packComponents (s : Sign) (e : BitVec 8) (m : BitVec 23) :
    (packComponents Format.binary32 s e m).toNat =
      s.toBitVec.toNat * 2 ^ 31 + (e.toNat * 2 ^ 23 + m.toNat) := by
  change (s.toBitVec ++ e ++ m).toNat = _
  rw [BitVec.toNat_append, BitVec.toNat_append, ← Nat.shiftLeft_add_eq_or_of_lt m.isLt,
    ← Nat.shiftLeft_add_eq_or_of_lt e.isLt, Nat.shiftLeft_eq, Nat.shiftLeft_eq]
  omega

/-- The components of a pattern make it up. -/
theorem packComponents_unpack (b : BitVec Format.binary32.numBits) :
    packComponents Format.binary32 (.ofBitVec (unpackSign b)) (unpackExponent b)
      (unpackMantissa b) = b := by
  have hlt : b.toNat < 2 ^ 32 := b.isLt
  have hsign : (Sign.ofBitVec (unpackSign b)).toBitVec.toNat = b.toNat / 2 ^ 31 := by
    have htoNat : (unpackSign b).toNat = b.toNat / 2 ^ 31 := by
      change (b.toNat >>> 31) % 2 = _
      rw [Nat.shiftRight_eq_div_pow]
      omega
    have hbit : (Sign.ofBitVec (unpackSign b)).toBitVec = unpackSign b := by
      generalize unpackSign b = s
      revert s
      decide
    rw [hbit, htoNat]
  have hexponent : (unpackExponent b).toNat = b.toNat / 2 ^ 23 % 2 ^ 8 := by
    change (b.toNat >>> 23) % 2 ^ 8 = _
    rw [Nat.shiftRight_eq_div_pow]
  have hmantissa : (unpackMantissa b).toNat = b.toNat % 2 ^ 23 := by
    change (b.toNat >>> 0) % 2 ^ 23 = _
    rw [Nat.shiftRight_zero]
  apply BitVec.eq_of_toNat_eq
  rw [toNat_packComponents, hsign, hexponent, hmantissa]
  omega

/-- The exponent of a mantissa of at most 24 bits is the one that its format asks for. -/
def Canonical (m : Nat) (e : Int) : Prop := e = max ((m.log2 : Int) + e - 23) (-149)

theorem canonical_of_subnormal {m : Nat} (h : m < 2 ^ 23) : Canonical m (-149) := by
  have hlog := Double.log2_lt_of_lt (n := 23) (by decide) h
  unfold Canonical
  omega

theorem toNat_one_append (m : BitVec 23) : (1#1 ++ m).toNat = 2 ^ 23 + m.toNat := by
  rw [BitVec.toNat_append, ← Nat.shiftLeft_add_eq_or_of_lt m.isLt]
  rfl

theorem log2_one_append (m : BitVec 23) : (1#1 ++ m).toNat.log2 = 23 := by
  have hlt : m.toNat < 2 ^ 23 := m.isLt
  rw [toNat_one_append]
  exact (Nat.log2_eq_iff (by omega)).2 ⟨by omega, by omega⟩

/-- What a pattern stands for, if it is a number. -/
inductive Parts (b : BitVec 32) : UnpackedFloat → Prop
  | infinity (s : Sign) : pack Format.binary32 (.infinity s) = b → Parts b (.infinity s)
  | zero (s : Sign) : pack Format.binary32 (.zero s) = b → Parts b (.zero s)
  | finite (s : Sign) (m : Nat) (e : Int) (hm : 0 < m) : Canonical m e →
      pack Format.binary32 (.finite s m e hm) = b → Parts b (.finite s m e hm)

theorem pack_finite (s : Sign) (m : Nat) (e : Int) (hm : 0 < m) :
    pack Format.binary32 (.finite s m e hm) =
      if 2 ^ 8 ≤ (e + 127 + 23).toNat + 1 then packedInfinity Format.binary32 s
      else if m.log2 + 1 = 24 then
        packComponents Format.binary32 s (BitVec.ofNat 8 (e + 127 + 23).toNat) (BitVec.ofNat 23 m)
      else packComponents Format.binary32 s 0 (BitVec.ofNat 23 m) := rfl

theorem parts_subnormal (s : Sign) {m : BitVec 23} (hm : 0 < m.toNat) :
    Parts (packComponents Format.binary32 s 0#8 m) (.finite s m.toNat (-149) hm) := by
  have hlog := Double.log2_lt_of_lt (n := 23) (by decide) m.isLt
  refine .finite s _ _ hm (canonical_of_subnormal m.isLt) ?_
  rw [pack_finite, if_neg (by decide), if_neg (by omega), BitVec.ofNat_toNat]
  exact congrArg (packComponents Format.binary32 s 0#8) (BitVec.setWidth_eq m)

/-- A number with a leading bit of its own: its exponent is neither of the two that are reserved. -/
theorem parts_normal (s : Sign) {e : BitVec 8} (m : BitVec 23) (hpos : e.toNat ≠ 0)
    (hlt : e.toNat ≠ 255) (hm : 0 < (1#1 ++ m).toNat) :
    Parts (packComponents Format.binary32 s e m)
      (.finite s (1#1 ++ m).toNat ((e.toNat : Int) - (127 + 23)) hm) := by
  have hlog := log2_one_append m
  have hbits : m.toNat < 2 ^ 23 := m.isLt
  have hexponent : ((e.toNat : Int) - (127 + 23) + 127 + 23).toNat = e.toNat := by omega
  have hfraction : BitVec.ofNat 23 (1#1 ++ m).toNat = m := by
    apply BitVec.eq_of_toNat_eq
    rw [BitVec.toNat_ofNat, toNat_one_append]
    omega
  refine .finite s _ _ hm ?_ ?_
  · unfold Canonical
    rw [hlog]
    omega
  · have hrange : e.toNat < 2 ^ 8 := e.isLt
    rw [pack_finite, hexponent, if_neg (by omega), if_pos (congrArg (· + 1) hlog), hfraction,
      BitVec.ofNat_toNat]
    exact congrArg (packComponents Format.binary32 s · m) (BitVec.setWidth_eq e)

theorem parts_unpack {b : BitVec Format.binary32.numBits}
    (h : (unpack Format.binary32 b).isNaN = false) : Parts b (unpack Format.binary32 b) := by
  have hb := packComponents_unpack b
  rw [← Bool.not_eq_true, isNaN_unpack, not_and, not_not] at h
  unfold unpack
  dsimp only
  generalize Sign.ofBitVec (unpackSign b) = s at hb ⊢
  by_cases hinfinite : unpackExponent b = -1#8
  · rw [if_pos hinfinite, if_pos (h hinfinite)]
    rw [hinfinite, h hinfinite] at hb
    exact .infinity s hb
  rw [if_neg hinfinite]
  split
  · rename_i hzero
    rw [hzero] at hb ⊢
    split
    · rename_i hm
      rw [hm] at hb
      exact .zero s hb
    · rename_i hm
      have hpos : 0 < (unpackMantissa b).toNat :=
        Nat.pos_of_ne_zero fun heq => hm (BitVec.eq_of_toNat_eq heq)
      have hparts := parts_subnormal s hpos
      rw [hb] at hparts
      exact hparts
  · rename_i hzero
    have hpos : (unpackExponent b).toNat ≠ 0 := fun heq => hzero (BitVec.eq_of_toNat_eq heq)
    have hlt : (unpackExponent b).toNat ≠ 255 := fun heq => hinfinite (BitVec.eq_of_toNat_eq heq)
    have hm : 0 < (1#1 ++ unpackMantissa b).toNat := by
      rw [toNat_one_append]
      omega
    have hparts := parts_normal s (unpackMantissa b) hpos hlt hm
    rw [hb] at hparts
    exact hparts

/-! ## Quotients -/

theorem target_of_canonical {m : Nat} {e : Int} (h : Canonical m e) (hm : 0 < m) (k : Nat) :
    Format.binary32.targetExponent (totalExponent (m * 2 ^ k) (e - k)) = e := by
  change max (((m * 2 ^ k).log2 : Int) + 1 + (e - k) - 24) (-149) = e
  rw [Double.log2_mul_two_pow hm]
  unfold Canonical at h
  omega

/-- Zeros behind a mantissa are dropped, and nothing is rounded. -/
theorem round_canonical {m : Nat} {e : Int} (h : Canonical m e) (hm : 0 < m) (s : Sign) (k : Nat) :
    roundWithAccuracy Format.binary32 s (m * 2 ^ k) (e - k) .exact = .finite s m e hm := by
  have hshift (k : Nat) : shiftToTargetExponent Format.binary32 (m * 2 ^ k) (e - k) .exact =
      (⟨m, false, false⟩, e) := by
    unfold shiftToTargetExponent
    rw [target_of_canonical h hm]
    have hamount : (e - (e - k)).toNat = k := by omega
    unfold shiftToExponent
    dsimp only
    rw [hamount]
    change (ExtendedMantissa.mk (m * 2 ^ k) false false >>> k, e - k + (k : Int)) = _
    rw [Double.shiftRight_of_dvd ⟨m, Nat.mul_comm ..⟩, Nat.mul_div_cancel _ (Nat.two_pow_pos k),
      Int.sub_add_cancel]
  have hsecond := hshift 0
  rw [Nat.pow_zero, Nat.mul_one, Int.natCast_zero, Int.sub_zero] at hsecond
  have hround : roundWithAccuracy Format.binary32 s (m * 2 ^ k) (e - k) .exact =
      let first := shiftToTargetExponent Format.binary32 (m * 2 ^ k) (e - k) .exact
      let second := shiftToTargetExponent Format.binary32 first.1.roundedMantissa first.2 .exact
      if h : second.1.mantissa = 0 then .zero s
      else .finite s second.1.mantissa second.2 (Nat.pos_of_ne_zero h) := rfl
  rw [hround, hshift k]
  change (let second := shiftToTargetExponent Format.binary32 m e .exact
    if h : second.1.mantissa = 0 then UnpackedFloat.zero s
    else UnpackedFloat.finite s second.1.mantissa second.2 (Nat.pos_of_ne_zero h)) = _
  rw [hsecond]
  exact dif_neg (Nat.ne_of_gt hm)

/-- The quotient by one is computed to one more bit, unless the number is among the least. -/
theorem divCore_one {m : Nat} {e : Int} (h : Canonical m e) :
    ∃ k : Nat, divCore Format.binary32 m e (2 ^ 23) (-23) = (m * 2 ^ k, e - k, .exact) := by
  have hone : totalExponent (2 ^ 23) (-23) = 1 := rfl
  have htarget : Format.binary32.targetExponent (totalExponent m e - 1) =
      max ((m.log2 : Int) + 1 + e - 1 - 24) (-149) := rfl
  unfold Canonical at h
  obtain ⟨k, hk⟩ : ∃ k : Nat, max ((m.log2 : Int) + 1 + e - 1 - 24) (-149) = e - k :=
    ⟨(e - max ((m.log2 : Int) + 1 + e - 1 - 24) (-149)).toNat, by omega⟩
  have hmin : min (e - -23) (e - k) = e - k := by omega
  have hshift : (e - -23 - (e - k)).toNat = k + 23 := by omega
  have hmul : m <<< (k + 23) = m * 2 ^ k * 2 ^ 23 := by
    rw [Nat.shiftLeft_eq, Nat.pow_add, Nat.mul_assoc]
  refine ⟨k, ?_⟩
  unfold divCore
  rw [hone, htarget, hk, hmin]
  dsimp only
  rw [hshift, hmul, Nat.mul_div_cancel _ (Nat.two_pow_pos 23), Nat.mul_mod_left]
  rfl

theorem div_one_parts {b : BitVec 32} {u : UnpackedFloat} (h : Parts b u) :
    UnpackedFloat.div Format.binary32 u (.finite .positive (2 ^ 23) (-23) (by decide)) = u := by
  cases h with
  | infinity s => cases s <;> rfl
  | zero s => cases s <;> rfl
  | finite s m e hm hcanonical =>
      have hsign : s / .positive = s := by cases s <;> rfl
      have hdiv : UnpackedFloat.div Format.binary32 (.finite s m e hm)
          (.finite .positive (2 ^ 23) (-23) (by decide)) =
            let core := divCore Format.binary32 m e (2 ^ 23) (-23)
            roundWithAccuracy Format.binary32 (s / .positive) core.1 core.2.1 core.2.2 := rfl
      obtain ⟨k, hcore⟩ := divCore_one hcanonical
      rw [hdiv, hcore, hsign]
      exact round_canonical hcanonical hm s k

theorem Parts.pack_eq {b : BitVec 32} {u : UnpackedFloat} (h : Parts b u) :
    pack Format.binary32 u = b := by
  cases h with
  | infinity s h => exact h
  | zero s h => exact h
  | finite s m e hm _ h => exact h

variable {x y : Single}

theorem parts_parts (h : x.isDefined = true) : Parts x.bits.toBitVec x.parts :=
  parts_unpack ((isDefined_iff_parts x).1 h)

theorem pack_parts (h : x.isDefined = true) : pack Format.binary32 x.parts = x.bits.toBitVec :=
  (parts_parts h).pack_eq

theorem div_eq (hx : x.isDefined = true) (hy : y.isDefined = true) :
    x / y = ofResult (.ofModel (.pack (UnpackedFloat.div Format.binary32 x.parts y.parts))) := by
  have hdiv : x / y = ofResult (.ofModel (.pack (UnpackedFloat.div Format.binary32
      (unpack Format.binary32 (pack Format.binary32 x.parts))
      (unpack Format.binary32 (pack Format.binary32 y.parts))))) := by
    change lift₂ (· / ·) x y = _
    unfold lift₂
    rw [if_pos hx, if_pos hy]
    rfl
  rw [hdiv, pack_parts hx, pack_parts hy]
  rfl

/-- The quotient of a number by one is the number. -/
theorem div_one (h : x.isDefined = true) : x / Quantity.one = x := by
  have hone : (Quantity.one : Single).parts = .finite .positive (2 ^ 23) (-23) (by decide) := rfl
  have hdefined : (Float32.ofModel (.pack x.parts)).isNaN = false :=
    isNaN_unpack_pack ((isDefined_iff_parts x).1 h)
  rw [div_eq h (by decide), hone, div_one_parts (parts_parts h), ofResult, hdefined,
    if_neg Bool.false_ne_true]
  change Single.mk (.ofBitVec (pack Format.binary32 x.parts)) = x
  rw [pack_parts h]

end VectorQuery.Single
