/-
# Shares of a count

A count below 2 ^ 24 is a number in single precision.  A share of less than such a count differs
from the whole by more than half of what the last bit below one stands for, so its quotient is
rounded to a number below one, and something of one is left (`Single.pos_one_sub_share_iff`).
-/
import VectorQuery.Proofs.Number.Ratio

namespace VectorQuery.Single

open Float.Model (Format)
open Float.Model.UnpackedFloat
open Float.Model (UnpackedFloat totalExponent)

variable {m n d : Nat} {e : Int} {x : Single}

/-! ## Rounding -/

/-- The number `m · 2 ^ e` has a mantissa and an exponent that the format has room for. -/
structure Fits (m : Nat) (e : Int) : Prop where
  pos : 0 < m
  lt : m < 2 ^ 24
  least_le : -149 ≤ e

/-- As many bits are dropped as the exponent of the last one asks for. -/
theorem shift_spec (m : Nat) (e : Int) (accuracy : Accuracy) :
    ∃ n : Nat, (shiftToTargetExponent Format.binary32 m e accuracy).1.mantissa = m / 2 ^ n ∧
      (shiftToTargetExponent Format.binary32 m e accuracy).2 = e + n ∧
      e + n = max e (max (m.log2 + 1 + e - 24) (-149)) := by
  refine ⟨_, ?_, rfl, ?_⟩
  · change (_ >>> _ : ExtendedMantissa).mantissa = _
    rw [Double.mantissa_shiftRight, Double.mantissa_ofMantissaAndAccuracy]
  · change e + ((max ((m.log2 : Int) + 1 + e - 24) (-149) - e).toNat : Int) = _
    omega

theorem fits_shift (hm : 0 < m) (he : -149 ≤ e) (accuracy : Accuracy) :
    Fits (shiftToTargetExponent Format.binary32 m e accuracy).1.mantissa
      (shiftToTargetExponent Format.binary32 m e accuracy).2 := by
  obtain ⟨n, hmantissa, hexponent, hmax⟩ := shift_spec m e accuracy
  rw [hmantissa, hexponent]
  constructor
  case pos =>
    have hle : n ≤ m.log2 := by omega
    exact Nat.div_pos ((Nat.le_log2 (Nat.ne_of_gt hm)).1 hle) (Nat.two_pow_pos n)
  case lt =>
    have hle : m.log2 + 1 ≤ n + 24 := by omega
    refine Nat.div_lt_of_lt_mul ?_
    rw [← Nat.pow_add]
    exact Nat.lt_of_lt_of_le Nat.lt_log2_self (Nat.pow_le_pow_right (by decide) hle)
  case least_le => omega

/-- A number is rounded in two steps, since rounding up may ask for one more bit. -/
theorem round_eq (s : Sign) (m : Nat) (e : Int) (accuracy : Accuracy) :
    roundWithAccuracy Format.binary32 s m e accuracy =
      let first := shiftToTargetExponent Format.binary32 m e accuracy
      let second := shiftToTargetExponent Format.binary32 first.1.roundedMantissa first.2 .exact
      if h : second.1.mantissa = 0 then .zero s
      else .finite s second.1.mantissa second.2 (Nat.pos_of_ne_zero h) := rfl

theorem round_shift (hm : 0 < m) (he : -149 ≤ e) (s : Sign) (accuracy : Accuracy) :
    let first := shiftToTargetExponent Format.binary32 m e accuracy
    let second := shiftToTargetExponent Format.binary32 first.1.roundedMantissa first.2 .exact
    ∃ h : Fits second.1.mantissa second.2,
      roundWithAccuracy Format.binary32 s m e accuracy =
        .finite s second.1.mantissa second.2 h.pos := by
  intro first second
  have hfirst := fits_shift hm he accuracy
  have hround : 0 < first.1.roundedMantissa :=
    Nat.lt_of_lt_of_le hfirst.pos (Double.le_roundedMantissa _)
  have hsecond : Fits second.1.mantissa second.2 := fits_shift hround hfirst.least_le .exact
  exact ⟨hsecond, (round_eq s m e accuracy).trans (dif_neg (Nat.ne_of_gt hsecond.pos))⟩

/-- A number that falls short of one by more than half of what the last bit below one stands for is
rounded to a number below one. -/
theorem round_below (hm : 0 < m) (he : -149 ≤ e) (he' : e ≤ -24)
    (h : m + 2 ^ (-e - 24).toNat < 2 ^ (-e).toNat) (s : Sign) (accuracy : Accuracy) :
    ∃ m' e', ∃ hfits : Fits m' e', e' ≤ -24 ∧
      roundWithAccuracy Format.binary32 s m e accuracy = .finite s m' e' hfits.pos := by
  obtain ⟨hfits, hround⟩ := round_shift hm he s accuracy
  refine ⟨_, _, hfits, ?_, hround⟩
  obtain ⟨n, hmantissa, hexponent, hmax⟩ := shift_spec m e accuracy
  generalize shiftToTargetExponent Format.binary32 m e accuracy = first at hmantissa hexponent ⊢
  have hlt : m < 2 ^ (-e).toNat := Nat.lt_of_le_of_lt (Nat.le_add_right ..) h
  have hlog := Double.log2_lt_of_lt (by omega) hlt
  have hup : first.1.roundedMantissa < 2 ^ (-(e + n)).toNat := by
    have hpow : 2 ^ (-e).toNat = 2 ^ n * 2 ^ (-(e + n)).toNat := by
      rw [← Nat.pow_add]
      congr 1
      omega
    have hpow' : 2 ^ (-e - 24).toNat = 2 ^ n * 2 ^ (-(e + n) - 24).toNat := by
      rw [← Nat.pow_add]
      congr 1
      omega
    have hfloor : m / 2 ^ n < 2 ^ (-(e + n)).toNat - 2 ^ (-(e + n) - 24).toNat := by
      refine Nat.div_lt_of_lt_mul ?_
      rw [Nat.mul_sub, ← hpow, ← hpow']
      omega
    have hone := Nat.two_pow_pos (-(e + n) - 24).toNat
    have hle := Double.roundedMantissa_le first.1
    omega
  have hlog' := Double.log2_lt_of_lt (by omega) hup
  obtain ⟨k, -, hexponent', hmax'⟩ := shift_spec first.1.roundedMantissa first.2 .exact
  rw [hexponent', hmax', hexponent]
  omega

/-! ## Patterns of positive numbers -/

theorem toNat_pack (h : Fits m e) : 0 < (pack Format.binary32 (.finite .positive m e h.pos)).toNat ∧
    (pack Format.binary32 (.finite .positive m e h.pos)).toNat ≤ 255 * 2 ^ 23 ∧
    (e ≤ -24 → (pack Format.binary32 (.finite .positive m e h.pos)).toNat < 127 * 2 ^ 23) := by
  have hlog := Double.log2_lt_of_lt (by decide) h.lt
  have hpos := h.pos
  have hleast := h.least_le
  have hsign : Sign.positive.toBitVec.toNat = 0 := rfl
  generalize hb : pack Format.binary32 (.finite .positive m e h.pos) = b
  rw [pack_finite] at hb
  split at hb
  · subst hb
    refine ⟨by decide, by decide, fun he => ?_⟩
    omega
  · split at hb
    · subst hb
      rw [toNat_packComponents, hsign, BitVec.toNat_ofNat, BitVec.toNat_ofNat]
      omega
    · have hlt : m < 2 ^ 23 := (Nat.log2_lt (Nat.ne_of_gt hpos)).1 (by omega)
      have hzero : (0 : BitVec 8).toNat = 0 := rfl
      subst hb
      rw [toNat_packComponents, hsign, hzero, BitVec.toNat_ofNat]
      omega

theorem ofResult_eq {u : UnpackedFloat} (h : u.isNaN = false) :
    ofResult (.ofModel (.pack u)) = ⟨.ofBitVec (pack Format.binary32 u)⟩ := by
  have hdefined : (Float32.ofModel (.pack u)).isNaN = false := isNaN_unpack_pack h
  rw [ofResult, hdefined, if_neg Bool.false_ne_true]
  rfl

theorem pos_ofResult (h : Fits m e) :
    (Quantity.zero : Single) < ofResult (.ofModel (.pack (.finite .positive m e h.pos))) := by
  obtain ⟨hpos, hle, -⟩ := toNat_pack h
  have hdefined := isDefined_ofResult (f := .finite .positive m e h.pos) rfl
  rw [ofResult_eq rfl] at hdefined ⊢
  have hsign : ¬ (Single.mk (.ofBitVec (pack Format.binary32
      (.finite .positive m e h.pos)))).isNegative = true := by
    rw [isNegative_iff]
    change ¬ 2 ^ 31 ≤ (pack Format.binary32 (.finite .positive m e h.pos)).toNat
    omega
  have hzero : (Quantity.zero : Single).isDefined = true ∧ (Quantity.zero : Single).position = 0 := by
    decide
  rw [lt_iff_position, hzero.2, (place_of_not_negative hsign).2]
  refine ⟨hzero.1, hdefined, ?_⟩
  change (0 : Int) < ((pack Format.binary32 (.finite .positive m e h.pos)).toNat : Int)
  omega

/-- What a pattern below that of one stands for. -/
theorem Parts.below {b : BitVec 32} {u : UnpackedFloat} (h : Parts b u)
    (hlt : b.toNat < 127 * 2 ^ 23) : (∃ s, u = .zero s) ∨
      ∃ m e, ∃ hfits : Fits m e, e ≤ -24 ∧ u = .finite .positive m e hfits.pos := by
  cases h with
  | infinity s h =>
      subst h
      cases s <;> exact absurd hlt (by decide)
  | zero s => exact .inl ⟨s, rfl⟩
  | finite s m e hm hcanonical h =>
      have hcanonical : e = max ((m.log2 : Int) + e - 23) (-149) := hcanonical
      have hfits : Fits m e :=
        ⟨hm, (Nat.log2_lt (Nat.ne_of_gt hm)).1 (by omega), by omega⟩
      have hparts : s = .positive ∧ e ≤ -24 := by
        have hsign (hs : s.toBitVec.toNat = 0) : s = .positive := by
          cases s with
          | positive => rfl
          | negative => cases hs
        rw [pack_finite] at h
        split at h
        · subst h
          cases s <;> exact absurd hlt (by decide)
        · split at h
          · subst h
            rw [toNat_packComponents, BitVec.toNat_ofNat, BitVec.toNat_ofNat] at hlt
            exact ⟨hsign (by omega), by omega⟩
          · subst h
            rw [toNat_packComponents, BitVec.toNat_ofNat] at hlt
            exact ⟨hsign (by omega), by omega⟩
      obtain ⟨rfl, he⟩ := hparts
      exact .inr ⟨m, e, hfits, he, rfl⟩

/-! ## What is left of one -/

theorem sub_eq {y : Single} (hx : x.isDefined = true) (hy : y.isDefined = true) :
    x - y = ofResult (.ofModel (.pack (UnpackedFloat.sub Format.binary32 x.parts y.parts))) := by
  have hsub : x - y = ofResult (.ofModel (.pack (UnpackedFloat.sub Format.binary32
      (unpack Format.binary32 (pack Format.binary32 x.parts))
      (unpack Format.binary32 (pack Format.binary32 y.parts))))) := by
    change lift₂ (· - ·) x y = _
    unfold lift₂
    rw [if_pos hx, if_pos hy]
    rfl
  rw [hsub, pack_parts hx, pack_parts hy]
  rfl

/-- What a number below one leaves of one is a multiple of what its last bit stands for. -/
theorem sub_one_finite (hfits : Fits m e) (he : e ≤ -24) :
    UnpackedFloat.sub Format.binary32 (.finite .positive (2 ^ 23) (-23) (by decide))
      (.finite .positive m e hfits.pos) =
        UnpackedFloat.round Format.binary32 .positive (2 ^ (-e).toNat - m) e := by
  have hmin : min (-23) e = e := by omega
  have hpow : 2 ^ 23 * 2 ^ (-23 - e).toNat = 2 ^ (-e).toNat := by
    rw [← Nat.pow_add]
    congr 1
    omega
  have hlt : m < 2 ^ (-e).toNat :=
    Nat.lt_of_lt_of_le hfits.lt (Nat.pow_le_pow_right (by decide) (by omega))
  change normalize Format.binary32
    (((2 ^ 23 <<< ((-23 : Int) - min (-23) e).toNat : Nat) : Int) -
      ((m <<< (e - min (-23) e).toNat : Nat) : Int)) (min (-23) e) .positive = _
  rw [hmin, Int.sub_self, Nat.shiftLeft_eq, hpow, Int.toNat_zero, Nat.shiftLeft_zero,
    Double.normalize_of_pos (by omega), Int.toNat_sub]

theorem exists_round (hm : 0 < m) (he : -149 ≤ e) (s : Sign) :
    ∃ m' e', ∃ hfits : Fits m' e',
      UnpackedFloat.round Format.binary32 s m e = .finite s m' e' hfits.pos := by
  obtain ⟨k, hk, hround⟩ : ∃ k : Nat, -149 ≤ e - k ∧ UnpackedFloat.round Format.binary32 s m e =
      roundWithAccuracy Format.binary32 s (m * 2 ^ k) (e - k) .exact := by
    have htarget : Format.binary32.targetExponent (totalExponent m e) =
        max ((m.log2 : Int) + 1 + e - 24) (-149) := rfl
    refine ⟨(e - Format.binary32.targetExponent (totalExponent m e)).toNat, by omega, ?_⟩
    rw [← Nat.shiftLeft_eq]
    rfl
  rw [hround]
  obtain ⟨hfits, heq⟩ := round_shift (Nat.mul_pos hm (Nat.two_pow_pos k)) hk s .exact
  exact ⟨_, _, hfits, heq⟩

/-- Something of one is left by a number below one. -/
theorem pos_one_sub (hx : x.isDefined = true) (hlt : x.bits.toNat < 127 * 2 ^ 23) :
    Quantity.zero < Quantity.one - x := by
  have hone : (Quantity.one : Single).parts = .finite .positive (2 ^ 23) (-23) (by decide) := rfl
  rw [sub_eq (by decide) hx, hone]
  rcases (parts_parts hx).below hlt with ⟨s, hs⟩ | ⟨m, e, hfits, he, hparts⟩
  · rw [hs]
    cases s <;> decide
  · have hpos : 0 < 2 ^ (-e).toNat - m := by
      have hle : 2 ^ 24 ≤ 2 ^ (-e).toNat := Nat.pow_le_pow_right (by decide) (by omega)
      have hlt := hfits.lt
      omega
    obtain ⟨_, _, hrounded, hround⟩ := exists_round hpos hfits.least_le .positive
    rw [hparts, sub_one_finite hfits he, hround]
    exact pos_ofResult hrounded

/-! ## Counts -/

/-- The bits that a count has after its first one are followed by as many zeros as there is room
for. -/
theorem mantissa_bounds (hn : 0 < n) (hlt : n < 2 ^ 24) :
    n.log2 ≤ 23 ∧ 2 ^ 23 ≤ n * 2 ^ (23 - n.log2) ∧ n * 2 ^ (23 - n.log2) < 2 ^ 24 := by
  have hlog : n.log2 < 24 := (Nat.log2_lt (Nat.ne_of_gt hn)).2 hlt
  have hmul := Double.log2_mul_two_pow hn (23 - n.log2)
  have heq : (n * 2 ^ (23 - n.log2)).log2 = 23 := by omega
  have hpos := Nat.mul_pos hn (Nat.two_pow_pos (23 - n.log2))
  exact ⟨by omega, (Nat.log2_eq_iff (Nat.ne_of_gt hpos)).1 heq⟩

theorem toNat_ofNat (hn : 0 < n) (hlt : n < 2 ^ 24) :
    (ofNat n).bits.toNat = (n.log2 + 126) * 2 ^ 23 + n * 2 ^ (23 - n.log2) := by
  obtain ⟨hlog, hlow, hhigh⟩ := mantissa_bounds hn hlt
  have hnearest : Number.Format.single.nearest false n 1 =
      (n.log2 + 126) * 2 ^ 23 + n * 2 ^ (23 - n.log2) := by
    have hmax : max (n.log2 : Int) (1 - Number.Format.single.bias) = n.log2 := by
      change max (n.log2 : Int) (-126) = _
      omega
    have hdown : (-((n.log2 : Int) - Number.Format.single.fractionBits)).toNat = 23 - n.log2 := by
      change (-((n.log2 : Int) - 23)).toNat = _
      omega
    have hup : ((n.log2 : Int) - Number.Format.single.fractionBits).toNat = 0 := by
      change ((n.log2 : Int) - 23).toNat = _
      omega
    have hfield : ((n.log2 : Int) + Number.Format.single.bias - 1).toNat = n.log2 + 126 := by
      change ((n.log2 : Int) + 127 - 1).toNat = _
      omega
    have hround : Number.roundQuotient .even (n * 2 ^ (23 - n.log2)) 1 = n * 2 ^ (23 - n.log2) := by
      simp [Number.roundQuotient, Nat.mod_one]
    unfold Number.Format.nearest
    rw [if_neg (Nat.ne_of_gt hn), Double.leadingExponent_one hn]
    dsimp only
    rw [hmax, hdown, hup, hfield, Nat.pow_zero, Nat.mul_one, hround]
    change 0 * 2 ^ 23 + min ((n.log2 + 126) * 2 ^ 23 + n * 2 ^ (23 - n.log2)) (255 * 2 ^ 23) = _
    omega
  change (UInt32.ofNat (Number.Format.single.nearest false n 1)).toNat = _
  rw [hnearest, UInt32.toNat_ofNat_of_lt']
  change _ < 2 ^ 32
  omega

theorem unpack_packComponents (s : Sign) {e : BitVec 8} (m : BitVec 23) (hpos : e.toNat ≠ 0)
    (hlt : e.toNat ≠ 255) : unpack Format.binary32 (packComponents Format.binary32 s e m) =
      .finite s (2 ^ 23 + m.toNat) (e.toNat - 150) (by omega) := by
  have hzero : ¬ e = 0#8 := fun h => hpos (h ▸ rfl)
  have htop : ¬ e = -1#8 := fun h => hlt (h ▸ rfl)
  unfold unpack
  simp only [unpackExponent_packComponents, unpackMantissa_packComponents,
    unpackSign_packComponents]
  refine ((if_neg htop).trans (if_neg hzero)).trans ?_
  cases s <;> exact Double.finite_congr (toNat_one_append m) rfl _ _

/-- A count is a number in single precision. -/
theorem parts_ofNat (hn : 0 < n) (hlt : n < 2 ^ 24) : (ofNat n).parts =
    .finite .positive (n * 2 ^ (23 - n.log2)) (n.log2 - 23)
      (Nat.mul_pos hn (Nat.two_pow_pos _)) := by
  obtain ⟨hlog, hlow, hhigh⟩ := mantissa_bounds hn hlt
  have hpattern : (ofNat n).bits.toBitVec = packComponents Format.binary32 .positive
      (BitVec.ofNat 8 (n.log2 + 127)) (BitVec.ofNat 23 (n * 2 ^ (23 - n.log2))) := by
    have hsign : Sign.positive.toBitVec.toNat = 0 := rfl
    apply BitVec.eq_of_toNat_eq
    rw [toNat_packComponents, hsign, BitVec.toNat_ofNat, BitVec.toNat_ofNat]
    refine (toNat_ofNat hn hlt).trans ?_
    omega
  have hexponent : (BitVec.ofNat 8 (n.log2 + 127)).toNat = n.log2 + 127 := by
    rw [BitVec.toNat_ofNat]
    omega
  rw [parts, hpattern, unpack_packComponents _ _ (by omega) (by omega)]
  refine Double.finite_congr ?_ ?_ _ _
  · rw [BitVec.toNat_ofNat]
    omega
  · rw [hexponent]
    omega

theorem isDefined_ofNat (hn : 0 < n) (hlt : n < 2 ^ 24) : (ofNat n).isDefined = true := by
  rw [isDefined_iff_parts, parts_ofNat hn hlt]
  rfl

/-! ## Shares -/

/-- The quotient of two counts is computed to a bit more than there is room for. -/
theorem divCore_counts (hd : 0 < d) (hle : d ≤ n) (hlt : n < 2 ^ 24) :
    divCore Format.binary32 (d * 2 ^ (23 - d.log2)) (d.log2 - 23)
      (n * 2 ^ (23 - n.log2)) (n.log2 - 23) =
        (d * 2 ^ (23 - d.log2) * 2 ^ 24 / (n * 2 ^ (23 - n.log2)), (d.log2 : Int) - n.log2 - 24,
          accuracyOfFraction (d * 2 ^ (23 - d.log2) * 2 ^ 24 % (n * 2 ^ (23 - n.log2)))
            (n * 2 ^ (23 - n.log2))) := by
  have hn : 0 < n := Nat.lt_of_lt_of_le hd hle
  have hlog := (mantissa_bounds hn hlt).1
  have hlog' := (mantissa_bounds hd (Nat.lt_of_le_of_lt hle hlt)).1
  have hleading := Double.log2_mul_two_pow hn (23 - n.log2)
  have hleading' := Double.log2_mul_two_pow hd (23 - d.log2)
  have htarget : Format.binary32.targetExponent
      (totalExponent (d * 2 ^ (23 - d.log2)) (d.log2 - 23) -
        totalExponent (n * 2 ^ (23 - n.log2)) (n.log2 - 23)) = (d.log2 : Int) - n.log2 - 24 := by
    change max ((((d * 2 ^ (23 - d.log2)).log2 : Int) + 1 + (d.log2 - 23) -
      ((n * 2 ^ (23 - n.log2)).log2 + 1 + (n.log2 - 23))) - 24) (-149) = _
    omega
  have hmin : min ((d.log2 : Int) - 23 - (n.log2 - 23)) (d.log2 - n.log2 - 24) =
      d.log2 - n.log2 - 24 := by omega
  have hshift : ((d.log2 : Int) - 23 - (n.log2 - 23) - (d.log2 - n.log2 - 24)).toNat = 24 := by
    omega
  unfold divCore
  rw [htarget]
  dsimp only
  rw [hmin, hshift, Nat.shiftLeft_eq]

theorem div_counts (hd : 0 < d) (hle : d ≤ n) (hlt : n < 2 ^ 24) : ofNat d / ofNat n =
    ofResult (.ofModel (.pack (roundWithAccuracy Format.binary32 .positive
      (d * 2 ^ (23 - d.log2) * 2 ^ 24 / (n * 2 ^ (23 - n.log2))) ((d.log2 : Int) - n.log2 - 24)
      (accuracyOfFraction (d * 2 ^ (23 - d.log2) * 2 ^ 24 % (n * 2 ^ (23 - n.log2)))
        (n * 2 ^ (23 - n.log2)))))) := by
  have hn : 0 < n := Nat.lt_of_lt_of_le hd hle
  have hlt' : d < 2 ^ 24 := Nat.lt_of_le_of_lt hle hlt
  rw [div_eq (isDefined_ofNat hd hlt') (isDefined_ofNat hn hlt), parts_ofNat hd hlt',
    parts_ofNat hn hlt]
  change ofResult (.ofModel (.pack (roundWithAccuracy Format.binary32 .positive
    (divCore _ _ _ _ _).1 (divCore _ _ _ _ _).2.1 (divCore _ _ _ _ _).2.2))) = _
  rw [divCore_counts hd hle hlt]

/-- A share that is less than the whole is rounded to a number below one. -/
theorem share_lt_one (hd : 0 < d) (h : d < n) (hlt : n < 2 ^ 24) :
    (ofNat d / ofNat n).isDefined = true ∧ (ofNat d / ofNat n).bits.toNat < 127 * 2 ^ 23 := by
  obtain ⟨hlog, hlow, hhigh⟩ := mantissa_bounds (Nat.zero_lt_of_lt h) hlt
  obtain ⟨hlog', hlow', -⟩ := mantissa_bounds hd (Nat.lt_trans h hlt)
  have hpos : 0 < d * 2 ^ (23 - d.log2) * 2 ^ 24 / (n * 2 ^ (23 - n.log2)) :=
    Nat.div_pos (by omega) (by omega)
  have hmono : d.log2 ≤ n.log2 := by
    refine (Nat.le_log2 (by omega)).2 (Nat.le_trans ?_ h.le)
    exact Nat.log2_self_le (Nat.ne_of_gt hd)
  have hshort : d * 2 ^ (23 - d.log2) * 2 ^ 24 / (n * 2 ^ (23 - n.log2)) +
      2 ^ (-((d.log2 : Int) - n.log2 - 24) - 24).toNat <
        2 ^ (-((d.log2 : Int) - n.log2 - 24)).toNat := by
    obtain ⟨j, hj⟩ := Nat.exists_eq_add_of_le hmono
    have hlast : (-((d.log2 : Int) - n.log2 - 24) - 24).toNat = j := by omega
    have hfirst : (-((d.log2 : Int) - n.log2 - 24)).toNat = 24 + j := by omega
    have hplaces : 23 - d.log2 = j + (23 - n.log2) := by omega
    have hquotient : d * 2 ^ (23 - d.log2) * 2 ^ 24 / (n * 2 ^ (23 - n.log2)) <
        (2 ^ 24 - 1) * 2 ^ j := by
      refine Nat.div_lt_of_lt_mul ?_
      calc d * 2 ^ (23 - d.log2) * 2 ^ 24
          = d * 2 ^ 24 * 2 ^ (23 - d.log2) := Nat.mul_right_comm ..
        _ < n * (2 ^ 24 - 1) * 2 ^ (23 - d.log2) :=
          Nat.mul_lt_mul_of_pos_right (by omega) (Nat.two_pow_pos _)
        _ = n * 2 ^ (23 - n.log2) * ((2 ^ 24 - 1) * 2 ^ j) := by
          rw [hplaces, Nat.pow_add]
          ac_rfl
    have hone := Nat.two_pow_pos j
    rw [hlast, hfirst, Nat.pow_add]
    omega
  obtain ⟨m, e, hfits, he, hround⟩ := round_below hpos (by omega) (by omega) hshort .positive
    (accuracyOfFraction (d * 2 ^ (23 - d.log2) * 2 ^ 24 % (n * 2 ^ (23 - n.log2)))
      (n * 2 ^ (23 - n.log2)))
  have hbelow := (toNat_pack hfits).2.2 he
  rw [div_counts hd h.le hlt, hround]
  refine ⟨isDefined_ofResult rfl, ?_⟩
  rw [ofResult_eq rfl]
  exact hbelow

/-- The whole is one. -/
theorem ofNat_div_self (hn : 0 < n) (hlt : n < 2 ^ 24) : ofNat n / ofNat n = Quantity.one := by
  have hpos : 0 < n * 2 ^ (23 - n.log2) := Nat.mul_pos hn (Nat.two_pow_pos _)
  have hexponent : (n.log2 : Int) - n.log2 - 24 = -24 := by omega
  have hround : roundWithAccuracy Format.binary32 .positive (2 ^ 24) (-24) .exact =
      .finite .positive (2 ^ 23) (-23) (by decide) := rfl
  rw [div_counts hn (Nat.le_refl n) hlt, Nat.mul_div_cancel_left _ hpos, Nat.mul_mod_right,
    hexponent]
  change ofResult (.ofModel (.pack (roundWithAccuracy _ _ _ _ .exact))) = _
  rw [hround]
  decide

/-- Something of one is left by a share exactly if it is not the whole. -/
theorem pos_one_sub_share_iff (hn : 0 < n) (hle : d ≤ n) (hlt : n < 2 ^ 24) :
    Quantity.zero < Quantity.one - ofNat d / ofNat n ↔ d < n := by
  constructor
  · intro h
    refine Nat.lt_of_le_of_ne hle fun heq => ?_
    subst heq
    rw [ofNat_div_self hn hlt] at h
    exact absurd h (by decide)
  · intro h
    rcases Nat.eq_zero_or_pos d with rfl | hd
    · have hzero : ofNat 0 / ofNat n = Quantity.zero := by
        have hnone : (ofNat 0).parts = .zero .positive := rfl
        rw [div_eq (by decide) (isDefined_ofNat hn hlt), hnone, parts_ofNat hn hlt]
        change ofResult (.ofModel (.pack (.zero .positive))) = _
        decide
      rw [hzero]
      decide
    · obtain ⟨hdefined, hbelow⟩ := share_lt_one hd h hlt
      exact pos_one_sub hdefined hbelow

end VectorQuery.Single
