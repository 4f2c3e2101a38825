/-
# Quotients of counts

A part of a whole is computed as the quotient of two rounded counts.  It is not negative, and if the
part is not larger than the whole, neither is what it leaves of one: rounding does not exchange two
numbers, and one is a number that needs no rounding.
-/
import VectorQuery.Proofs.Number.Double

namespace VectorQuery.Double

open Float.Model (Format)
open Float.Model.UnpackedFloat
open Float.Model (UnpackedFloat totalExponent)

/-! ## Patterns without a sign -/

/-- No part of the number has a sign. -/
def Plus : UnpackedFloat → Prop
  | .notANumber => True
  | .infinity s => s = .positive
  | .zero s => s = .positive
  | .finite s _ _ _ => s = .positive

theorem plus_ite {c : Prop} [Decidable c] {u v : UnpackedFloat} (hu : Plus u) (hv : Plus v) :
    Plus (if c then u else v) := by
  split
  · exact hu
  · exact hv

theorem plus_dite {c : Prop} [Decidable c] {u : c → UnpackedFloat} {v : ¬ c → UnpackedFloat}
    (hu : ∀ h, Plus (u h)) (hv : ∀ h, Plus (v h)) : Plus (dite c u v) := by
  split
  · exact hu _
  · exact hv _

/-- The parts of a pattern without a sign. -/
theorem toNat_parts {b : BitVec 64} (h : b.toNat < 2 ^ 63) :
    (@unpackExponent Format.binary64 b).toNat = b.toNat / 2 ^ 52 ∧
      (@unpackMantissa Format.binary64 b).toNat = b.toNat % 2 ^ 52 := by
  constructor
  · change (b.toNat >>> 52) % 2 ^ 11 = _
    rw [Nat.shiftRight_eq_div_pow, Nat.mod_eq_of_lt (by omega)]
  · change (b.toNat >>> 0) % 2 ^ 52 = _
    rw [Nat.shiftRight_zero]

theorem unpackSign_eq {b : BitVec 64} (h : b.toNat < 2 ^ 63) :
    @unpackSign Format.binary64 b = 0#1 := by
  apply BitVec.eq_of_toNat_eq
  change (b.toNat >>> 63) % 2 = 0
  rw [Nat.shiftRight_eq_div_pow, Nat.div_eq_of_lt h]

theorem toNat_one_append (m : BitVec 52) : (1#1 ++ m).toNat = 2 ^ 52 + m.toNat := by
  rw [BitVec.toNat_append, ← Nat.shiftLeft_add_eq_or_of_lt (BitVec.isLt _)]
  rfl

theorem unpack_eq (b : BitVec 64) : unpack Format.binary64 b =
    if @unpackExponent Format.binary64 b = -1#11 then
      if @unpackMantissa Format.binary64 b = 0#52 then
        .infinity (.ofBitVec (@unpackSign Format.binary64 b))
      else .notANumber
    else if @unpackExponent Format.binary64 b = 0#11 then
      if h : @unpackMantissa Format.binary64 b = 0#52 then
        .zero (.ofBitVec (@unpackSign Format.binary64 b))
      else
        .finite (.ofBitVec (@unpackSign Format.binary64 b))
          (@unpackMantissa Format.binary64 b).toNat
          ((@unpackExponent Format.binary64 b).toNat - 1075 + 1)
          (Nat.pos_of_ne_zero fun heq => h (BitVec.eq_of_toNat_eq heq))
    else
      .finite (.ofBitVec (@unpackSign Format.binary64 b))
        (1#1 ++ @unpackMantissa Format.binary64 b).toNat
        ((@unpackExponent Format.binary64 b).toNat - 1075)
        (Nat.lt_of_lt_of_eq (by omega) (toNat_one_append _).symm) := rfl

theorem plus_unpack {b : BitVec 64} (h : b.toNat < 2 ^ 63) : Plus (unpack Format.binary64 b) := by
  have hsign : Sign.ofBitVec (@unpackSign Format.binary64 b) = .positive := by
    rw [unpackSign_eq h]
    rfl
  rw [unpack_eq, hsign]
  exact plus_ite (plus_ite rfl trivial) (plus_ite (plus_dite (fun _ => rfl) fun _ => rfl) rfl)

@[simp] theorem toNat_positive : Sign.positive.toBitVec.toNat = 0 := rfl

@[simp] theorem toNat_negative : Sign.negative.toBitVec.toNat = 1 := rfl

theorem toNat_packComponents (s : Sign) (e : BitVec 11) (m : BitVec 52) :
    (packComponents Format.binary64 s e m).toNat =
      s.toBitVec.toNat * 2 ^ 63 + (e.toNat * 2 ^ 52 + m.toNat) := by
  change (s.toBitVec ++ e ++ m).toNat = _
  rw [BitVec.toNat_append, BitVec.toNat_append, ← Nat.shiftLeft_add_eq_or_of_lt m.isLt,
    ← Nat.shiftLeft_add_eq_or_of_lt e.isLt, Nat.shiftLeft_eq, Nat.shiftLeft_eq]
  omega

theorem pack_finite (s : Sign) (m : Nat) (e : Int) (hm : 0 < m) :
    pack Format.binary64 (.finite s m e hm) =
      if 2 ^ 11 ≤ (e + 1023 + 52).toNat + 1 then packedInfinity Format.binary64 s
      else if m.log2 + 1 = 53 then
        packComponents Format.binary64 s (BitVec.ofNat 11 (e + 1023 + 52).toNat) (BitVec.ofNat 52 m)
      else packComponents Format.binary64 s 0 (BitVec.ofNat 52 m) := rfl

theorem toNat_pack_lt {u : UnpackedFloat} (h : Plus u) :
    (pack Format.binary64 u).toNat < 2 ^ 63 := by
  have hcomponents : ∀ (e : BitVec 11) (m : BitVec 52),
      (packComponents Format.binary64 .positive e m).toNat < 2 ^ 63 := by
    intro e m
    rw [toNat_packComponents, toNat_positive]
    have := e.isLt
    have := m.isLt
    omega
  cases u with
  | notANumber => exact hcomponents _ _
  | infinity s =>
      cases h
      exact hcomponents _ _
  | zero s =>
      cases h
      exact hcomponents _ _
  | finite s m e hm =>
      cases h
      rw [pack_finite]
      split
      · exact hcomponents _ _
      · split <;> exact hcomponents _ _

/-- A result without a sign is not negative. -/
theorem not_ofResult_lt_zero {u : UnpackedFloat} (h : Plus u) :
    ¬ ofResult (.ofModel (.pack u)) < 0 := by
  unfold ofResult
  split
  · decide
  · have hbits : Nonneg ⟨(Float.ofModel (.pack u)).toBits⟩ := toNat_pack_lt h
    rw [show (0 : Double) = ⟨0⟩ from zero_eq, lt_iff]
    rintro ⟨-, -, -, hplace⟩
    rw [toNat_place hbits, toNat_place nonneg_zero] at hplace
    change 2 ^ 63 + _ < 2 ^ 63 + 0 at hplace
    omega

theorem plus_round (q : Nat) (e : Int) (accuracy : Accuracy) :
    Plus (roundWithAccuracy Format.binary64 .positive q e accuracy) :=
  plus_dite (fun _ => rfl) fun _ => rfl

theorem plus_div {u v : UnpackedFloat} (hu : Plus u) (hv : Plus v) :
    Plus (div Format.binary64 u v) := by
  cases u <;> cases v <;> cases hu <;> cases hv <;>
    first | exact trivial | exact rfl | exact plus_round _ _ _

/-! ## Finite numbers -/

theorem finite_congr {s : Sign} {m m' : Nat} {e e' : Int} (hm : m = m') (he : e = e')
    (hpos : 0 < m) (hpos' : 0 < m') :
    UnpackedFloat.finite s m e hpos = .finite s m' e' hpos' := by
  subst hm he
  rfl

theorem unpack_of_normal {b : BitVec 64} {e m : Nat} (hb : b.toNat = (e + 1) * 2 ^ 52 + m)
    (hm : m < 2 ^ 52) (he : e < 2046) :
    unpack Format.binary64 b = .finite .positive (2 ^ 52 + m) (e - 1074) (by omega) := by
  obtain ⟨hexponent, hmantissa⟩ := toNat_parts (b := b) (by omega)
  have hsign := unpackSign_eq (b := b) (by omega)
  have hnone : @unpackExponent Format.binary64 b ≠ -1#11 := by
    intro heq
    rw [heq] at hexponent
    change 2047 = _ at hexponent
    omega
  have hzero : @unpackExponent Format.binary64 b ≠ 0#11 := by
    intro heq
    rw [heq] at hexponent
    change 0 = _ at hexponent
    omega
  have hmantissa' : (1#1 ++ @unpackMantissa Format.binary64 b).toNat = 2 ^ 52 + m := by
    rw [toNat_one_append, hmantissa, hb]
    omega
  rw [unpack_eq, if_neg hnone, if_neg hzero, hsign]
  refine finite_congr hmantissa' ?_ _ _
  rw [hexponent]
  omega

theorem unpack_of_subnormal {b : BitVec 64} (h : b.toNat < 2 ^ 52) (hpos : 0 < b.toNat) :
    unpack Format.binary64 b = .finite .positive b.toNat (-1074) hpos := by
  obtain ⟨hexponent, hmantissa⟩ := toNat_parts (b := b) (by omega)
  have hsign := unpackSign_eq (b := b) (by omega)
  have hzero : @unpackExponent Format.binary64 b = 0#11 := by
    apply BitVec.eq_of_toNat_eq
    rw [hexponent, Nat.div_eq_of_lt h]
    rfl
  have hne : @unpackMantissa Format.binary64 b ≠ 0#52 := by
    intro heq
    rw [heq] at hmantissa
    change 0 = _ at hmantissa
    omega
  rw [unpack_eq, hzero, if_neg (by decide), if_pos rfl, dif_neg hne, hsign]
  refine finite_congr ?_ rfl _ _
  rw [hmantissa, Nat.mod_eq_of_lt h]

/-- A mantissa and an exponent as a pattern holds them. -/
structure Canonical (m : Nat) (e : Int) : Prop where
  lt : m < 2 ^ 53
  least_le : -1074 ≤ e
  normal : -1074 < e → 2 ^ 52 ≤ m

/-- The pattern of a mantissa and an exponent, that of infinity where they are out of range. -/
def patternOf (m : Nat) (e : Int) : Nat := min ((e + 1074).toNat * 2 ^ 52 + m) (2047 * 2 ^ 52)

/-- The pattern of a number below the normal ones is its mantissa. -/
theorem patternOf_least {m : Nat} (h : m < 2 ^ 53) : patternOf m (-1074) = m := by
  have hzero : ((-1074 : Int) + 1074).toNat = 0 := rfl
  unfold patternOf
  rw [hzero]
  omega

/-- The pattern of a normal number leaves out the first bit of its mantissa. -/
theorem patternOf_normal {k m : Nat} (hk : k < 2046) (hm : m < 2 ^ 52) :
    patternOf (2 ^ 52 + m) (k - 1074) = (k + 1) * 2 ^ 52 + m := by
  have hexponent : ((k : Int) - 1074 + 1074).toNat = k := by omega
  unfold patternOf
  rw [hexponent]
  omega

theorem toNat_pack_canonical {m : Nat} {e : Int} (h : Canonical m e) (s : Sign) (hm : 0 < m) :
    (pack Format.binary64 (.finite s m e hm)).toNat =
      s.toBitVec.toNat * 2 ^ 63 + patternOf m e := by
  obtain ⟨hlt, hleast, hnormal⟩ := h
  have hlog : m.log2 + 1 = 53 ↔ 2 ^ 52 ≤ m := by
    have hlt' : m.log2 < 53 := (Nat.log2_lt (Nat.ne_of_gt hm)).2 hlt
    rw [← Nat.le_log2 (Nat.ne_of_gt hm)]
    omega
  unfold patternOf
  rw [pack_finite]
  split
  · rename_i hover
    refine (toNat_packComponents _ _ _).trans ?_
    change _ + (2047 * 2 ^ 52 + 0) = _
    omega
  · rename_i hin
    split
    · rename_i hfull
      have hfull := hlog.1 hfull
      refine (toNat_packComponents _ _ _).trans ?_
      rw [BitVec.toNat_ofNat, BitVec.toNat_ofNat]
      omega
    · rename_i hsmall
      have hsmall := mt hlog.2 hsmall
      refine (toNat_packComponents _ _ _).trans ?_
      rw [BitVec.toNat_ofNat]
      change _ + (0 * 2 ^ 52 + m % 2 ^ 52) = _
      omega

/-- A finite pattern without a sign is that of the number it stands for. -/
theorem pack_unpack {b : BitVec 64} (h : b.toNat < 2047 * 2 ^ 52) :
    pack Format.binary64 (unpack Format.binary64 b) = b := by
  apply BitVec.eq_of_toNat_eq
  rcases Nat.eq_zero_or_pos b.toNat with hzero | hpos
  · obtain rfl : b = 0 := BitVec.eq_of_toNat_eq hzero
    rfl
  · rcases Nat.lt_or_ge b.toNat (2 ^ 52) with hlt | hge
    · rw [unpack_of_subnormal hlt hpos]
      have hcanonical : Canonical b.toNat (-1074) :=
        ⟨by omega, by decide, fun h => absurd h (by decide)⟩
      refine (toNat_pack_canonical hcanonical .positive hpos).trans ?_
      rw [patternOf_least (by omega), toNat_positive]
      omega
    · have hsplit : b.toNat = (b.toNat / 2 ^ 52 - 1 + 1) * 2 ^ 52 + b.toNat % 2 ^ 52 := by omega
      rw [unpack_of_normal hsplit (by omega) (by omega)]
      have hcanonical : Canonical (2 ^ 52 + b.toNat % 2 ^ 52)
          ((b.toNat / 2 ^ 52 - 1 : Nat) - 1074) :=
        ⟨by omega, by omega, fun _ => Nat.le_add_right ..⟩
      refine (toNat_pack_canonical hcanonical .positive _).trans ?_
      rw [patternOf_normal (by omega) (by omega), toNat_positive]
      omega

/-! ## Numbers up to one -/

/-- The number is not greater than one. -/
def AtMostOne : UnpackedFloat → Prop
  | .zero s => s = .positive
  | .finite s m e _ => s = .positive ∧ e ≤ -52 ∧ m ≤ 2 ^ (-e).toNat
  | _ => False

theorem atMostOne_dite {c : Prop} [Decidable c] {u : c → UnpackedFloat} {v : ¬ c → UnpackedFloat}
    (hu : ∀ h, AtMostOne (u h)) (hv : ∀ h, AtMostOne (v h)) : AtMostOne (dite c u v) := by
  split
  · exact hu _
  · exact hv _

theorem atMostOne_unpack {b : BitVec 64} (h : b.toNat ≤ 1023 * 2 ^ 52) :
    AtMostOne (unpack Format.binary64 b) := by
  rcases Nat.eq_zero_or_pos b.toNat with hzero | hpos
  · obtain rfl : b = 0 := BitVec.eq_of_toNat_eq hzero
    exact rfl
  · rcases Nat.lt_or_ge b.toNat (2 ^ 52) with hlt | hge
    · rw [unpack_of_subnormal hlt hpos]
      exact ⟨rfl, by omega, Nat.le_of_lt (Nat.lt_of_lt_of_le hlt (Nat.pow_le_pow_right (by omega)
        (by omega)))⟩
    · have hsplit : b.toNat = (b.toNat / 2 ^ 52 - 1 + 1) * 2 ^ 52 + b.toNat % 2 ^ 52 := by omega
      rw [unpack_of_normal hsplit (by omega) (by omega)]
      refine ⟨rfl, by omega, ?_⟩
      rcases Nat.lt_or_ge b.toNat (1023 * 2 ^ 52) with hlt | hone
      · have hpow : 2 ^ 53 ≤ 2 ^ (-((b.toNat / 2 ^ 52 - 1 : Nat) - 1074 : Int)).toNat :=
          Nat.pow_le_pow_right (by omega) (by omega)
        omega
      · have hone : b.toNat = 1023 * 2 ^ 52 := Nat.le_antisymm h hone
        rw [hone]
        decide

theorem toNat_pack_le {u : UnpackedFloat} (h : AtMostOne u) :
    (pack Format.binary64 u).toNat ≤ 1023 * 2 ^ 52 := by
  cases u with
  | notANumber => cases h
  | infinity s => cases h
  | zero s =>
      cases h
      decide
  | finite s m e hm =>
      obtain ⟨rfl, he, hle⟩ := h
      have hbiased : (e + 1023 + 52).toNat = (e + 1075).toNat := by omega
      rw [pack_finite, hbiased, if_neg (by omega)]
      split
      · rename_i hlog
        refine Nat.le_trans (Nat.le_of_eq (toNat_packComponents _ _ _)) ?_
        rw [toNat_positive, BitVec.toNat_ofNat, BitVec.toNat_ofNat]
        rcases Int.lt_or_eq_of_le he with hlt | rfl
        · omega
        · change m.log2 + 1 = 53 at hlog
          have hge : 2 ^ 52 ≤ m := (Nat.le_log2 (Nat.ne_of_gt hm)).1 (by omega)
          change m ≤ 2 ^ 52 at hle
          obtain rfl : m = 2 ^ 52 := Nat.le_antisymm hle hge
          decide
      · refine Nat.le_trans (Nat.le_of_eq (toNat_packComponents _ _ _)) ?_
        rw [toNat_positive, BitVec.toNat_ofNat]
        change 0 * 2 ^ 63 + (0 * 2 ^ 52 + m % 2 ^ 52) ≤ _
        omega

theorem normalize_of_neg {spec : Format} {n : Int} (h : n < 0) (e : Int) (s : Sign) :
    UnpackedFloat.normalize spec n e s = round spec .negative (-n).toNat e := by
  rw [UnpackedFloat.normalize, Int.compare_eq_lt.2 h]

theorem normalize_zero {spec : Format} (e : Int) (s : Sign) :
    UnpackedFloat.normalize spec 0 e s = .zero s := rfl

theorem normalize_of_pos {spec : Format} {n : Int} (h : 0 < n) (e : Int) (s : Sign) :
    UnpackedFloat.normalize spec n e s = round spec .positive n.toNat e := by
  rw [UnpackedFloat.normalize, Int.compare_eq_gt.2 h]

theorem plus_normalize {n : Int} (h : 0 ≤ n) (e : Int) :
    Plus (UnpackedFloat.normalize Format.binary64 n e .positive) := by
  rcases Int.le_iff_eq_or_lt.1 h with rfl | hpos
  · rw [normalize_zero]
    rfl
  · rw [normalize_of_pos hpos]
    exact plus_round _ _ _

/-- What a number up to one leaves of one has no sign. -/
theorem plus_one_sub {u : UnpackedFloat} (h : AtMostOne u) :
    Plus (sub Format.binary64 (.finite .positive (2 ^ 52) (-52) (by decide)) u) := by
  cases u with
  | notANumber => cases h
  | infinity s => cases h
  | zero s => exact rfl
  | finite s m e hm =>
      obtain ⟨rfl, he, hle⟩ := h
      have hmantissa : (0 : Int) ≤
          ((2 ^ 52 <<< ((-52 : Int) - min (-52) e).toNat : Nat) : Int) -
            ((m <<< (e - min (-52) e).toNat : Nat) : Int) := by
        rw [Int.min_eq_right he, Int.sub_self, Nat.shiftLeft_eq, ← Nat.pow_add]
        have hexponent : 52 + (-52 - e).toNat = (-e).toNat := by omega
        rw [hexponent]
        simp only [Int.toNat_zero, Nat.shiftLeft_zero]
        omega
      exact plus_normalize hmantissa (min (-52) e)

theorem mantissa_shiftRight (em : ExtendedMantissa) (n : Nat) :
    (em >>> n).mantissa = em.mantissa / 2 ^ n := by
  change (n.repeat ExtendedMantissa.shiftRightOne em).mantissa = _
  induction n with
  | zero => simp [Nat.repeat]
  | succ n ih =>
      rw [Nat.repeat, ExtendedMantissa.shiftRightOne, ih, Nat.div_div_eq_div_mul, Nat.pow_succ]

theorem roundedMantissa_le (em : ExtendedMantissa) : em.roundedMantissa ≤ em.mantissa + 1 := by
  obtain ⟨m, r, s⟩ := em
  cases r <;> cases s <;> simp [ExtendedMantissa.roundedMantissa, ExtendedMantissa.accuracy,
    Accuracy.roundToNearestEven]
  omega

theorem mantissa_ofMantissaAndAccuracy (m : Nat) (accuracy : Accuracy) :
    (ExtendedMantissa.ofMantissaAndAccuracy m accuracy).mantissa = m := by
  unfold ExtendedMantissa.ofMantissaAndAccuracy
  split <;> rfl

/-- Shifting a number below `2 ^ k` drops no more than the bits that its place allows. -/
theorem shift_spec (m : Nat) (e : Int) (accuracy : Accuracy) :
    ∃ n : Nat, (shiftToTargetExponent Format.binary64 m e accuracy).1.mantissa = m / 2 ^ n ∧
      (shiftToTargetExponent Format.binary64 m e accuracy).2 = e + n ∧
      e + n = max e (max (m.log2 + 1 + e - 53) (-1074)) := by
  refine ⟨_, ?_, rfl, ?_⟩
  · change (_ >>> _ : ExtendedMantissa).mantissa = _
    rw [mantissa_shiftRight, mantissa_ofMantissaAndAccuracy]
  · change e + ((max ((m.log2 : Int) + 1 + e - 53) (-1074) - e).toNat : Int) = _
    omega

theorem log2_lt_of_lt {q n : Nat} (hn : 0 < n) (hq : q < 2 ^ n) : q.log2 < n := by
  rcases Nat.eq_zero_or_pos q with rfl | hpos
  · exact hn
  · exact (Nat.log2_lt (Nat.ne_of_gt hpos)).2 hq

theorem round_eq (s : Sign) (m : Nat) (e : Int) (accuracy : Accuracy) :
    roundWithAccuracy Format.binary64 s m e accuracy =
      let first := shiftToTargetExponent Format.binary64 m e accuracy
      let second := shiftToTargetExponent Format.binary64 first.1.roundedMantissa first.2 .exact
      if h : second.1.mantissa = 0 then .zero s
      else .finite s second.1.mantissa second.2 (Nat.pos_of_ne_zero h) := rfl

/-- A quotient that is below one is rounded to a number up to one. -/
theorem atMostOne_round {q : Nat} {e : Int} (he : e ≤ -53) (hq : q < 2 ^ (-e).toNat)
    (accuracy : Accuracy) :
    AtMostOne (roundWithAccuracy Format.binary64 .positive q e accuracy) := by
  obtain ⟨n, hm₁, he₁, hmax₁⟩ := shift_spec q e accuracy
  generalize hfirst : shiftToTargetExponent Format.binary64 q e accuracy = first at hm₁ he₁
  have hlog := log2_lt_of_lt (n := (-e).toNat) (by omega) hq
  -- rounding up reaches one at most
  have hround : first.1.roundedMantissa ≤ 2 ^ (-(e + n)).toNat := by
    refine Nat.le_trans (roundedMantissa_le _) ?_
    rw [hm₁]
    refine Nat.succ_le_of_lt (Nat.div_lt_of_lt_mul ?_)
    rw [← Nat.pow_add]
    have hexponent : n + (-(e + n)).toNat = (-e).toNat := by omega
    rwa [hexponent]
  have hlog' : first.1.roundedMantissa.log2 ≤ (-(e + n)).toNat := by
    rcases Nat.eq_zero_or_pos first.1.roundedMantissa with hzero | hpos
    · rw [hzero]
      exact Nat.zero_le _
    · refine (Nat.pow_le_pow_iff_right (by omega)).1 (Nat.le_trans ?_ hround)
      exact Nat.log2_self_le (Nat.ne_of_gt hpos)
  obtain ⟨k, hm₂, he₂, hmax₂⟩ := shift_spec first.1.roundedMantissa (e + n) .exact
  obtain ⟨em, e'⟩ := first
  subst he₁
  rw [round_eq, hfirst]
  refine atMostOne_dite (fun _ => rfl) fun hne => ?_
  change _ ∧ (shiftToTargetExponent _ _ (e + n) .exact).2 ≤ -52 ∧
    (shiftToTargetExponent _ _ (e + n) .exact).1.mantissa ≤ _
  refine ⟨rfl, ?_, ?_⟩
  · rw [he₂]
    omega
  · rw [hm₂, he₂]
    refine Nat.div_le_of_le_mul (Nat.le_trans hround ?_)
    rw [← Nat.pow_add]
    exact Nat.pow_le_pow_right (by omega) (by omega)

theorem divCore_normal {m m' : Nat} (hm : m.log2 = 52) (hm' : m'.log2 = 52) (e e' : Int) :
    ∃ n : Nat, ∃ k : Int, divCore Format.binary64 m e m' e' =
        (m * 2 ^ n / m', k, accuracyOfFraction (m * 2 ^ n % m') m') ∧
      e - e' = k + n ∧ k = min (e - e') (max (e - e' - 53) (-1074)) := by
  have htarget : Format.binary64.targetExponent (totalExponent m e - totalExponent m' e') =
      max (e - e' - 53) (-1074) := by
    unfold totalExponent
    rw [hm, hm']
    change max (_ - (53 : Int)) (-1074) = _
    congr 1
    omega
  unfold divCore
  rw [htarget]
  dsimp only
  rw [Nat.shiftLeft_eq]
  exact ⟨_, _, rfl, by omega, rfl⟩

/-- The quotient of two normal numbers, the first of which is not greater. -/
theorem atMostOne_div_normal {m m' : Nat} {e e' : Int} (hm : 2 ^ 52 ≤ m) (hm' : m < 2 ^ 53)
    (hn : 2 ^ 52 ≤ m') (hn' : m' < 2 ^ 53) (hle : e < e' ∨ (e = e' ∧ m ≤ m')) :
    AtMostOne (div Format.binary64 (.finite .positive m e (by omega))
      (.finite .positive m' e' (by omega))) := by
  have hlog : m.log2 = 52 := (Nat.log2_eq_iff (by omega)).2 ⟨hm, hm'⟩
  have hlog' : m'.log2 = 52 := (Nat.log2_eq_iff (by omega)).2 ⟨hn, hn'⟩
  obtain ⟨n, k, hcore, hn, hk⟩ := divCore_normal hlog hlog' e e'
  have hpos : 0 < m' := by omega
  change AtMostOne (roundWithAccuracy Format.binary64 .positive (divCore Format.binary64 m e m' e').1
    (divCore Format.binary64 m e m' e').2.1 (divCore Format.binary64 m e m' e').2.2)
  rw [hcore]
  by_cases hsame : e = e' ∧ m = m'
  · obtain ⟨rfl, rfl⟩ := hsame
    obtain rfl : k = -53 := by omega
    obtain rfl : n = 53 := by omega
    have hone : roundWithAccuracy Format.binary64 .positive (2 ^ 53) (-53) .exact =
        .finite .positive (2 ^ 52) (-52) (by decide) := rfl
    dsimp only
    rw [Nat.mul_div_cancel_left _ hpos, Nat.mul_mod_right]
    change AtMostOne (roundWithAccuracy _ _ _ _ .exact)
    rw [hone]
    exact ⟨rfl, by decide, by decide⟩
  · dsimp only
    refine atMostOne_round (by omega) ?_ _
    rw [Nat.div_lt_iff_lt_mul hpos]
    have hexponent : (-k).toNat = n + (e' - e).toNat := by omega
    rw [hexponent, Nat.pow_add, Nat.mul_comm m, Nat.mul_assoc]
    refine Nat.mul_lt_mul_of_pos_left ?_ (Nat.two_pow_pos n)
    rcases hle with hlt | ⟨rfl, hle⟩
    · have hpow : 2 ^ 1 ≤ 2 ^ (e' - e).toNat := Nat.pow_le_pow_right (by omega) (by omega)
      have hmul := Nat.mul_le_mul_right m' hpow
      omega
    · rw [Int.sub_self]
      have hne : m ≠ m' := fun heq => hsame ⟨rfl, heq⟩
      change m < 2 ^ 0 * m'
      omega

theorem atMostOne_div {b c : BitVec 64} (hb : 2 ^ 52 ≤ b.toNat) (hbc : b.toNat ≤ c.toNat)
    (hc : c.toNat < 2047 * 2 ^ 52) :
    AtMostOne (div Format.binary64 (unpack Format.binary64 b) (unpack Format.binary64 c)) := by
  have hsplit : b.toNat = (b.toNat / 2 ^ 52 - 1 + 1) * 2 ^ 52 + b.toNat % 2 ^ 52 := by omega
  have hsplit' : c.toNat = (c.toNat / 2 ^ 52 - 1 + 1) * 2 ^ 52 + c.toNat % 2 ^ 52 := by omega
  rw [unpack_of_normal hsplit (by omega) (by omega), unpack_of_normal hsplit' (by omega) (by omega)]
  exact atMostOne_div_normal (by omega) (by omega) (by omega) (by omega) (by omega)

/-! ## Counts -/

theorem div_eq {x y : Double} (hx : x.isDefined = true) (hy : y.isDefined = true) :
    x / y = ofResult (.ofModel (.pack (div Format.binary64
      (unpack Format.binary64 (pack Format.binary64 (unpack Format.binary64 x.bits.toBitVec)))
      (unpack Format.binary64 (pack Format.binary64 (unpack Format.binary64 y.bits.toBitVec)))))) := by
  change lift₂ (· / ·) x y = _
  unfold lift₂
  rw [if_pos hx, if_pos hy]
  rfl

theorem sub_eq {x y : Double} (hx : x.isDefined = true) (hy : y.isDefined = true) :
    x - y = ofResult (.ofModel (.pack (sub Format.binary64
      (unpack Format.binary64 (pack Format.binary64 (unpack Format.binary64 x.bits.toBitVec)))
      (unpack Format.binary64 (pack Format.binary64 (unpack Format.binary64 y.bits.toBitVec)))))) := by
  change lift₂ (· - ·) x y = _
  unfold lift₂
  rw [if_pos hx, if_pos hy]
  rfl

theorem roundQuotient_le (a d : Nat) :
    a / d ≤ Number.roundQuotient .even a d ∧ Number.roundQuotient .even a d ≤ a / d + 1 := by
  unfold Number.roundQuotient
  dsimp only
  split
  · omega
  · split <;> omega

theorem roundQuotient_mono {a b d : Nat} (h : a ≤ b) :
    Number.roundQuotient .even a d ≤ Number.roundQuotient .even b d := by
  have hdiv : a / d ≤ b / d := Nat.div_le_div_right h
  rcases Nat.lt_or_eq_of_le hdiv with hlt | heq
  · exact Nat.le_trans (roundQuotient_le a d).2 (Nat.le_trans hlt (roundQuotient_le b d).1)
  · have hmod : a % d ≤ b % d := by
      have ha := Nat.div_add_mod a d
      have hb := Nat.div_add_mod b d
      rw [heq] at ha
      omega
    unfold Number.roundQuotient
    dsimp only
    rw [heq]
    repeat' split
    all_goals omega

/-- The pattern of a rounded count, before it is bounded by that of infinity. -/
def countPattern (n : Nat) : Nat :=
  (n.log2 + 1022) * 2 ^ 52 +
    Number.roundQuotient .even (n * 2 ^ (52 - n.log2)) (2 ^ (n.log2 - 52))

theorem leadingExponent_one {n : Nat} (h : 0 < n) : Number.Format.leadingExponent n 1 = n.log2 := by
  unfold Number.Format.leadingExponent
  have hlog : Nat.log2 1 = 0 := rfl
  have hle := Nat.log2_self_le (Nat.ne_of_gt h)
  simp only [hlog]
  rw [if_neg (by simp; omega)]
  omega

theorem toNat_ofNat {n : Nat} (h : 0 < n) :
    (ofNat n).bits.toNat = min (countPattern n) (2047 * 2 ^ 52) := by
  have hnearest : Number.Format.double.nearest false n 1 = min (countPattern n) (2047 * 2 ^ 52) := by
    unfold Number.Format.nearest
    rw [if_neg (Nat.ne_of_gt h), leadingExponent_one h]
    have hmax : max (n.log2 : Int) (1 - Number.Format.double.bias) = n.log2 := by
      change max (n.log2 : Int) (-1022) = _
      omega
    dsimp only
    rw [hmax]
    have hdown : (-((n.log2 : Int) - Number.Format.double.fractionBits)).toNat = 52 - n.log2 := by
      change (-((n.log2 : Int) - 52)).toNat = _
      omega
    have hup : ((n.log2 : Int) - Number.Format.double.fractionBits).toNat = n.log2 - 52 := by
      change ((n.log2 : Int) - 52).toNat = _
      omega
    have hfield : ((n.log2 : Int) + Number.Format.double.bias - 1).toNat = n.log2 + 1022 := by
      change ((n.log2 : Int) + 1023 - 1).toNat = _
      omega
    rw [hdown, hup, hfield, Nat.one_mul]
    change 0 * 2 ^ 52 + min (countPattern n) (2047 * 2 ^ 52) = _
    omega
  change (UInt64.ofNat (Number.Format.double.nearest false n 1)).toNat = _
  have hlt : min (countPattern n) (2047 * 2 ^ 52) < UInt64.size :=
    Nat.lt_of_le_of_lt (Nat.min_le_right ..) (by decide)
  rw [hnearest, UInt64.toNat_ofNat_of_lt' hlt]

theorem countPattern_bounds {n : Nat} (h : 0 < n) :
    (n.log2 + 1023) * 2 ^ 52 ≤ countPattern n ∧ countPattern n ≤ (n.log2 + 1024) * 2 ^ 52 := by
  have hle := Nat.log2_self_le (Nat.ne_of_gt h)
  have hlt : n < 2 ^ (n.log2 + 1) := Nat.lt_log2_self
  have hpos := Nat.two_pow_pos (n.log2 - 52)
  have hwhole : 2 ^ 52 ≤ n * 2 ^ (52 - n.log2) / 2 ^ (n.log2 - 52) ∧
      n * 2 ^ (52 - n.log2) / 2 ^ (n.log2 - 52) < 2 ^ 53 := by
    rw [Nat.le_div_iff_mul_le hpos, Nat.div_lt_iff_lt_mul hpos, ← Nat.pow_add, ← Nat.pow_add]
    rcases Nat.le_total n.log2 52 with hlog | hlog
    · rw [Nat.sub_eq_zero_of_le hlog]
      have hlow := Nat.mul_le_mul_right (2 ^ (52 - n.log2)) hle
      have hhigh := Nat.mul_lt_mul_of_pos_right hlt (Nat.two_pow_pos (52 - n.log2))
      rw [← Nat.pow_add] at hlow hhigh
      have hsum : n.log2 + (52 - n.log2) = 52 + 0 := by omega
      have hsum' : n.log2 + 1 + (52 - n.log2) = 53 + 0 := by omega
      rw [hsum] at hlow
      rw [hsum'] at hhigh
      exact ⟨hlow, hhigh⟩
    · rw [Nat.sub_eq_zero_of_le hlog, Nat.pow_zero, Nat.mul_one]
      have hsum : 52 + (n.log2 - 52) = n.log2 := by omega
      have hsum' : 53 + (n.log2 - 52) = n.log2 + 1 := by omega
      rw [hsum, hsum']
      exact ⟨hle, hlt⟩
  obtain ⟨hlow, hhigh⟩ :=
    roundQuotient_le (n * 2 ^ (52 - n.log2)) (2 ^ (n.log2 - 52))
  have hone : (n.log2 + 1023) * 2 ^ 52 = (n.log2 + 1022) * 2 ^ 52 + 2 ^ 52 := Nat.succ_mul _ _
  have htwo : (n.log2 + 1024) * 2 ^ 52 = (n.log2 + 1022) * 2 ^ 52 + 2 ^ 53 := Nat.add_mul _ 2 _
  unfold countPattern
  rw [hone, htwo]
  exact ⟨Nat.add_le_add_left (Nat.le_trans hwhole.1 hlow) _,
    Nat.add_le_add_left (Nat.le_trans hhigh hwhole.2) _⟩

theorem countPattern_mono {m n : Nat} (hm : 0 < m) (h : m ≤ n) :
    countPattern m ≤ countPattern n := by
  have hlog : m.log2 ≤ n.log2 :=
    (Nat.le_log2 (by omega)).2 (Nat.le_trans (Nat.log2_self_le (by omega)) h)
  rcases Nat.lt_or_eq_of_le hlog with hlt | heq
  · have hmul : (m.log2 + 1024) * 2 ^ 52 ≤ (n.log2 + 1023) * 2 ^ 52 :=
      Nat.mul_le_mul_right _ (by omega)
    exact Nat.le_trans (countPattern_bounds hm).2
      (Nat.le_trans hmul (countPattern_bounds (by omega)).1)
  · unfold countPattern
    rw [heq]
    exact Nat.add_le_add_left (roundQuotient_mono (Nat.mul_le_mul_right _ h)) _

/-- The pattern of a rounded count: that of zero, or one from one up to infinity. -/
theorem toNat_ofNat_bounds {n : Nat} (h : 0 < n) :
    1023 * 2 ^ 52 ≤ (ofNat n).bits.toNat ∧ (ofNat n).bits.toNat ≤ 2047 * 2 ^ 52 := by
  have hlow := (countPattern_bounds h).1
  rw [toNat_ofNat h]
  omega

theorem nonneg_ofNat (n : Nat) : (ofNat n).Nonneg := by
  rcases Nat.eq_zero_or_pos n with rfl | h
  · exact nonneg_zero
  · have := (toNat_ofNat_bounds h).2
    unfold Nonneg
    omega

theorem isDefined_ofNat (n : Nat) : (ofNat n).isDefined = true := by
  rw [isDefined_iff (nonneg_ofNat n)]
  rcases Nat.eq_zero_or_pos n with rfl | h
  · decide
  · exact (toNat_ofNat_bounds h).2

/-! ## Parts of a whole -/

/-- A part is not negative. -/
theorem not_part_lt_zero (a b : Nat) : ¬ ofNat a / ofNat b < 0 := by
  rw [div_eq (isDefined_ofNat a) (isDefined_ofNat b)]
  have hplus : ∀ n, Plus (unpack Format.binary64
      (pack Format.binary64 (unpack Format.binary64 (ofNat n).bits.toBitVec))) :=
    fun n => plus_unpack (toNat_pack_lt (plus_unpack (nonneg_ofNat n)))
  exact not_ofResult_lt_zero (plus_div (hplus a) (hplus b))

theorem not_one_sub_lt_zero {u : UnpackedFloat} (h : AtMostOne u) :
    ¬ (1 - ofResult (.ofModel (.pack u))) < 0 := by
  have hle : (pack Format.binary64 u).toNat ≤ 1023 * 2 ^ 52 := toNat_pack_le h
  generalize hresult : ofResult (.ofModel (.pack u)) = q
  unfold ofResult at hresult
  split at hresult
  · rw [← hresult]
    decide
  · have hbits : q.bits.toBitVec = pack Format.binary64 u := by
      rw [← hresult]
      rfl
    have hnonneg : q.Nonneg := by
      change q.bits.toBitVec.toNat < _
      rw [hbits]
      omega
    have hdefined : q.isDefined = true := by
      rw [isDefined_iff hnonneg]
      change q.bits.toBitVec.toNat ≤ _
      rw [hbits]
      exact Nat.le_trans hle (by decide)
    change ¬ ofNat 1 - q < 0
    have hstays : pack Format.binary64 (unpack Format.binary64 (pack Format.binary64 u)) =
        pack Format.binary64 u := pack_unpack (Nat.lt_of_le_of_lt hle (by decide))
    rw [sub_eq (isDefined_ofNat 1) hdefined, hbits, hstays]
    exact not_ofResult_lt_zero (plus_one_sub (atMostOne_unpack hle))

theorem eq_infinity_of_toNat {x : Double} (h : x.bits.toNat = 2047 * 2 ^ 52) : x = infinity := by
  cases x
  exact congrArg Double.mk (UInt64.toNat_inj.1 h)

/-- A finite count that is not zero. -/
theorem exists_unpack_ofNat {n : Nat} (h : 0 < n) (hfinite : (ofNat n).bits.toNat < 2047 * 2 ^ 52) :
    ∃ m e, ∃ hm : 0 < m, unpack Format.binary64 (ofNat n).bits.toBitVec = .finite .positive m e hm ∧
      pack Format.binary64 (unpack Format.binary64 (ofNat n).bits.toBitVec) =
        (ofNat n).bits.toBitVec := by
  have hlow := (toNat_ofNat_bounds h).1
  have hsplit : (ofNat n).bits.toBitVec.toNat = ((ofNat n).bits.toBitVec.toNat / 2 ^ 52 - 1 + 1) *
      2 ^ 52 + (ofNat n).bits.toBitVec.toNat % 2 ^ 52 := by
    change 1023 * 2 ^ 52 ≤ (ofNat n).bits.toBitVec.toNat at hlow
    omega
  change (ofNat n).bits.toBitVec.toNat < _ at hfinite
  exact ⟨_, _, _, unpack_of_normal hsplit (by omega) (by omega), pack_unpack hfinite⟩

/-- What a part leaves of the whole is not negative. -/
theorem not_rest_lt_zero {a b : Nat} (hb : 0 < b) (h : a ≤ b) :
    ¬ (1 - ofNat a / ofNat b) < 0 := by
  rcases Nat.lt_or_eq_of_le (toNat_ofNat_bounds hb).2 with hfinite | hinfinite
  · obtain ⟨m, e, hm, hunpack, hstays⟩ := exists_unpack_ofNat hb hfinite
    rw [div_eq (isDefined_ofNat a) (isDefined_ofNat b), hstays]
    refine not_one_sub_lt_zero ?_
    rcases Nat.eq_zero_or_pos a with rfl | ha
    · rw [hunpack]
      exact rfl
    · have hle : (ofNat a).bits.toNat ≤ (ofNat b).bits.toNat := by
        rw [toNat_ofNat ha, toNat_ofNat hb]
        have := countPattern_mono ha h
        omega
      obtain ⟨_, _, _, -, hstays'⟩ := exists_unpack_ofNat ha (Nat.lt_of_le_of_lt hle hfinite)
      rw [hstays']
      exact atMostOne_div (Nat.le_trans (by decide) (toNat_ofNat_bounds ha).1) hle hfinite
  · rw [eq_infinity_of_toNat hinfinite]
    rcases Nat.eq_zero_or_pos a with rfl | ha
    · decide
    rcases Nat.lt_or_eq_of_le (toNat_ofNat_bounds ha).2 with hfinite' | hinfinite'
    · obtain ⟨m, e, hm, hunpack, hstays⟩ := exists_unpack_ofNat ha hfinite'
      rw [div_eq (isDefined_ofNat a) (by decide), hstays, hunpack]
      exact not_one_sub_lt_zero (u := .zero .positive) rfl
    · rw [eq_infinity_of_toNat hinfinite']
      decide

end VectorQuery.Double
