/-
# Sums are not rounded past their summands

A sum is rounded to the nearest number, and the summands are numbers.  So adding a number that is not
negative does not lead below the other summand (`Double.le_add`).  Adding to zero changes nothing
that the order of numbers tells (`Double.position_zero_add`).
-/
import VectorQuery.Proofs.Number.Quotient

namespace VectorQuery.Double

open Float.Model (Format)
open Float.Model.UnpackedFloat
open Float.Model (UnpackedFloat totalExponent)

/-! ## Order -/

/-- The pattern with its sign as the sign of a number. -/
def position (x : Double) : Int :=
  if x.isNegative then -((x.bits.toNat % 2 ^ 63 : Nat) : Int) else (x.bits.toNat % 2 ^ 63 : Nat)

theorem position_of_nonneg {x : Double} (h : x.Nonneg) : x.position = x.bits.toNat := by
  rw [position, isNegative_of_nonneg h, Nat.mod_eq_of_lt h]
  rfl

theorem position_neg {x : Double} (h : x.Nonneg) : (-x).position = -(x.bits.toNat : Int) := by
  rw [position, isNegative_neg h, if_pos rfl, toNat_neg h, Nat.add_mod_right, Nat.mod_eq_of_lt h]

theorem toNat_mod_of_nonneg {x : Double} (h : x.Nonneg) : x.bits.toNat % 2 ^ 63 = x.bits.toNat :=
  Nat.mod_eq_of_lt h

theorem toNat_neg_mod {x : Double} (h : x.Nonneg) : (-x).bits.toNat % 2 ^ 63 = x.bits.toNat := by
  rw [toNat_neg h, Nat.add_mod_right, Nat.mod_eq_of_lt h]

theorem le_iff_position (x y : Double) :
    x ≤ y ↔ x.isDefined = true ∧ y.isDefined = true ∧ x.position ≤ y.position := by
  rw [le_iff]
  refine and_congr_right fun _ => and_congr_right fun _ => ?_
  obtain ⟨u, hu, rfl | rfl⟩ := x.eq_or_eq_neg <;> obtain ⟨v, hv, rfl | rfl⟩ := y.eq_or_eq_neg <;>
    simp only [toNat_place, toNat_place_neg, toNat_mod_of_nonneg, toNat_neg_mod, position_of_nonneg,
      position_neg, *] <;>
    unfold Nonneg at hu hv <;> omega

theorem lt_iff_position (x y : Double) :
    x < y ↔ x.isDefined = true ∧ y.isDefined = true ∧ x.position < y.position := by
  rw [lt_iff]
  refine and_congr_right fun _ => and_congr_right fun _ => ?_
  obtain ⟨u, hu, rfl | rfl⟩ := x.eq_or_eq_neg <;> obtain ⟨v, hv, rfl | rfl⟩ := y.eq_or_eq_neg <;>
    simp only [toNat_place, toNat_place_neg, toNat_mod_of_nonneg, toNat_neg_mod, position_of_nonneg,
      position_neg, *] <;>
    unfold Nonneg at hu hv <;> omega

variable {x y z : Double}

theorem le_of_eq_position (hx : x.isDefined = true) (hy : y.isDefined = true)
    (h : x.position = y.position) : x ≤ y :=
  (le_iff_position x y).2 ⟨hx, hy, Int.le_of_eq h⟩

theorem le_trans (h : x ≤ y) (h' : y ≤ z) : x ≤ z := by
  rw [le_iff_position] at *
  exact ⟨h.1, h'.2.1, Int.le_trans h.2.2 h'.2.2⟩

theorem lt_of_le_of_lt (h : x ≤ y) (h' : y < z) : x < z := by
  rw [le_iff_position] at h
  rw [lt_iff_position] at *
  exact ⟨h.1, h'.2.1, Int.lt_of_le_of_lt h.2.2 h'.2.2⟩

theorem le_of_lt (h : x < y) : x ≤ y := by
  rw [lt_iff_position] at h
  exact (le_iff_position x y).2 ⟨h.1, h.2.1, Int.le_of_lt h.2.2⟩

theorem le_of_not_lt (hx : x.isDefined = true) (hy : y.isDefined = true) (h : ¬ x < y) : y ≤ x := by
  rw [lt_iff_position] at h
  exact (le_iff_position y x).2 ⟨hy, hx, Int.not_lt.1 fun hlt => h ⟨hx, hy, hlt⟩⟩

theorem lt_of_not_le (hx : x.isDefined = true) (hy : y.isDefined = true) (h : ¬ x ≤ y) : y < x := by
  rw [le_iff_position] at h
  exact (lt_iff_position y x).2 ⟨hy, hx, Int.not_le.1 fun hle => h ⟨hx, hy, hle⟩⟩

theorem isDefined_of_le (h : x ≤ y) : x.isDefined = true ∧ y.isDefined = true :=
  ⟨((le_iff_position x y).1 h).1, ((le_iff_position x y).1 h).2.1⟩

/-! ## Rounding -/

theorem patternOf_mono {m m' : Nat} (h : m ≤ m') (e : Int) : patternOf m e ≤ patternOf m' e := by
  unfold patternOf
  omega

theorem patternOf_le_of_lt {m m' : Nat} {e e' : Int} (he : -1074 ≤ e) (hlt : e < e')
    (hm : m ≤ 2 ^ 53) (hm' : 2 ^ 52 ≤ m') : patternOf m e ≤ patternOf m' e' := by
  have hexponent : (e + 1074).toNat + 1 ≤ (e' + 1074).toNat := by omega
  unfold patternOf
  omega

theorem le_roundedMantissa (em : ExtendedMantissa) : em.mantissa ≤ em.roundedMantissa := by
  obtain ⟨m, r, s⟩ := em
  cases r <;> cases s <;> simp [ExtendedMantissa.roundedMantissa, ExtendedMantissa.accuracy,
    Accuracy.roundToNearestEven]

/-- Shifting out zeros is exact. -/
theorem shiftRight_of_dvd {m n : Nat} (h : 2 ^ n ∣ m) :
    ExtendedMantissa.mk m false false >>> n = ExtendedMantissa.mk (m / 2 ^ n) false false := by
  change n.repeat ExtendedMantissa.shiftRightOne _ = _
  induction n with
  | zero => simp [Nat.repeat]
  | succ n ih =>
      have hn : 2 ^ n ∣ m := Nat.dvd_trans (Nat.pow_dvd_pow 2 (Nat.le_succ n)) h
      have heven : m / 2 ^ n % 2 = 0 :=
        Nat.mod_eq_zero_of_dvd (Nat.dvd_div_of_mul_dvd (by rwa [← Nat.pow_succ]))
      rw [Nat.repeat, ih hn, ExtendedMantissa.shiftRightOne, Nat.pow_succ, ← Nat.div_div_eq_div_mul]
      simp [heven]

theorem shift_eq (q : Nat) (t : Int) : shiftToTargetExponent Format.binary64 q t .exact =
    (ExtendedMantissa.mk q false false >>> (max ((q.log2 : Int) + 1 + t - 53) (-1074) - t).toNat,
      t + ((max ((q.log2 : Int) + 1 + t - 53) (-1074) - t).toNat : Int)) := rfl

theorem shift_of_lt {q : Nat} {t : Int} (hq : q < 2 ^ 53) (ht : -1074 ≤ t) :
    shiftToTargetExponent Format.binary64 q t .exact = (⟨q, false, false⟩, t) := by
  have hlog := log2_lt_of_lt (by decide) hq
  have hshift : (max ((q.log2 : Int) + 1 + t - 53) (-1074) - t).toNat = 0 := by omega
  rw [shift_eq, hshift, Int.natCast_zero, Int.add_zero]
  rfl

theorem shift_of_eq {q : Nat} {t : Int} (hq : q = 2 ^ 53) (ht : -1074 ≤ t) :
    shiftToTargetExponent Format.binary64 q t .exact = (⟨2 ^ 52, false, false⟩, t + 1) := by
  have hlog : q.log2 = 53 := by rw [hq, Nat.log2_two_pow]
  have hshift : (max ((q.log2 : Int) + 1 + t - 53) (-1074) - t).toNat = 1 := by omega
  have hhalf : q / 2 ^ 1 = 2 ^ 52 := by omega
  rw [shift_eq, hshift, shiftRight_of_dvd ⟨2 ^ 52, by omega⟩, hhalf]
  rfl

theorem pack_zero (s : Sign) :
    (pack Format.binary64 (.zero s)).toNat = s.toBitVec.toNat * 2 ^ 63 := by
  refine (toNat_packComponents s 0 0).trans ?_
  change _ + (0 * 2 ^ 52 + 0) = _
  omega

/-- The pattern of a rounded number. -/
theorem toNat_pack_round {m : Nat} {e t : Int} {em : ExtendedMantissa} {accuracy : Accuracy}
    (hfirst : shiftToTargetExponent Format.binary64 m e accuracy = (em, t))
    (hq : em.roundedMantissa ≤ 2 ^ 53) (hnormal : -1074 < t → 2 ^ 52 ≤ em.roundedMantissa)
    (ht : -1074 ≤ t) (s : Sign) :
    (pack Format.binary64 (roundWithAccuracy Format.binary64 s m e accuracy)).toNat =
      s.toBitVec.toNat * 2 ^ 63 + patternOf em.roundedMantissa t := by
  rw [round_eq, hfirst]
  dsimp only
  generalize em.roundedMantissa = q at *
  rcases Nat.lt_or_eq_of_le hq with hlt | heq
  · rw [shift_of_lt hlt ht]
    dsimp only
    by_cases hzero : q = 0
    · rw [dif_pos hzero, pack_zero]
      unfold patternOf
      omega
    · rw [dif_neg hzero]
      exact toNat_pack_canonical ⟨hlt, ht, hnormal⟩ s _
  · rw [shift_of_eq heq ht]
    refine (toNat_pack_canonical (m := 2 ^ 52) (e := t + 1) ⟨by decide, by omega, fun _ => ?_⟩ s
      (by decide)).trans ?_
    · exact Nat.le_refl _
    · unfold patternOf
      omega

/-- The number `q · 2 ^ t` is `m · 2 ^ e`, rounded to a number of at most 53 bits. -/
structure Rounds (m : Nat) (e : Int) (q : Nat) (t : Int) : Prop where
  exponent : t = max ((m.log2 : Int) + e - 52) (-1074)
  floor_le : m * 2 ^ (e - t).toNat / 2 ^ (t - e).toNat ≤ q
  le_succ : q ≤ m * 2 ^ (e - t).toNat / 2 ^ (t - e).toNat + 1
  exact : 2 ^ (t - e).toNat ∣ m * 2 ^ (e - t).toNat →
    q = m * 2 ^ (e - t).toNat / 2 ^ (t - e).toNat

theorem log2_mul_two_pow {m : Nat} (hm : 0 < m) (n : Nat) : (m * 2 ^ n).log2 = m.log2 + n := by
  have hpos := Nat.mul_pos hm (Nat.two_pow_pos n)
  rw [Nat.log2_eq_iff (Nat.ne_of_gt hpos), Nat.pow_add, Nat.add_right_comm, Nat.pow_add]
  exact ⟨Nat.mul_le_mul_right _ (Nat.log2_self_le (Nat.ne_of_gt hm)),
    Nat.mul_lt_mul_of_pos_right Nat.lt_log2_self (Nat.two_pow_pos n)⟩

namespace Rounds

variable {m q : Nat} {e t : Int}

theorem of_shift (ht : t = max ((m.log2 : Int) + e - 52) (-1074)) : Rounds m e
    (ExtendedMantissa.mk (m * 2 ^ (e - t).toNat) false false >>> (t - e).toNat).roundedMantissa t where
  exponent := ht
  floor_le := by
    have hfloor := le_roundedMantissa
      (ExtendedMantissa.mk (m * 2 ^ (e - t).toNat) false false >>> (t - e).toNat)
    rwa [mantissa_shiftRight] at hfloor
  le_succ := by
    have hsucc := roundedMantissa_le
      (ExtendedMantissa.mk (m * 2 ^ (e - t).toNat) false false >>> (t - e).toNat)
    rwa [mantissa_shiftRight] at hsucc
  exact := by
    intro hdvd
    rw [shiftRight_of_dvd hdvd]
    rfl

theorem le (h : Rounds m e q t) (hm : 0 < m) : q ≤ 2 ^ 53 := by
  have ht := h.exponent
  have hlog := log2_mul_two_pow hm (e - t).toNat
  refine Nat.le_trans h.le_succ (Nat.succ_le_of_lt (Nat.div_lt_of_lt_mul ?_))
  rw [← Nat.pow_add]
  refine Nat.lt_of_lt_of_le Nat.lt_log2_self (Nat.pow_le_pow_right (by decide) ?_)
  omega

theorem normal (h : Rounds m e q t) (hm : 0 < m) (hlt : -1074 < t) : 2 ^ 52 ≤ q := by
  have ht := h.exponent
  have hlog := log2_mul_two_pow hm (e - t).toNat
  have hpos := Nat.mul_pos hm (Nat.two_pow_pos (e - t).toNat)
  refine Nat.le_trans ?_ h.floor_le
  rw [Nat.le_div_iff_mul_le (Nat.two_pow_pos _), ← Nat.pow_add]
  refine Nat.le_trans (Nat.pow_le_pow_right (by decide) ?_) (Nat.log2_self_le (Nat.ne_of_gt hpos))
  omega

end Rounds

/-- A number that is not zero is rounded to one of at most 53 bits. -/
theorem exists_rounds {m : Nat} (hm : 0 < m) (e : Int) : ∃ q t, Rounds m e q t ∧
    ∀ s, (pack Format.binary64 (round Format.binary64 s m e)).toNat =
      s.toBitVec.toNat * 2 ^ 63 + patternOf q t := by
  obtain ⟨t, ht⟩ : ∃ t, t = max ((m.log2 : Int) + e - 52) (-1074) := ⟨_, rfl⟩
  have hlog := log2_mul_two_pow hm (e - t).toNat
  have hround : ∀ s, round Format.binary64 s m e = roundWithAccuracy Format.binary64 s
      (m * 2 ^ (e - t).toNat) (e - ((e - t).toNat : Int)) .exact := by
    intro s
    have htarget : Format.binary64.targetExponent (totalExponent m e) = t := by
      change max ((m.log2 : Int) + 1 + e - 53) (-1074) = t
      omega
    rw [← Nat.shiftLeft_eq]
    unfold UnpackedFloat.round
    rw [htarget]
    rfl
  have hfirst : shiftToTargetExponent Format.binary64 (m * 2 ^ (e - t).toNat)
      (e - ((e - t).toNat : Int)) .exact =
        (ExtendedMantissa.mk (m * 2 ^ (e - t).toNat) false false >>> (t - e).toNat, t) := by
    have htarget : max (((m * 2 ^ (e - t).toNat).log2 : Int) + 1 + (e - ((e - t).toNat : Int)) - 53)
        (-1074) = t := by
      rw [hlog]
      omega
    rw [shift_eq, htarget]
    congr 2 <;> omega
  have hrounds := Rounds.of_shift ht
  refine ⟨_, t, hrounds, fun s => ?_⟩
  rw [hround]
  exact toNat_pack_round hfirst (hrounds.le hm) (hrounds.normal hm) (by omega) s

/-! ### Bounds -/

variable {m m' q : Nat} {e e' t : Int}

/-- Rounding does not lead below a number that needs no rounding. -/
theorem Rounds.le_patternOf (h : Rounds m' e' q t) (hm : 0 < m) (hcanonical : Canonical m e)
    (he : e' ≤ e) (hle : m * 2 ^ (e - e').toNat ≤ m') : patternOf m e ≤ patternOf q t := by
  obtain ⟨hlt, hleast, hnormal⟩ := hcanonical
  have hm' : 0 < m' := Nat.lt_of_lt_of_le (Nat.mul_pos hm (Nat.two_pow_pos _)) hle
  have ht := h.exponent
  have hlog : -1074 < e → 52 + (e - e').toNat ≤ m'.log2 := by
    intro hlarge
    rw [Nat.le_log2 (Nat.ne_of_gt hm'), Nat.pow_add]
    exact Nat.le_trans (Nat.mul_le_mul_right _ (hnormal hlarge)) hle
  have het : e ≤ t := by omega
  rcases Int.lt_or_eq_of_le het with hless | rfl
  · exact patternOf_le_of_lt hleast hless (Nat.le_of_lt hlt) (h.normal hm' (by omega))
  · have hfloor := h.floor_le
    have hsame : (e' - e).toNat = 0 := by omega
    rw [hsame, Nat.pow_zero, Nat.mul_one] at hfloor
    exact patternOf_mono
      (Nat.le_trans ((Nat.le_div_iff_mul_le (Nat.two_pow_pos _)).2 hle) hfloor) e

/-- Rounding does not lead above a number that needs no rounding. -/
theorem Rounds.patternOf_le (h : Rounds m' e' q t) (hm' : 0 < m') (hcanonical : Canonical m e)
    (he : e' ≤ e) (hle : m' ≤ m * 2 ^ (e - e').toNat) : patternOf q t ≤ patternOf m e := by
  obtain ⟨hlt, hleast, hnormal⟩ := hcanonical
  have ht := h.exponent
  have hlog : m'.log2 < 53 + (e - e').toNat := by
    rw [Nat.log2_lt (Nat.ne_of_gt hm'), Nat.pow_add]
    exact Nat.lt_of_le_of_lt hle (Nat.mul_lt_mul_of_pos_right hlt (Nat.two_pow_pos _))
  have hte : t ≤ e := by omega
  rcases Int.lt_or_eq_of_le hte with hless | rfl
  · exact patternOf_le_of_lt (by omega) hless (h.le hm') (hnormal (by omega))
  · have hsame : (e' - t).toNat = 0 := by omega
    have hexact := h.exact
    have hsucc := h.le_succ
    rw [hsame, Nat.pow_zero, Nat.mul_one] at hexact hsucc
    refine patternOf_mono ?_ t
    rcases Nat.lt_or_eq_of_le hle with hless | heq
    · exact Nat.le_trans hsucc (Nat.div_lt_of_lt_mul (by rwa [Nat.mul_comm]))
    · refine Nat.le_of_eq ?_
      rw [hexact ⟨m, by rw [heq, Nat.mul_comm]⟩, heq, Nat.mul_div_cancel _ (Nat.two_pow_pos _)]

/-! ## Numbers and their parts -/

theorem toNat_unpack (b : BitVec 64) :
    (@unpackExponent Format.binary64 b).toNat = b.toNat / 2 ^ 52 % 2 ^ 11 ∧
      (@unpackMantissa Format.binary64 b).toNat = b.toNat % 2 ^ 52 ∧
        (@unpackSign Format.binary64 b).toNat = b.toNat / 2 ^ 63 % 2 := by
  refine ⟨?_, ?_, ?_⟩
  · change (b.toNat >>> 52) % 2 ^ 11 = _
    rw [Nat.shiftRight_eq_div_pow]
  · change (b.toNat >>> 0) % 2 ^ 52 = _
    rw [Nat.shiftRight_zero]
  · change (b.toNat >>> 63) % 2 ^ 1 = _
    rw [Nat.shiftRight_eq_div_pow]

/-- The sign of a pattern is the sign of the number that it stands for. -/
theorem unpack_neg {b c : BitVec 64} (hb : b.toNat < 2 ^ 63) (hc : c.toNat = b.toNat + 2 ^ 63) :
    unpack Format.binary64 c = (unpack Format.binary64 b).neg := by
  obtain ⟨hexponent, hmantissa, hsign⟩ := toNat_unpack c
  obtain ⟨hexponent', hmantissa', -⟩ := toNat_unpack b
  have he : @unpackExponent Format.binary64 c = @unpackExponent Format.binary64 b :=
    BitVec.eq_of_toNat_eq (by rw [hexponent, hexponent', hc]; omega)
  have hm : @unpackMantissa Format.binary64 c = @unpackMantissa Format.binary64 b :=
    BitVec.eq_of_toNat_eq (by rw [hmantissa, hmantissa', hc]; omega)
  have hs : @unpackSign Format.binary64 c = 1#1 :=
    BitVec.eq_of_toNat_eq (by rw [hsign, hc]; change _ = 1; omega)
  rw [unpack_eq, unpack_eq, hs, unpackSign_eq hb, he]
  by_cases hall : @unpackExponent Format.binary64 b = -1#11
  · rw [if_pos hall, if_pos hall, hm]
    split <;> rfl
  · rw [if_neg hall, if_neg hall]
    by_cases hleast : @unpackExponent Format.binary64 b = 0#11
    · rw [if_pos hleast, if_pos hleast]
      by_cases hzero : @unpackMantissa Format.binary64 b = 0#52
      · rw [dif_pos (hm.trans hzero), dif_pos hzero]
        rfl
      · rw [dif_neg (hm ▸ hzero), dif_neg hzero]
        exact finite_congr (congrArg BitVec.toNat hm) rfl _ _
    · rw [if_neg hleast, if_neg hleast]
      exact finite_congr (congrArg (fun m => (1#1 ++ m).toNat) hm) rfl _ _

/-- A pattern up to that of infinity stands for a number or for infinity. -/
theorem isNaN_unpack {b : BitVec 64} (h : b.toNat % 2 ^ 63 ≤ 2047 * 2 ^ 52) :
    (unpack Format.binary64 b).isNaN = false := by
  obtain ⟨hexponent, hmantissa, -⟩ := toNat_unpack b
  rw [unpack_eq]
  by_cases hall : @unpackExponent Format.binary64 b = -1#11
  · have hzero : @unpackMantissa Format.binary64 b = 0#52 := by
      rw [hall] at hexponent
      change 2047 = _ at hexponent
      apply BitVec.eq_of_toNat_eq
      rw [hmantissa]
      change _ = 0
      omega
    rw [if_pos hall, if_pos hzero]
    rfl
  · rw [if_neg hall]
    by_cases hleast : @unpackExponent Format.binary64 b = 0#11
    · rw [if_pos hleast]
      by_cases hzero : @unpackMantissa Format.binary64 b = 0#52
      · rw [dif_pos hzero]
        rfl
      · rw [dif_neg hzero]
        rfl
    · rw [if_neg hleast]
      rfl

theorem position_of_toNat {x : Double} {s : Sign} {p : Nat}
    (h : x.bits.toNat = s.toBitVec.toNat * 2 ^ 63 + p) (hp : p ≤ 2047 * 2 ^ 52) :
    x.isDefined = true ∧ x.position = s.apply p := by
  have hmod : x.bits.toNat % 2 ^ 63 = p := by omega
  have hnegative : x.isNegative = true ↔ 2 ^ 63 ≤ x.bits.toNat := by
    rw [isNegative, decide_eq_true_eq, UInt64.le_iff_toNat_le, toNat_signBit]
  constructor
  · rw [isDefined, decide_eq_true_eq, UInt64.le_iff_toNat_le, toNat_unsigned, hmod]
    exact hp
  · unfold position
    rw [hmod]
    cases s with
    | positive =>
        change x.bits.toNat = 0 * 2 ^ 63 + p at h
        rw [if_neg (by rw [hnegative]; omega)]
        rfl
    | negative =>
        change x.bits.toNat = 1 * 2 ^ 63 + p at h
        rw [if_pos (hnegative.2 (by omega))]
        rfl

/-- The result of an operation is that of its pattern. -/
theorem position_ofResult {u : UnpackedFloat} {s : Sign} {p : Nat}
    (h : (pack Format.binary64 u).toNat = s.toBitVec.toNat * 2 ^ 63 + p) (hp : p ≤ 2047 * 2 ^ 52) :
    (ofResult (.ofModel (.pack u))).isDefined = true ∧
      (ofResult (.ofModel (.pack u))).position = s.apply p := by
  have hmod : (pack Format.binary64 u).toNat % 2 ^ 63 ≤ 2047 * 2 ^ 52 := by omega
  have hnan : (Float.ofModel (.pack u)).isNaN = false := isNaN_unpack hmod
  unfold ofResult
  rw [hnan, if_neg Bool.false_ne_true]
  exact position_of_toNat h hp

theorem patternOf_le (m : Nat) (e : Int) : patternOf m e ≤ 2047 * 2 ^ 52 := Nat.min_le_right ..

/-- What the pattern of a finite number stands for. -/
inductive Parts (x : Double) : UnpackedFloat → Prop where
  | zero (s : Sign) (h : x.bits.toNat = s.toBitVec.toNat * 2 ^ 63) : Parts x (.zero s)
  | finite (s : Sign) (m : Nat) (e : Int) (hm : 0 < m) (hcanonical : Canonical m e)
      (h : x.bits.toNat = s.toBitVec.toNat * 2 ^ 63 + patternOf m e) : Parts x (.finite s m e hm)

theorem parts_of_nonneg {x : Double} (h : x.Nonneg) (hx : x.isFinite = true) :
    Parts x (unpack Format.binary64 x.bits.toBitVec) := by
  have hlt : x.bits.toBitVec.toNat < 2047 * 2 ^ 52 := (isFinite_iff h).1 hx
  generalize hb : x.bits.toBitVec = b at *
  have hbits : x.bits.toNat = b.toNat := congrArg BitVec.toNat hb
  rcases Nat.eq_zero_or_pos b.toNat with hzero | hpos
  · obtain rfl : b = 0 := BitVec.eq_of_toNat_eq hzero
    exact .zero .positive (by rw [hbits, toNat_positive, Nat.zero_mul]; rfl)
  · rcases Nat.lt_or_ge b.toNat (2 ^ 52) with hsmall | hlarge
    · rw [unpack_of_subnormal hsmall hpos]
      refine .finite .positive _ _ _ ⟨by omega, by omega, by omega⟩ (hbits.trans ?_)
      rw [toNat_positive, patternOf_least (by omega), Nat.zero_mul, Nat.zero_add]
    · have hsplit : b.toNat = (b.toNat / 2 ^ 52 - 1 + 1) * 2 ^ 52 + b.toNat % 2 ^ 52 := by omega
      rw [unpack_of_normal hsplit (by omega) (by omega)]
      refine .finite .positive _ _ _ ⟨by omega, by omega, by omega⟩ (hbits.trans ?_)
      rw [toNat_positive, patternOf_normal (by omega) (by omega), Nat.zero_mul, Nat.zero_add]
      exact hsplit

theorem parts_of_isFinite {x : Double} (hx : x.isFinite = true) :
    Parts x (unpack Format.binary64 x.bits.toBitVec) := by
  obtain ⟨y, hy, rfl | rfl⟩ := x.eq_or_eq_neg
  · exact parts_of_nonneg hy hx
  · rw [isFinite_neg] at hx
    have hparts := parts_of_nonneg hy hx
    have hbits := toNat_neg hy
    rw [unpack_neg hy hbits]
    generalize unpack Format.binary64 y.bits.toBitVec = u at hparts
    unfold Nonneg at hy
    cases hparts with
    | zero s h =>
        cases s with
        | positive => exact .zero .negative (by rw [hbits, h, toNat_positive, toNat_negative])
        | negative =>
            rw [toNat_negative] at h
            omega
    | finite s m e hm hcanonical h =>
        cases s with
        | positive =>
            rw [toNat_positive] at h
            exact .finite .negative m e hm hcanonical (by rw [hbits, h, toNat_negative]; omega)
        | negative =>
            rw [toNat_negative] at h
            omega

namespace Parts

variable {x t : Double} {u v : UnpackedFloat}

theorem pack_eq (h : Parts x u) : pack Format.binary64 u = x.bits.toBitVec := by
  apply BitVec.eq_of_toNat_eq
  cases h with
  | zero s h => exact (pack_zero s).trans h.symm
  | finite s m e hm hcanonical h => exact (toNat_pack_canonical hcanonical s hm).trans h.symm

/-- An operation that hands on the parts of a number has it as its result. -/
theorem position_ofResult (h : Parts x u) :
    (ofResult (.ofModel (.pack u))).isDefined = true ∧
      (ofResult (.ofModel (.pack u))).position = x.position := by
  cases h with
  | zero s h =>
      have hzero := position_of_toNat (h.trans (Nat.add_zero _).symm) (Nat.zero_le _)
      rw [hzero.2]
      exact Double.position_ofResult ((pack_zero s).trans (Nat.add_zero _).symm) (Nat.zero_le _)
  | finite s m e hm hcanonical h =>
      rw [(position_of_toNat h (patternOf_le m e)).2]
      exact Double.position_ofResult (toNat_pack_canonical hcanonical s hm) (patternOf_le m e)

end Parts

/-! ## Sums -/

theorem add_parts {x y : Double} (hx : x.isDefined = true) (hy : y.isDefined = true) :
    x + y = ofResult (.ofModel (.pack (UnpackedFloat.add Format.binary64
      (unpack Format.binary64 (pack Format.binary64 (unpack Format.binary64 x.bits.toBitVec)))
      (unpack Format.binary64 (pack Format.binary64 (unpack Format.binary64 y.bits.toBitVec)))))) := by
  change lift₂ (· + ·) x y = _
  unfold lift₂
  rw [if_pos hx, if_pos hy]
  rfl

/-- A sum of finite numbers, by their parts. -/
theorem add_eq {x y : Double} (hx : x.isFinite = true) (hy : y.isFinite = true) :
    x + y = ofResult (.ofModel (.pack (UnpackedFloat.add Format.binary64
      (unpack Format.binary64 x.bits.toBitVec) (unpack Format.binary64 y.bits.toBitVec)))) := by
  rw [add_parts (isDefined_of_isFinite hx) (isDefined_of_isFinite hy),
    (parts_of_isFinite hx).pack_eq, (parts_of_isFinite hy).pack_eq]

theorem position_ofResult_zero (s : Sign) :
    (ofResult (.ofModel (.pack (.zero s)))).isDefined = true ∧
      (ofResult (.ofModel (.pack (.zero s)))).position = 0 := by
  obtain ⟨hdefined, hposition⟩ := position_ofResult ((pack_zero s).trans (Nat.add_zero _).symm)
    (Nat.zero_le _)
  refine ⟨hdefined, hposition.trans ?_⟩
  cases s <;> rfl

theorem Parts.position_eq_zero {x : Double} {s : Sign} (h : Parts x (.zero s)) : x.position = 0 :=
  h.position_ofResult.2.symm.trans (position_ofResult_zero s).2

theorem add_zeros (s s' : Sign) :
    ∃ s'', UnpackedFloat.add Format.binary64 (.zero s) (.zero s') = .zero s'' := by
  cases s <;> cases s' <;> exact ⟨_, rfl⟩

/-- Adding to zero leads to a number of the same position. -/
theorem position_zero_add {x : Double} (hx : x.isFinite = true) :
    (Quantity.zero + x).isDefined = true ∧ (Quantity.zero + x).position = x.position := by
  have hparts := parts_of_isFinite hx
  rw [zero_eq, add_eq (by decide) hx]
  change (ofResult (.ofModel (.pack (UnpackedFloat.add _ (.zero .positive) _)))).isDefined = true ∧
    (ofResult (.ofModel (.pack (UnpackedFloat.add _ (.zero .positive) _)))).position = _
  generalize unpack Format.binary64 x.bits.toBitVec = u at hparts
  cases hparts with
  | zero s h =>
      obtain ⟨s', hadd⟩ := add_zeros .positive s
      rw [hadd, (Parts.zero s h).position_eq_zero]
      exact position_ofResult_zero s'
  | finite s m e hm hcanonical h => exact (Parts.finite s m e hm hcanonical h).position_ofResult

/-- A rounded number lies on the side of zero that its sign tells. -/
theorem position_round {m : Nat} (hm : 0 < m) (e : Int) : ∃ q t, Rounds m e q t ∧
    ∀ s, (ofResult (.ofModel (.pack (round Format.binary64 s m e)))).isDefined = true ∧
      (ofResult (.ofModel (.pack (round Format.binary64 s m e)))).position =
        s.apply (patternOf q t) := by
  obtain ⟨q, t, hrounds, hpack⟩ := exists_rounds hm e
  exact ⟨q, t, hrounds, fun s => position_ofResult (hpack s) (patternOf_le q t)⟩

/-- A sum before it is rounded, in units of the lesser exponent. -/
theorem add_finite_eq {m m' : Nat} {e e' : Int} (hm : 0 < m) (hm' : 0 < m') (s s' : Sign) :
    UnpackedFloat.add Format.binary64 (.finite s m e hm) (.finite s' m' e' hm') =
      UnpackedFloat.normalize Format.binary64 (s.apply (m * 2 ^ (e - min e e').toNat : Nat) +
        s'.apply (m' * 2 ^ (e' - min e e').toNat : Nat)) (min e e') .positive := by
  rw [← Nat.shiftLeft_eq, ← Nat.shiftLeft_eq]
  rfl

/-- What adds to a number, in smaller units, does not lead below it. -/
theorem le_position_normalize {m a b : Nat} {e f : Int} (hm : 0 < m) (hcanonical : Canonical m e)
    (hle : f ≤ e) (ha : m * 2 ^ (e - f).toNat = a) (hb : 0 < b) (s : Sign) :
    let sum := UnpackedFloat.normalize Format.binary64 (s.apply (a : Int) + b) f .positive
    (ofResult (.ofModel (.pack sum))).isDefined = true ∧
      s.apply (patternOf m e) ≤ (ofResult (.ofModel (.pack sum))).position := by
  intro sum
  have hbelow : -(patternOf m e : Int) ≤ 0 := Int.neg_nonpos_of_nonneg (Int.natCast_nonneg _)
  cases s with
  | positive =>
      obtain ⟨q, t, hrounds, hposition⟩ := position_round (m := a + b) (by omega) f
      have hround : sum = round Format.binary64 .positive (a + b) f :=
        normalize_of_pos (n := (a : Int) + b) (by omega) f .positive
      rw [hround]
      refine ⟨(hposition _).1, ?_⟩
      rw [(hposition _).2]
      exact Int.ofNat_le.2 (hrounds.le_patternOf hm hcanonical hle (ha ▸ Nat.le_add_right a b))
  | negative =>
      rcases Nat.lt_trichotomy a b with hlt | rfl | hgt
      · obtain ⟨q, t, -, hposition⟩ := position_round (m := b - a) (by omega) f
        have hround : sum = round Format.binary64 .positive (b - a) f := by
          have hrest : (-(a : Int) + b).toNat = b - a := by omega
          rw [← hrest]
          exact normalize_of_pos (n := -(a : Int) + b) (by omega) f .positive
        rw [hround]
        refine ⟨(hposition _).1, ?_⟩
        rw [(hposition _).2]
        exact Int.le_trans hbelow (Int.natCast_nonneg _)
      · have hzero : sum = .zero .positive :=
          (congrArg (UnpackedFloat.normalize Format.binary64 · f .positive) (Int.add_left_neg a)).trans
            (normalize_zero f .positive)
        obtain ⟨hdefined, hposition⟩ := position_ofResult_zero .positive
        rw [hzero, hposition]
        exact ⟨hdefined, hbelow⟩
      · obtain ⟨q, t, hrounds, hposition⟩ := position_round (m := a - b) (by omega) f
        have hround : sum = round Format.binary64 .negative (a - b) f := by
          have hrest : (-(-(a : Int) + b)).toNat = a - b := by omega
          rw [← hrest]
          exact normalize_of_neg (n := -(a : Int) + b) (by omega) f .positive
        rw [hround]
        refine ⟨(hposition _).1, ?_⟩
        rw [(hposition _).2]
        exact Int.neg_le_neg (Int.ofNat_le.2
          (hrounds.patternOf_le (by omega) hcanonical hle (ha ▸ Nat.sub_le a b)))

/-- Adding to a number with a mantissa does not lead below it. -/
theorem le_position_add_finite {m m' : Nat} {e e' : Int} (hm : 0 < m) (hm' : 0 < m')
    (hcanonical : Canonical m e) (s : Sign) :
    let sum := UnpackedFloat.add Format.binary64 (.finite s m e hm) (.finite .positive m' e' hm')
    (ofResult (.ofModel (.pack sum))).isDefined = true ∧
      s.apply (patternOf m e) ≤ (ofResult (.ofModel (.pack sum))).position := by
  intro sum
  have hsum : sum = _ := add_finite_eq hm hm' s .positive
  rw [hsum]
  exact le_position_normalize hm hcanonical (Int.min_le_left e e') rfl
    (Nat.mul_pos hm' (Nat.two_pow_pos _)) s

theorem Parts.sign_eq {x : Double} (h : x.Nonneg) {s : Sign} {m : Nat} {e : Int} {hm : 0 < m}
    (hparts : Parts x (.finite s m e hm)) : s = .positive := by
  cases hparts with
  | finite _ _ _ _ _ hbits =>
      cases s with
      | positive => rfl
      | negative =>
          unfold Nonneg at h
          rw [toNat_negative] at hbits
          omega

/-- A sum is not less than a summand if the other one is not negative. -/
theorem le_add {x y : Double} (hx : x.isFinite = true) (hy : y.isFinite = true) (hpos : y.Nonneg) :
    x ≤ x + y := by
  have hxparts := parts_of_isFinite hx
  have hyparts := parts_of_isFinite hy
  rw [le_iff_position, add_eq hx hy]
  refine ⟨isDefined_of_isFinite hx, ?_⟩
  generalize unpack Format.binary64 x.bits.toBitVec = u at *
  generalize unpack Format.binary64 y.bits.toBitVec = v at *
  cases hxparts with
  | zero s hxbits =>
      rw [(Parts.zero s hxbits).position_eq_zero]
      cases hyparts with
      | zero s' hybits =>
          obtain ⟨s'', hadd⟩ := add_zeros s s'
          obtain ⟨hdefined, hposition⟩ := position_ofResult_zero s''
          rw [hadd]
          exact ⟨hdefined, Int.le_of_eq hposition.symm⟩
      | finite s' m' e' hm' hcanonical' hybits =>
          obtain ⟨hdefined, hposition⟩ :=
            (Parts.finite s' m' e' hm' hcanonical' hybits).position_ofResult
          refine ⟨hdefined, Int.le_trans ?_ (Int.le_of_eq hposition.symm)⟩
          rw [position_of_nonneg hpos]
          exact Int.natCast_nonneg _
  | finite s m e hm hcanonical hxbits =>
      cases hyparts with
      | zero s' hybits =>
          obtain ⟨hdefined, hposition⟩ := (Parts.finite s m e hm hcanonical hxbits).position_ofResult
          exact ⟨hdefined, Int.le_of_eq hposition.symm⟩
      | finite s' m' e' hm' hcanonical' hybits =>
          obtain rfl := (Parts.finite s' m' e' hm' hcanonical' hybits).sign_eq hpos
          rw [(position_of_toNat hxbits (patternOf_le m e)).2]
          exact le_position_add_finite hm hm' hcanonical s

end VectorQuery.Double
