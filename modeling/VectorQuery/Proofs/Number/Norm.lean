/-
# Norms are not negative

Sums and products of finite numbers are defined, though they may be infinite, so what a relation
predicts for an entity has defined components.  The norm of such a vector is a number that is not
negative: it is positive or it is zero (`Single.not_norm_pos_iff`).
-/
import VectorQuery.Proofs.Number.Order

namespace VectorQuery.Single

open Float.Model (Format UnpackedFloat)
open Float.Model.UnpackedFloat

/-! ## Finite patterns -/

theorem isFinite_unpack {b : BitVec 32} :
    (unpack Format.binary32 b).isFinite = true ↔ @unpackExponent Format.binary32 b ≠ -1#8 := by
  unfold unpack
  dsimp only
  split
  · rename_i h
    refine iff_of_false ?_ (not_not.2 h)
    split <;> exact Bool.false_ne_true
  · rename_i h
    refine iff_of_true ?_ h
    split
    · split <;> rfl
    · rfl

/-- The exponent of a finite pattern is below the greatest. -/
theorem exponent_lt_of_unpack {b : BitVec 32} {s : Sign} {m : Nat} {e : Int} {hm : 0 < m}
    (h : unpack Format.binary32 b = .finite s m e hm) : (e + 127 + 23).toNat < 255 := by
  have hfinite : @unpackExponent Format.binary32 b ≠ -1#8 := by
    rw [← isFinite_unpack, h]
    rfl
  have hlt : (@unpackExponent Format.binary32 b).toNat < 255 := by
    have hle := (@unpackExponent Format.binary32 b).isLt
    have hne : (@unpackExponent Format.binary32 b).toNat ≠ 255 :=
      fun heq => hfinite (BitVec.eq_of_toNat_eq heq)
    change _ < 2 ^ 8 at hle
    omega
  unfold unpack at h
  dsimp only at h
  rw [if_neg hfinite] at h
  split at h
  · split at h
    · cases h
    · cases h
      rename_i hzero _
      rw [hzero]
      decide
  · cases h
    change ((@unpackExponent Format.binary32 b).toNat - (127 + 23) + 127 + 23 : Int).toNat < 255
    omega

/-- A finite pattern stays finite when it is taken apart and put together. -/
theorem isFinite_unpack_pack {b : BitVec 32} (h : (unpack Format.binary32 b).isFinite = true) :
    (unpack Format.binary32 (pack Format.binary32 (unpack Format.binary32 b))).isFinite = true := by
  rw [isFinite_unpack]
  cases hb : unpack Format.binary32 b with
  | notANumber =>
      rw [hb] at h
      cases h
  | infinity s =>
      rw [hb] at h
      cases h
  | zero s => cases s <;> decide
  | finite s m e hm =>
      have hlt := exponent_lt_of_unpack hb
      have hfits : ¬ 2 ^ 8 ≤ (e + 127 + 23).toNat + 1 := by omega
      have hpack : pack Format.binary32 (.finite s m e hm) =
          if m.log2 + 1 = Format.binary32.mantissaBits then
            packComponents Format.binary32 s (BitVec.ofNat 8 (e + 127 + 23).toNat)
              (BitVec.ofNat 23 m)
          else packComponents Format.binary32 s 0#8 (BitVec.ofNat 23 m) :=
        if_neg hfits
      rw [hpack]
      split
      · rw [unpackExponent_packComponents]
        intro heq
        have hnat := congrArg BitVec.toNat heq
        rw [BitVec.toNat_ofNat] at hnat
        change _ % 256 = 255 at hnat
        omega
      · rw [unpackExponent_packComponents]
        decide

theorem isFinite_parts {x : Single} (h : Quantity.isFinite x = true) : x.parts.isFinite = true := by
  have hinfinity : infinity.bits.toNat = 255 * 2 ^ 23 := rfl
  have hdefined : Quantity.isDefined x = true ∧ (!x.isInfinite) = true := Bool.and_eq_true_iff.1 h
  rw [isDefined_eq, isDefined, decide_eq_true_eq, UInt32.le_iff_toNat_le, isInfinite,
    Bool.not_eq_true', decide_eq_false_iff_not, ← UInt32.toNat_inj, toNat_unsigned,
    hinfinity] at hdefined
  rw [parts, isFinite_unpack]
  intro heq
  have hexponent := congrArg BitVec.toNat heq
  rw [toNat_exponent] at hexponent
  change _ = 255 at hexponent
  omega

/-! ## Sums and products of finite numbers -/

theorem isNaN_add {spec : Format} {f g : UnpackedFloat} (hf : f.isFinite = true)
    (hg : g.isFinite = true) : (UnpackedFloat.add spec f g).isNaN = false := by
  match f, g, hf, hg with
  | .zero s, .zero t, _, _ => cases s <;> cases t <;> rfl
  | .zero _, .finite .., _, _ => rfl
  | .finite .., .zero _, _, _ => rfl
  | .finite .., .finite .., _, _ => exact isNaN_normalize ..

theorem isNaN_mul {spec : Format} {f g : UnpackedFloat} (hf : f.isFinite = true)
    (hg : g.isFinite = true) : (UnpackedFloat.mul spec f g).isNaN = false := by
  match f, g, hf, hg with
  | .zero _, .zero _, _, _ => rfl
  | .zero _, .finite .., _, _ => rfl
  | .finite .., .zero _, _, _ => rfl
  | .finite .., .finite .., _, _ => exact isNaN_roundWithAccuracy ..

variable {x y : Single}

theorem isDefined_add (hx : Quantity.isFinite x = true) (hy : Quantity.isFinite y = true) :
    (x + y).isDefined = true := by
  change (lift₂ (· + ·) x y).isDefined = true
  rw [lift₂, if_pos (isDefined_of_isFinite hx), if_pos (isDefined_of_isFinite hy)]
  exact isDefined_ofResult (isNaN_add (isFinite_unpack_pack (isFinite_parts hx))
    (isFinite_unpack_pack (isFinite_parts hy)))

theorem isDefined_mul (hx : Quantity.isFinite x = true) (hy : Quantity.isFinite y = true) :
    (x * y).isDefined = true := by
  change (lift₂ (· * ·) x y).isDefined = true
  rw [lift₂, if_pos (isDefined_of_isFinite hx), if_pos (isDefined_of_isFinite hy)]
  exact isDefined_ofResult (isNaN_mul (isFinite_unpack_pack (isFinite_parts hx))
    (isFinite_unpack_pack (isFinite_parts hy)))

theorem forall_mem_zipWith {α β γ : Type} {f : α → β → γ} {as : List α} {bs : List β}
    {P : γ → Prop} (h : ∀ a ∈ as, ∀ b ∈ bs, P (f a b)) : ∀ c ∈ List.zipWith f as bs, P c := by
  intro c hc
  rw [← List.map_uncurry_zip_eq_zipWith] at hc
  obtain ⟨⟨a, b⟩, hab, rfl⟩ := List.mem_map.1 hc
  exact h a (List.of_mem_zip hab).1 b (List.of_mem_zip hab).2

section

variable {v w : Embedding} (hv : v.isFinite = true) (hw : w.isFinite = true)

include hv hw

theorem isDefined_of_mem_add : ∀ x ∈ v.add w, x.isDefined = true :=
  forall_mem_zipWith fun a ha b hb =>
    isDefined_add (List.all_eq_true.1 hv a ha) (List.all_eq_true.1 hw b hb)

theorem isDefined_of_mem_bind : ∀ x ∈ v.bind w, x.isDefined = true :=
  forall_mem_zipWith fun a ha b hb =>
    isDefined_mul (List.all_eq_true.1 hv a ha) (List.all_eq_true.1 hw b hb)

end

/-! ## Norms -/

/-- A number that has a square root has no sign, or it is zero. -/
theorem unpackSign_of_isRadicand {b : BitVec 32} (h : IsRadicand (unpack Format.binary32 b)) :
    @unpackSign Format.binary32 b = 0#1 ∨
      @unpackExponent Format.binary32 b = 0#8 ∧ @unpackMantissa Format.binary32 b = 0#23 := by
  rcases BitVec.eq_zero_or_eq_one (@unpackSign Format.binary32 b) with hsign | hsign
  · exact .inl hsign
  · refine .inr ?_
    unfold unpack at h
    dsimp only at h
    rw [hsign] at h
    split at h
    · split at h <;> exact h.elim
    · split at h
      · split at h
        · exact ⟨‹_›, ‹_›⟩
        · exact h.elim
      · exact h.elim

theorem toNat_sign (x : Single) :
    (@unpackSign Format.binary32 x.bits.toBitVec).toNat = x.bits.toNat / 2 ^ 31 := by
  have hsign : (@unpackSign Format.binary32 x.bits.toBitVec).toNat = x.bits.toNat / 2 ^ 31 % 2 := by
    simp [unpackSign, BitVec.extractLsb, Nat.shiftRight_eq_div_pow]
  have hlt := x.bits.toNat_lt
  rw [hsign]
  omega

/-- A number that has a square root is not negative. -/
theorem nonneg_of_isRadicand (h : IsRadicand x.parts) : 0 ≤ x := by
  have hzero : (0 : Single).isDefined = true ∧ (0 : Single).position = 0 := by decide
  rw [le_iff_position]
  refine ⟨hzero.1, isDefined_of_isRadicand h, ?_⟩
  rw [hzero.2, position]
  rcases unpackSign_of_isRadicand h with hsign | ⟨hexponent, hmantissa⟩
  · have hbits := congrArg BitVec.toNat hsign
    rw [toNat_sign] at hbits
    change _ = 0 at hbits
    rw [if_neg (mt (isNegative_iff x).1 (by omega))]
    omega
  · have hexponent := congrArg BitVec.toNat hexponent
    have hmantissa := congrArg BitVec.toNat hmantissa
    rw [toNat_exponent] at hexponent
    rw [toNat_mantissa] at hmantissa
    change _ = 0 at hexponent hmantissa
    have hbits : x.bits.toNat % 2 ^ 31 = 0 := by omega
    rw [hbits]
    split <;> rfl

theorem isRadicand_sqrt {spec : Format} {f : UnpackedFloat} (h : IsRadicand f) :
    IsRadicand (UnpackedFloat.sqrt spec f) := by
  match f, h with
  | .infinity .positive, _ => trivial
  | .zero _, _ => trivial
  | .finite .positive .., _ => exact isRadicand_roundWithAccuracy ..

/-- The norm of defined components is not negative. -/
theorem norm_nonneg {v : Embedding} (h : ∀ x ∈ v, x.isDefined = true) : 0 ≤ v.norm := by
  have hdot := isRadicand_dot_self h
  refine nonneg_of_isRadicand ?_
  rw [Embedding.norm, sqrt, lift, if_pos (isDefined_of_isRadicand hdot)]
  exact isRadicand_ofResult (isRadicand_sqrt (isRadicand_unpack_pack hdot))

/-- Such a norm is positive unless it is zero. -/
theorem not_norm_pos_iff {v : Embedding} (h : ∀ x ∈ v, x.isDefined = true) :
    ¬ 0 < v.norm ↔ (v.norm == 0) = true := by
  have hnonneg := norm_nonneg h
  rw [beq_iff]
  constructor
  · intro hpos
    exact ⟨le_of_not_lt (isDefined_left hnonneg) (isDefined_right hnonneg) hpos, hnonneg⟩
  · rintro ⟨hle, -⟩
    exact not_lt_of_le hle

end VectorQuery.Single
