/-
# Rounding undoes reading

A finite pattern stands for an exact number, and `Binary.interval` is what surrounds that number on
the way to its two neighbours.  Every positive rational of the interval is rounded to the pattern
it was taken around (`nearest_of_contains`).

The proof compares the grid that `Format.nearest` rounds to with the grid of the pattern.  They are
the same but below the least number of a binade, where the interval reaches into the finer grid.
-/
import VectorQuery.Number.Decimal
import VectorQuery.Number.Pattern
import Mathlib.Algebra.Order.Field.Power
import Mathlib.Data.Rat.Cast.Order
import Mathlib.Tactic.FieldSimp
import Mathlib.Tactic.Linarith
import Mathlib.Tactic.Positivity
import Mathlib.Tactic.Ring

namespace VectorQuery.Number

/-! ## Quotients -/

/-- A quotient at most half away from `m` is rounded to `m`, when exactly half only if `m` is
even. -/
theorem roundQuotient_even_eq {n d m : Nat} (hd : 0 < d) (hlow : 2 * m * d ≤ 2 * n + d)
    (hhigh : 2 * n ≤ (2 * m + 1) * d)
    (htie : m % 2 = 0 ∨ (2 * m * d < 2 * n + d ∧ 2 * n < (2 * m + 1) * d)) :
    roundQuotient .even n d = m := by
  have hn : d * (n / d) + n % d = n := Nat.div_add_mod n d
  have hr : n % d < d := Nat.mod_lt n hd
  have key : ∀ {a b : Nat}, a * d < b * d → a < b := fun h => Nat.lt_of_mul_lt_mul_right h
  simp only [roundQuotient]
  generalize n / d = q at *
  generalize n % d = r at *
  subst hn
  split
  · have h1 : 2 * m < 2 * q + 2 := key (by nlinarith)
    have h2 : 2 * q < 2 * m + 2 := key (by nlinarith)
    omega
  · split
    · have h1 : 2 * m < 2 * q + 3 := key (by nlinarith)
      have h2 : 2 * q + 1 < 2 * m + 1 := key (by nlinarith)
      omega
    · have h1 : 2 * m < 2 * q + 3 := key (by nlinarith)
      have h2 : 2 * q < 2 * m + 2 := key (by nlinarith)
      rcases htie with he | ⟨hl, hh⟩
      · omega
      · have h3 : 2 * m < 2 * q + 2 := key (by nlinarith)
        have h4 : 2 * q + 1 < 2 * m + 1 := key (by nlinarith)
        omega

/-- An integer power in two natural ones, of which one is 1. -/
theorem toNat_div_toNat (b : ℚ) (z : Int) :
    b ^ z.toNat / b ^ (-z).toNat = b ^ z := by
  rcases Int.le_total 0 z with h | h
  · lift z to Nat using h
    simp
  · obtain ⟨k, rfl⟩ : ∃ k : Nat, z = -k := ⟨(-z).toNat, by omega⟩
    simp

theorem div_mul_toNat {b n d : ℚ} (hb : b ≠ 0) (z : Int) :
    n * b ^ (-z).toNat / (d * b ^ z.toNat) = n / d / b ^ z := by
  rw [← toNat_div_toNat b z]
  field_simp

/-! ## The leading exponent -/

theorem two_zpow_pos (z : Int) : (0 : ℚ) < 2 ^ z := zpow_pos (by norm_num) z

theorem leadingExponent_spec {n d : Nat} (hn : 0 < n) (hd : 0 < d) :
    (2 : ℚ) ^ Format.leadingExponent n d ≤ n / d ∧
      (n / d : ℚ) < 2 ^ (Format.leadingExponent n d + 1) := by
  have hd' : (0 : ℚ) < d := by exact_mod_cast hd
  have hn1 : (2 : ℚ) ^ n.log2 ≤ n := by exact_mod_cast Nat.log2_self_le hn.ne'
  have hn2 : (n : ℚ) < 2 ^ (n.log2 + 1) := by exact_mod_cast Nat.lt_log2_self
  have hd1 : (2 : ℚ) ^ d.log2 ≤ d := by exact_mod_cast Nat.log2_self_le hd.ne'
  have hd2 : (d : ℚ) < 2 ^ (d.log2 + 1) := by exact_mod_cast Nat.lt_log2_self
  have hup : (n / d : ℚ) < 2 ^ ((n.log2 : Int) - d.log2 + 1) := by
    rw [div_lt_iff₀ hd']
    calc (n : ℚ) < 2 ^ (n.log2 + 1) := hn2
      _ = 2 ^ ((n.log2 : Int) - d.log2 + 1) * 2 ^ d.log2 := by
          rw [← zpow_natCast, ← zpow_natCast, ← zpow_add₀ (by norm_num)]
          congr 1
          push_cast
          ring
      _ ≤ _ := mul_le_mul_of_nonneg_left hd1 (two_zpow_pos _).le
  have hlow : (2 : ℚ) ^ ((n.log2 : Int) - d.log2 - 1) ≤ n / d := by
    rw [le_div_iff₀ hd']
    calc (2 : ℚ) ^ ((n.log2 : Int) - d.log2 - 1) * d
        ≤ 2 ^ ((n.log2 : Int) - d.log2 - 1) * 2 ^ (d.log2 + 1) :=
          mul_le_mul_of_nonneg_left hd2.le (two_zpow_pos _).le
      _ = 2 ^ n.log2 := by
          rw [← zpow_natCast, ← zpow_natCast, ← zpow_add₀ (by norm_num)]
          congr 1
          push_cast
          ring
      _ ≤ n := hn1
  have htest : (n * 2 ^ (-((n.log2 : Int) - d.log2)).toNat
      < d * 2 ^ ((n.log2 : Int) - d.log2).toNat) ↔
      (n / d : ℚ) < 2 ^ ((n.log2 : Int) - d.log2) := by
    rw [← toNat_div_toNat 2, div_lt_div_iff₀ hd' (by positivity),
      mul_comm _ (d : ℚ)]
    exact_mod_cast Iff.rfl
  unfold Format.leadingExponent
  dsimp only
  split
  · rename_i h
    exact ⟨hlow, by simpa using htest.1 h⟩
  · rename_i h
    exact ⟨not_lt.1 (mt htest.2 h), hup⟩

theorem le_leadingExponent {n d : Nat} (hn : 0 < n) (hd : 0 < d) {k : Int}
    (h : (2 : ℚ) ^ k ≤ n / d) : k ≤ Format.leadingExponent n d := by
  have := h.trans_lt (leadingExponent_spec hn hd).2
  have := (zpow_lt_zpow_iff_right₀ (by norm_num : (1 : ℚ) < 2)).1 this
  omega

theorem leadingExponent_lt {n d : Nat} (hn : 0 < n) (hd : 0 < d) {k : Int}
    (h : (n / d : ℚ) < 2 ^ k) : Format.leadingExponent n d < k := by
  have := (leadingExponent_spec hn hd).1.trans_lt h
  exact (zpow_lt_zpow_iff_right₀ (by norm_num : (1 : ℚ) < 2)).1 this

/-! ## Intervals -/

/-- A rational of the interval; the ends count when they read back. -/
def Interval.Contains (i : Interval) (x : ℚ) : Prop :=
  if i.closed then (i.low : ℚ) ≤ x * i.denominator ∧ x * i.denominator ≤ i.high
  else (i.low : ℚ) < x * i.denominator ∧ x * i.denominator < i.high

theorem Interval.Contains.le {i : Interval} {x : ℚ} (h : i.Contains x) :
    (i.low : ℚ) ≤ x * i.denominator ∧ x * i.denominator ≤ i.high := by
  unfold Interval.Contains at h
  split at h
  · exact h
  · exact ⟨h.1.le, h.2.le⟩

theorem Interval.Contains.lt {i : Interval} {x : ℚ} (h : i.Contains x) (hc : i.closed = false) :
    (i.low : ℚ) < x * i.denominator ∧ x * i.denominator < i.high := by
  rwa [Interval.Contains, hc, if_neg (by simp)] at h

/-- How far below a number its interval reaches, in half units. -/
def Binary.reach (b : Binary) : ℚ := if b.tight then 1 / 2 else 1

/-- The interval reaches half a unit above a number and half a unit below, or a quarter below the
least number of a binade.  The ends are in for an even mantissa. -/
theorem Binary.bounds_of_contains {b : Binary} {x : ℚ} (h : b.interval.Contains x) :
    2 * b.mantissa - b.reach ≤ 2 * (x / 2 ^ b.exponent) ∧
      2 * (x / 2 ^ b.exponent) ≤ 2 * b.mantissa + 1 ∧
      (b.mantissa % 2 = 0 ∨ 2 * b.mantissa - b.reach < 2 * (x / 2 ^ b.exponent) ∧
        2 * (x / 2 ^ b.exponent) < 2 * b.mantissa + 1) := by
  have hx : 4 * (x / 2 ^ b.exponent)
      = x * 2 ^ (-(b.exponent - 2)).toNat / 2 ^ (b.exponent - 2).toNat := by
    have hquarter : 4 * (x / 2 ^ b.exponent) = x / (2 : ℚ) ^ (b.exponent - 2) := by
      rw [zpow_sub₀ (by norm_num)]
      field_simp
      ring
    rw [hquarter, ← toNat_div_toNat 2 (b.exponent - 2)]
    field_simp
  have hlow : 4 * b.mantissa - 2 * b.reach
      ≤ (4 * b.mantissa - if b.tight then 1 else 2 : Nat) := by
    have h1 : 4 * b.mantissa ≤ 4 * b.mantissa - 1 + 1 := by omega
    have h2 : 4 * b.mantissa ≤ 4 * b.mantissa - 2 + 2 := by omega
    rw [reach]
    split
    · have : (4 * b.mantissa : ℚ) ≤ (4 * b.mantissa - 1 : Nat) + 1 := by exact_mod_cast h1
      linarith
    · have : (4 * b.mantissa : ℚ) ≤ (4 * b.mantissa - 2 : Nat) + 2 := by exact_mod_cast h2
      linarith
  have hup : (0 : ℚ) < 2 ^ (b.exponent - 2).toNat := by positivity
  have hden : (b.interval.denominator : ℚ) = 2 ^ (-(b.exponent - 2)).toNat := by
    simp [Binary.interval]
  have hend : (b.interval.low : ℚ)
      = (4 * b.mantissa - if b.tight then 1 else 2 : Nat) * 2 ^ (b.exponent - 2).toNat := by
    simp [Binary.interval]
  have hhigh : (b.interval.high : ℚ) = (4 * b.mantissa + 2) * 2 ^ (b.exponent - 2).toNat := by
    simp [Binary.interval]
  have hle := h.le
  rw [hden, hend, hhigh, ← le_div_iff₀ hup, ← div_le_iff₀ hup, ← hx] at hle
  refine ⟨by linarith, by linarith, ?_⟩
  by_cases hm : b.mantissa % 2 = 0
  · exact .inl hm
  · have hlt := h.lt (by simpa [Binary.interval] using hm)
    rw [hden, hend, hhigh, ← lt_div_iff₀ hup, ← div_lt_iff₀ hup, ← hx] at hlt
    exact .inr ⟨by linarith, by linarith⟩

/-! ## Rounding -/

/-- The exponent of the last place that `n / d` is rounded to. -/
def Format.unit (f : Format) (n d : Nat) : Int :=
  max (leadingExponent n d) (1 - f.bias) - f.fractionBits

/-- The least exponent of a last place. -/
def Format.leastUnit (f : Format) : Int := 1 - f.bias - f.fractionBits

theorem Format.leastUnit_eq (f : Format) :
    f.leastUnit = 2 - 2 ^ (f.exponentBits - 1) - f.fractionBits := by
  have : 0 < 2 ^ (f.exponentBits - 1) := by positivity
  rw [leastUnit, bias]
  push_cast [Nat.one_le_two_pow]
  ring

/-- Rounding to a grid: when `n / d` is next to `m` on the grid of its last place. -/
theorem Format.nearest_eq {f : Format} {n d m : Nat} {k : Int} (hn : 0 < n) (hd : 0 < d)
    (hk : f.unit n d = k) (hlow : (2 * m - 1 : ℚ) ≤ 2 * (n / d / 2 ^ k))
    (hhigh : 2 * (n / d / 2 ^ k) ≤ (2 * m + 1 : ℚ))
    (htie : m % 2 = 0 ∨
      ((2 * m - 1 : ℚ) < 2 * (n / d / 2 ^ k) ∧ 2 * (n / d / 2 ^ k) < (2 * m + 1 : ℚ)))
    (hfit : (k - f.leastUnit).toNat * 2 ^ f.fractionBits + m
      ≤ (2 ^ f.exponentBits - 1) * 2 ^ f.fractionBits) :
    f.nearest false n d = (k - f.leastUnit).toNat * 2 ^ f.fractionBits + m := by
  subst hk
  have hd' : 0 < d * 2 ^ (f.unit n d).toNat := by positivity
  have hq : (n / d / 2 ^ f.unit n d : ℚ)
      = (n * 2 ^ (-f.unit n d).toNat : Nat) / (d * 2 ^ (f.unit n d).toNat : Nat) := by
    push_cast
    rw [div_mul_toNat (by norm_num)]
  have hround : roundQuotient .even (n * 2 ^ (-f.unit n d).toNat)
      (d * 2 ^ (f.unit n d).toNat) = m := by
    rw [hq] at hlow hhigh htie
    generalize n * 2 ^ (-f.unit n d).toNat = a at *
    generalize d * 2 ^ (f.unit n d).toNat = c at *
    have hc : (0 : ℚ) < c := by exact_mod_cast hd'
    rw [mul_div_assoc', le_div_iff₀ hc] at hlow
    rw [mul_div_assoc', div_le_iff₀ hc] at hhigh
    rw [mul_div_assoc', lt_div_iff₀ hc, div_lt_iff₀ hc] at htie
    refine roundQuotient_even_eq hd' ?_ (by exact_mod_cast hhigh) ?_
    · have : (2 * m * c : ℚ) ≤ 2 * a + c := by linarith
      exact_mod_cast this
    · rcases htie with he | ⟨hl, hh⟩
      · exact .inl he
      · have : (2 * m * c : ℚ) < 2 * a + c := by linarith
        exact .inr ⟨by exact_mod_cast this, by exact_mod_cast hh⟩
  have hlead : max (leadingExponent n d) (1 - f.bias) + f.bias - 1 = f.unit n d - f.leastUnit := by
    rw [unit, leastUnit]
    ring
  rw [nearest, if_neg hn.ne']
  dsimp only
  rw [hlead]
  change f.pattern false 0 (min (_ * _ + roundQuotient .even
    (n * 2 ^ (-f.unit n d).toNat) (d * 2 ^ (f.unit n d).toNat)) _) = _
  rw [hround, Nat.min_eq_left (by simpa [pattern] using hfit)]
  simp [pattern]

/-- The last place of `n / d` is `2 ^ k` when `n / d` has `fractionBits + 1` bits before it, or less
bits and `k` is the least exponent. -/
theorem Format.unit_eq {f : Format} {n d : Nat} (hn : 0 < n) (hd : 0 < d) {k : Int}
    (hk : f.leastUnit ≤ k) (hlow : k = f.leastUnit ∨ (2 ^ f.fractionBits : ℚ) ≤ n / d / 2 ^ k)
    (hhigh : (n / d / 2 ^ k : ℚ) < 2 ^ (f.fractionBits + 1)) : f.unit n d = k := by
  have hpow : ∀ j : Nat, (2 : ℚ) ^ j * 2 ^ k = 2 ^ ((j : Int) + k) := by
    intro j
    rw [zpow_add₀ (by norm_num), zpow_natCast]
  have hlt : leadingExponent n d < f.fractionBits + 1 + k := by
    rw [div_lt_iff₀ (two_zpow_pos k), hpow] at hhigh
    have := leadingExponent_lt hn hd hhigh
    push_cast at this
    exact this
  rw [unit]
  rw [leastUnit] at hk hlow
  rcases hlow with hlow | hlow
  · omega
  · rw [le_div_iff₀ (two_zpow_pos k), hpow] at hlow
    have := le_leadingExponent hn hd hlow
    omega

/-- A rational within half a unit of `m`, where `m` counts units of `2 ^ k`. -/
theorem Format.nearest_of_half {f : Format} {n d m : Nat} {k : Int} (hn : 0 < n) (hd : 0 < d)
    (hk : f.leastUnit ≤ k) (hm : m < 2 * 2 ^ f.fractionBits)
    (hfirst : k = f.leastUnit ∨ (2 ^ f.fractionBits : ℚ) ≤ n / d / 2 ^ k)
    (hlow : (2 * m - 1 : ℚ) ≤ 2 * (n / d / 2 ^ k)) (hhigh : 2 * (n / d / 2 ^ k) ≤ (2 * m + 1 : ℚ))
    (htie : m % 2 = 0 ∨
      ((2 * m - 1 : ℚ) < 2 * (n / d / 2 ^ k) ∧ 2 * (n / d / 2 ^ k) < (2 * m + 1 : ℚ)))
    (hfit : (k - f.leastUnit).toNat * 2 ^ f.fractionBits + m
      ≤ (2 ^ f.exponentBits - 1) * 2 ^ f.fractionBits) :
    f.nearest false n d = (k - f.leastUnit).toNat * 2 ^ f.fractionBits + m := by
  refine nearest_eq hn hd (unit_eq hn hd hk hfirst ?_) hlow hhigh htie hfit
  have : (m + 1 : ℚ) ≤ 2 * 2 ^ f.fractionBits := by exact_mod_cast hm
  rw [pow_succ]
  linarith

theorem Format.reading_of_lt {f : Format} {p : Nat}
    (hp : p < 2 ^ f.exponentBits * 2 ^ f.fractionBits) :
    f.reading p = .ofFields f.fractionBits f.exponentBits false (p / 2 ^ f.fractionBits)
      (p % 2 ^ f.fractionBits) := by
  have htop : p / 2 ^ f.fractionBits < 2 ^ f.exponentBits :=
    (Nat.div_lt_iff_lt_mul (by positivity)).2 hp
  simp [reading, Nat.div_eq_of_lt htop, Nat.mod_eq_of_lt htop]

/-- A pattern below the infinite one is finite; only the pattern of zero has no mantissa. -/
theorem Format.exists_reading {f : Format} {p : Nat}
    (hp : p < (2 ^ f.exponentBits - 1) * 2 ^ f.fractionBits) :
    ∃ b, f.reading p = .finite b ∧ (b.mantissa = 0 → p = 0) := by
  have hfraction : 0 < 2 ^ f.fractionBits := by positivity
  have htop : p / 2 ^ f.fractionBits < 2 ^ f.exponentBits - 1 :=
    (Nat.div_lt_iff_lt_mul hfraction).2 hp
  have hsplit : p / 2 ^ f.fractionBits * 2 ^ f.fractionBits + p % 2 ^ f.fractionBits = p :=
    Nat.div_add_mod' p _
  have hlt : p < 2 ^ f.exponentBits * 2 ^ f.fractionBits :=
    hp.trans_le (Nat.mul_le_mul_right _ (Nat.sub_le _ _))
  rw [reading_of_lt hlt, Reading.ofFields, if_neg htop.ne]
  split
  · rename_i htop0
    refine ⟨_, rfl, fun hm => ?_⟩
    dsimp only at hm
    rw [← hsplit, htop0, hm, Nat.zero_mul]
  · refine ⟨_, rfl, fun hm => ?_⟩
    dsimp only at hm
    omega

/-- Setting the sign bit of a finite pattern changes the sign of the reading. -/
theorem Format.reading_add_sign {f : Format} {p : Nat} {b : Binary}
    (hp : p < 2 ^ f.exponentBits * 2 ^ f.fractionBits) (h : f.reading p = .finite b) :
    f.reading (p + 2 ^ f.exponentBits * 2 ^ f.fractionBits) = .finite { b with negative := true } := by
  have hfraction : 0 < 2 ^ f.fractionBits := by positivity
  have htop : p / 2 ^ f.fractionBits < 2 ^ f.exponentBits :=
    (Nat.div_lt_iff_lt_mul hfraction).2 hp
  rw [reading_of_lt hp] at h
  rw [reading, Nat.add_mul_div_right _ _ hfraction, Nat.add_mul_mod_self_right, Nat.add_mod_right,
    Nat.mod_eq_of_lt htop, Nat.add_div_right _ (by positivity), Nat.div_eq_of_lt htop]
  unfold Reading.ofFields at h ⊢
  dsimp only at h ⊢
  split at h
  · split at h <;> cases h
  · rename_i hne
    rw [if_neg hne]
    split at h
    · rename_i h0
      rw [if_pos h0]
      cases h
      rfl
    · rename_i h0
      rw [if_neg h0]
      cases h
      rfl

/-- The mantissa of a finite reading fits its bits, and its exponent is in the range. -/
theorem Format.bounds_of_reading {f : Format} {p : Nat} {b : Binary}
    (hp : p < 2 ^ f.exponentBits * 2 ^ f.fractionBits) (h : f.reading p = .finite b) :
    b.negative = false ∧ b.mantissa < 2 * 2 ^ f.fractionBits ∧ f.leastUnit ≤ b.exponent ∧
      b.exponent ≤ f.leastUnit + 2 ^ f.exponentBits := by
  have hfraction : p % 2 ^ f.fractionBits < 2 ^ f.fractionBits := Nat.mod_lt _ (by positivity)
  have htop : p / 2 ^ f.fractionBits < 2 ^ f.exponentBits :=
    (Nat.div_lt_iff_lt_mul (by positivity)).2 hp
  rw [reading_of_lt hp, Reading.ofFields, ← leastUnit_eq] at h
  generalize p / 2 ^ f.fractionBits = top at *
  generalize p % 2 ^ f.fractionBits = fraction at *
  have htop' : (top : Int) < 2 ^ f.exponentBits := by exact_mod_cast htop
  split at h
  · split at h <;> cases h
  · split at h
    · cases h
      refine ⟨rfl, ?_, ?_, ?_⟩ <;> dsimp only <;> omega
    · cases h
      refine ⟨rfl, ?_, ?_, ?_⟩ <;> dsimp only <;> omega

/-- Just below the least number of a binade the grid is finer, and a rational there that is near to
the number is rounded to it. -/
theorem Format.nearest_below_binade {f : Format} {n d : Nat} (hn : 0 < n) (hd : 0 < d) {t : Nat}
    (ht : 0 < t) {y : ℚ} (hy : (n / d / 2 ^ (f.leastUnit + (t : Int)) : ℚ) = y)
    (hlt : y < 2 ^ f.fractionBits) (hreach : 2 * 2 ^ f.fractionBits - 1 / 2 ≤ 2 * y)
    (hfit : (t + 1) * 2 ^ f.fractionBits ≤ (2 ^ f.exponentBits - 1) * 2 ^ f.fractionBits) :
    f.nearest false n d = (t + 1) * 2 ^ f.fractionBits := by
  have hone : (1 : ℚ) ≤ 2 ^ f.fractionBits := one_le_pow₀ (by norm_num)
  have hy' : (n / d / 2 ^ (f.leastUnit + (t : Int) - 1) : ℚ) = 2 * y := by
    rw [← hy, zpow_sub₀ (by norm_num)]
    field_simp
  have hunit : f.unit n d = f.leastUnit + t - 1 := by
    refine unit_eq hn hd (by omega) (.inr ?_) ?_
    · rw [hy']
      linarith
    · rw [hy', pow_succ]
      linarith
  have hplace : (f.leastUnit + (t : Int) - 1 - f.leastUnit).toNat = t - 1 := by omega
  have hsum : (t - 1) * 2 ^ f.fractionBits + 2 * 2 ^ f.fractionBits
      = (t + 1) * 2 ^ f.fractionBits := by
    rw [← Nat.add_mul]
    congr 1
    omega
  rw [nearest_eq (m := 2 * 2 ^ f.fractionBits) hn hd hunit, hplace, hsum]
  · rw [hy']
    push_cast
    linarith
  · rw [hy']
    push_cast
    linarith
  · exact .inl (by omega)
  · rw [hplace, hsum]
    exact hfit

/-- What lies in the interval of a number and not on the finer grid below its binade is within half
a unit of the number. -/
theorem Binary.near_of_bounds {F fraction t : Nat} {k : Int} {y : ℚ}
    (hlow : 2 * (2 ^ F + fraction) - Binary.reach ⟨false, 2 ^ F + fraction, k,
      decide (fraction = 0) && decide (t + 1 > 1)⟩ ≤ 2 * y)
    (hhigh : 2 * y ≤ 2 * (2 ^ F + fraction) + 1)
    (htie : (2 ^ F + fraction) % 2 = 0 ∨
      2 * (2 ^ F + fraction) - Binary.reach ⟨false, 2 ^ F + fraction, k,
        decide (fraction = 0) && decide (t + 1 > 1)⟩ < 2 * y ∧
      2 * y < 2 * (2 ^ F + fraction) + 1)
    (hcoarse : ¬ ((fraction = 0 ∧ 1 < t + 1) ∧ y < 2 ^ F)) :
    (t = 0 ∨ 2 ^ F ≤ y) ∧ 2 * (2 ^ F + fraction) - 1 ≤ 2 * y ∧
      ((2 ^ F + fraction) % 2 = 0 ∨ 2 * (2 ^ F + fraction) - 1 < 2 * y ∧
        2 * y < 2 * (2 ^ F + fraction) + 1) := by
  by_cases hquarter : fraction = 0 ∧ 1 < t + 1
  · have hge : 2 ^ F ≤ y := not_lt.1 fun hlt => hcoarse ⟨hquarter, hlt⟩
    obtain ⟨rfl, -⟩ := hquarter
    push_cast at hhigh htie ⊢
    exact ⟨.inr hge, by linarith, htie.imp_right fun h => ⟨by linarith, h.2⟩⟩
  · have hreach : Binary.reach ⟨false, 2 ^ F + fraction, k,
        decide (fraction = 0) && decide (t + 1 > 1)⟩ = 1 := by
      rw [Binary.reach, if_neg]
      simpa using hquarter
    rw [hreach] at hlow htie
    refine ⟨?_, hlow, htie⟩
    rcases Nat.eq_zero_or_pos t with ht | ht
    · exact .inl ht
    · have hone : 1 ≤ fraction := by omega
      have hone : (1 : ℚ) ≤ fraction := by exact_mod_cast hone
      exact .inr (by linarith)

/-- A positive rational that the interval of a number holds is rounded to the number's pattern. -/
theorem Format.nearest_of_contains {f : Format} {p : Nat} {b : Binary}
    (hp : p < 2 ^ f.exponentBits * 2 ^ f.fractionBits) (h : f.reading p = .finite b)
    {n d : Nat} (hn : 0 < n) (hd : 0 < d) (hc : b.interval.Contains (n / d)) :
    f.nearest false n d = p := by
  have hsplit : p / 2 ^ f.fractionBits * 2 ^ f.fractionBits + p % 2 ^ f.fractionBits = p :=
    Nat.div_add_mod' p _
  have hfraction : p % 2 ^ f.fractionBits < 2 ^ f.fractionBits := Nat.mod_lt _ (by positivity)
  have htop : p / 2 ^ f.fractionBits < 2 ^ f.exponentBits :=
    (Nat.div_lt_iff_lt_mul (by positivity)).2 hp
  rw [reading_of_lt hp, Reading.ofFields, ← leastUnit_eq] at h
  generalize p / 2 ^ f.fractionBits = top at *
  generalize p % 2 ^ f.fractionBits = fraction at *
  have hcast : ((2 ^ f.fractionBits : Nat) : ℚ) = 2 ^ f.fractionBits := by push_cast; rfl
  have hfit : top ≠ 2 ^ f.exponentBits - 1 → top * 2 ^ f.fractionBits + fraction
      ≤ (2 ^ f.exponentBits - 1) * 2 ^ f.fractionBits := by
    intro hne
    have : top + 1 ≤ 2 ^ f.exponentBits - 1 := by omega
    have := Nat.mul_le_mul_right (2 ^ f.fractionBits) this
    rw [Nat.add_mul] at this
    omega
  split at h
  · split at h <;> cases h
  rename_i hne
  replace hfit := hfit hne
  obtain ⟨hlow, hhigh, htie⟩ := Binary.bounds_of_contains hc
  split at h
  · -- below the least binade
    rename_i htop0
    subst htop0
    cases h
    have := nearest_of_half (f := f) (m := fraction) hn hd (Int.le_refl _) (by omega) (.inl rfl)
      hlow hhigh htie (by simpa using hfit)
    rw [this]
    simpa using hsplit
  · rename_i htop0
    cases h
    dsimp only at hlow hhigh htie
    have hexp : (f.leastUnit + ((top - 1 : Nat) : Int) - f.leastUnit).toNat = top - 1 := by omega
    obtain ⟨t, rfl⟩ : ∃ t, top = t + 1 := ⟨top - 1, by omega⟩
    rw [Nat.add_sub_cancel] at *
    push_cast at hlow hhigh htie
    generalize hy : (n / d / 2 ^ (f.leastUnit + (t : Int)) : ℚ) = y at hlow hhigh htie
    by_cases hfine : (fraction = 0 ∧ 1 < t + 1) ∧ y < 2 ^ f.fractionBits
    · -- on the finer grid below the binade
      obtain ⟨⟨rfl, ht⟩, hlt⟩ := hfine
      have hreach : 2 * 2 ^ f.fractionBits - 1 / 2 ≤ 2 * y := by
        simpa [Binary.reach, ht] using hlow
      rw [nearest_below_binade hn hd (by omega) hy hlt hreach (by simpa using hfit)]
      exact hsplit
    · have hnear := Binary.near_of_bounds hlow hhigh htie hfine
      have hplace : t * 2 ^ f.fractionBits + (2 ^ f.fractionBits + fraction) = p := by
        rw [← hsplit, Nat.add_mul]
        omega
      rw [nearest_of_half (f := f) (m := 2 ^ f.fractionBits + fraction) (k := f.leastUnit + t)
        hn hd (by omega) (by omega) (by rw [hy]; exact hnear.1.imp_left (by simp))
        (by rw [hy]; push_cast; exact hnear.2.1) (by rw [hy]; push_cast; exact hhigh)
        (by rw [hy]; push_cast; exact hnear.2.2) (by rw [hexp, hplace, ← hsplit]; exact hfit)]
      rw [hexp, hplace]

end VectorQuery.Number
