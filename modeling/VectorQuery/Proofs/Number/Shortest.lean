/-
# Shortest decimals read back

`Binary.shortest` answers a decimal of the interval around a number (`Binary.contains_shortest`).
The search goes through eighteen grids of powers of ten; the last of them is finer than the
interval, so the decimal above the number on it is in the interval, if none was found before.
-/
import VectorQuery.Proofs.Number.Rounding

namespace VectorQuery.Number

/-- The rational that a decimal stands for, without its sign. -/
def decimalRat (n : Nat) (e : Int) : ℚ := n * 10 ^ e

theorem ten_zpow_pos (z : Int) : (0 : ℚ) < 10 ^ z := zpow_pos (by norm_num) z

/-- `n · 10 ^ e` over natural powers of ten. -/
theorem decimalRat_eq_div (n : Nat) (e : Int) :
    decimalRat n e = n * 10 ^ e.toNat / 10 ^ (-e).toNat := by
  rw [decimalRat, ← toNat_div_toNat 10 e, mul_div_assoc]

theorem Interval.holds_iff (i : Interval) (n : Nat) (e : Int) :
    i.holds n e = true ↔ i.Contains (decimalRat n e) := by
  have hp : (0 : ℚ) < 10 ^ (-e).toNat := by positivity
  have hmul : decimalRat n e * i.denominator
      = n * 10 ^ e.toNat * i.denominator / 10 ^ (-e).toNat := by
    rw [decimalRat_eq_div]
    ring
  rw [Interval.Contains, hmul, le_div_iff₀ hp, div_le_iff₀ hp, lt_div_iff₀ hp, div_lt_iff₀ hp,
    Interval.holds]
  cases i.closed
  · simp only [Bool.false_eq_true, if_false, Bool.and_eq_true, decide_eq_true_eq]
    exact_mod_cast Iff.rfl
  · simp only [if_true, Bool.and_eq_true, decide_eq_true_eq]
    exact_mod_cast Iff.rfl

/-- A decimal found on a grid is in the interval. -/
theorem Interval.contains_of_onGrid? {i : Interval} {tie : Tie} {e : Int} {n : Nat}
    (h : i.onGrid? tie e = some n) : i.Contains (decimalRat n e) := by
  have hh : i.holds n e = true := by
    unfold Interval.onGrid? at h
    grind
  exact (i.holds_iff n e).1 hh

/-- The decimal above the middle of the interval is found when it is in the interval. -/
theorem Interval.onGrid?_isSome {i : Interval} {tie : Tie} {e : Int}
    (h : i.holds (i.value * 10 ^ (-e).toNat / (i.denominator * 10 ^ e.toNat) + 1) e = true) :
    (i.onGrid? tie e).isSome := by
  unfold Interval.onGrid?
  dsimp only
  generalize i.value * 10 ^ (-e).toNat = a at *
  generalize i.denominator * 10 ^ e.toNat = c at *
  have hround : roundQuotient tie a c = a / c ∨ roundQuotient tie a c = a / c + 1 := by
    unfold roundQuotient
    grind
  rcases hround with hr | hr
  · rw [hr, if_pos rfl, h]
    split <;> rfl
  · rw [hr, h]
    rfl

/-- A grid with a decimal of the interval among the next `fuel` ends the search with one. -/
theorem Interval.contains_search {i : Interval} {tie : Tie} :
    ∀ {fuel : Nat} {e : Int}, (∃ j < fuel, (i.onGrid? tie (e - j)).isSome) →
      i.Contains (decimalRat (i.search tie fuel e).1 (i.search tie fuel e).2) := by
  intro fuel
  induction fuel with
  | zero =>
      rintro e ⟨j, hj, _⟩
      exact absurd hj (Nat.not_lt_zero j)
  | succ fuel ih =>
      rintro e ⟨j, hj, hs⟩
      rw [Interval.search]
      split
      · rename_i n hn
        exact contains_of_onGrid? hn
      · rename_i hnone
        refine ih ?_
        cases j with
        | zero =>
            rw [Nat.cast_zero, sub_zero, hnone] at hs
            cases hs
        | succ j =>
            refine ⟨j, by omega, ?_⟩
            rwa [show e - 1 - (j : Int) = e - (j + 1 : Nat) by push_cast; ring]

/-- Moving zeros into the exponent keeps the value. -/
theorem decimalRat_trimZeros (fuel n : Nat) (e : Int) :
    decimalRat (trimZeros fuel n e).1 (trimZeros fuel n e).2 = decimalRat n e := by
  induction fuel generalizing n e with
  | zero => rfl
  | succ fuel ih =>
      rw [trimZeros]
      split
      · rename_i h
        rw [ih, decimalRat, decimalRat, zpow_add_one₀ (by norm_num)]
        have : (n : ℚ) = (n / 10 : Nat) * 10 := by
          exact_mod_cast (Nat.div_mul_cancel (Nat.dvd_of_mod_eq_zero h.2)).symm
        rw [this]
        ring
      · rfl

/-! ## The size of a number -/

/-- The rational that an interval was taken around. -/
def Interval.middle (i : Interval) : ℚ := i.value / i.denominator

/-- The search for the magnitude ends above the power of ten below it, if it started there. -/
theorem Interval.le_middle_of_magnitude {i : Interval} (hd : 0 < i.denominator) :
    ∀ (fuel : Nat) {k : Int}, (10 : ℚ) ^ (k - 1) ≤ i.middle →
      (10 : ℚ) ^ (i.magnitude fuel k - 1) ≤ i.middle := by
  intro fuel
  induction fuel with
  | zero => exact fun h => h
  | succ fuel ih =>
      intro k h
      rw [Interval.magnitude]
      split
      · exact h
      · rename_i hlt
        refine ih ?_
        have hd' : (0 : ℚ) < i.denominator := by exact_mod_cast hd
        rw [not_lt] at hlt
        have hlt' : (10 : ℚ) ^ k.toNat * i.denominator ≤ i.value * 10 ^ (-k).toNat := by
          exact_mod_cast hlt
        rw [add_sub_cancel_right, Interval.middle, le_div_iff₀ hd', ← toNat_div_toNat 10 k,
          div_mul_eq_mul_div, div_le_iff₀ (by positivity)]
        exact hlt'

/-- Powers of ten against powers of two, when `a / n` is about the logarithm of two and not less. -/
theorem ten_zpow_le_two_zpow {n a : Nat} (hn : n ≠ 0) (han : a ≤ 2 * n) (hlow : 2 ^ n ≤ 10 ^ a)
    (hhigh : 10 ^ a ≤ 2 ^ (n + 1)) {q l : Int} (hl : l ≤ n) (hq : q * n ≤ l * a) :
    (10 : ℚ) ^ (q - 2) ≤ 2 ^ l := by
  have hlow' : (2 : ℚ) ^ n ≤ 10 ^ a := by exact_mod_cast hlow
  have hhigh' : (10 : ℚ) ^ a ≤ 2 * 2 ^ n := by
    rw [← pow_succ']
    exact_mod_cast hhigh
  refine le_of_pow_le_pow_left₀ hn (two_zpow_pos l).le ?_
  have hten : ((10 : ℚ) ^ (q - 2)) ^ n ≤ (10 ^ a) ^ l / 10 ^ (2 * n) := by
    rw [← zpow_natCast, ← zpow_mul, ← zpow_natCast, ← zpow_mul, ← zpow_natCast,
      ← zpow_sub₀ (by norm_num)]
    refine zpow_le_zpow_right₀ (by norm_num) ?_
    push_cast
    linarith
  have htwo : ((2 : ℚ) ^ l) ^ n = (2 ^ n) ^ l := by
    rw [← zpow_natCast, ← zpow_mul, mul_comm, zpow_mul, zpow_natCast]
  refine hten.trans ?_
  rw [htwo, div_le_iff₀ (by positivity)]
  rcases Int.le_total 0 l with h0 | h0
  · have hl' : (2 : ℚ) ^ l ≤ 10 ^ (2 * n) := by
      calc (2 : ℚ) ^ l ≤ 2 ^ (n : Int) := zpow_le_zpow_right₀ (by norm_num) hl
        _ = 2 ^ n := zpow_natCast _ _
        _ ≤ 10 ^ a := hlow'
        _ ≤ 10 ^ (2 * n) := pow_le_pow_right₀ (by norm_num) han
    calc ((10 : ℚ) ^ a) ^ l ≤ (2 * 2 ^ n) ^ l := by
          lift l to Nat using h0
          rw [zpow_natCast, zpow_natCast]
          exact pow_le_pow_left₀ (by positivity) hhigh' l
      _ = (2 ^ n) ^ l * 2 ^ l := by rw [mul_zpow, mul_comm]
      _ ≤ (2 ^ n) ^ l * 10 ^ (2 * n) := mul_le_mul_of_nonneg_left hl' (by positivity)
  · have hinv : ((10 : ℚ) ^ a) ^ l ≤ (2 ^ n) ^ l := by
      obtain ⟨j, rfl⟩ : ∃ j : Nat, l = -j := ⟨(-l).toNat, by omega⟩
      rw [zpow_neg, zpow_neg, zpow_natCast, zpow_natCast]
      exact inv_anti₀ (by positivity) (pow_le_pow_left₀ (by positivity) hlow' j)
    calc ((10 : ℚ) ^ a) ^ l ≤ (2 ^ n) ^ l := hinv
      _ ≤ (2 ^ n) ^ l * 10 ^ (2 * n) :=
        le_mul_of_one_le_right (by positivity) (one_le_pow₀ (by norm_num))

/-- 30103 / 100000 is a little more than the logarithm of two. -/
theorem two_pow_le_ten_pow : 2 ^ 100000 ≤ 10 ^ 30103 := by
  decide +kernel

theorem ten_pow_le_two_pow : 10 ^ 30103 ≤ 2 ^ (100000 + 1) := by
  decide +kernel

/-- The search for the magnitude starts at or below it. -/
theorem ten_zpow_estimate_le {l : Int} (hl : l ≤ 100000) :
    (10 : ℚ) ^ (l * 30103 / 100000 - 1 - 1) ≤ 2 ^ l := by
  rw [sub_sub]
  exact ten_zpow_le_two_zpow (by decide) (by decide) two_pow_le_ten_pow ten_pow_le_two_pow
    (by exact_mod_cast hl) (Int.ediv_mul_le _ (by decide))

/-! ## The shortest decimal -/

theorem Binary.denominator_pos (b : Binary) : 0 < b.interval.denominator := by
  simp [Binary.interval]

theorem Binary.middle_interval (b : Binary) :
    b.interval.middle = b.mantissa * 2 ^ b.exponent := by
  have h : (b.interval.middle : ℚ) = 4 * b.mantissa * (2 ^ (b.exponent - 2).toNat
      / 2 ^ (-(b.exponent - 2)).toNat) := by
    simp [Interval.middle, Binary.interval, mul_div_assoc]
  rw [h, toNat_div_toNat, zpow_sub₀ (by norm_num)]
  ring

theorem Binary.two_zpow_le_middle {b : Binary} (hm : 0 < b.mantissa) :
    (2 : ℚ) ^ ((b.mantissa.log2 : Int) + b.exponent) ≤ b.interval.middle := by
  have : (2 : ℚ) ^ b.mantissa.log2 ≤ b.mantissa := by
    exact_mod_cast Nat.log2_self_le hm.ne'
  rw [middle_interval, zpow_add₀ (by norm_num), zpow_natCast]
  exact mul_le_mul_of_nonneg_right this (two_zpow_pos _).le

theorem Binary.low_lt_value {b : Binary} (hm : 0 < b.mantissa) :
    b.interval.low < b.interval.value := by
  refine Nat.mul_lt_mul_of_pos_right ?_ (by positivity)
  split <;> omega

theorem Interval.contains_of_lt {i : Interval} {r : ℚ} (hlow : (i.low : ℚ) < r * i.denominator)
    (hhigh : r * i.denominator < i.high) : i.Contains r := by
  unfold Contains
  split
  · exact ⟨hlow.le, hhigh.le⟩
  · exact ⟨hlow, hhigh⟩

theorem Interval.middle_mul_denominator {i : Interval} (hd : 0 < i.denominator) :
    i.middle * i.denominator = i.value :=
  div_mul_cancel₀ _ (by exact_mod_cast hd.ne')

/-- A number is in the interval around it. -/
theorem Binary.contains_middle {b : Binary} (hm : 0 < b.mantissa) :
    b.interval.Contains b.interval.middle := by
  have hhigh : b.interval.value < b.interval.high :=
    Nat.mul_lt_mul_of_pos_right (Nat.lt_add_of_pos_right (by decide)) (by positivity)
  refine Interval.contains_of_lt ?_ ?_ <;> rw [Interval.middle_mul_denominator b.denominator_pos]
  · exact_mod_cast low_lt_value hm
  · exact_mod_cast hhigh

/-- On a grid the middle is between the decimal found below it and the next one. -/
theorem Interval.middle_between {i : Interval} (hd : 0 < i.denominator) (e : Int) :
    let n := i.value * 10 ^ (-e).toNat / (i.denominator * 10 ^ e.toNat)
    decimalRat n e ≤ i.middle ∧ i.middle < decimalRat (n + 1) e := by
  intro n
  have hgrid := ten_zpow_pos e
  have hpos : 0 < i.denominator * 10 ^ e.toNat := Nat.mul_pos hd (by positivity)
  have hc : (0 : ℚ) < (i.denominator * 10 ^ e.toNat : Nat) := by exact_mod_cast hpos
  have hquot : i.middle / 10 ^ e
      = (i.value * 10 ^ (-e).toNat : Nat) / (i.denominator * 10 ^ e.toNat : Nat) := by
    push_cast
    rw [div_mul_toNat (by norm_num), Interval.middle]
  constructor
  · rw [decimalRat, ← le_div_iff₀ hgrid, hquot, le_div_iff₀ hc]
    exact_mod_cast Nat.div_mul_le_self _ _
  · rw [decimalRat, ← div_lt_iff₀ hgrid, hquot, div_lt_iff₀ hc]
    exact_mod_cast Nat.lt_mul_of_div_lt (Nat.lt_succ_self _) hpos

/-- A grid of less than a unit of the seventeenth digit is finer than the distance from a number
with 53 bits to the end of its interval. -/
theorem Binary.grid_lt {b : Binary} (hm : b.mantissa < 2 ^ 53) {e : Int}
    (he : (10 : ℚ) ^ e * 10 ^ 17 ≤ b.interval.middle) :
    (b.interval.value : ℚ) + 10 ^ e * b.interval.denominator < b.interval.high := by
  have hden : (0 : ℚ) < b.interval.denominator := by exact_mod_cast b.denominator_pos
  have hunit : (0 : ℚ) < 2 ^ (b.exponent - 2).toNat := by positivity
  have hvalue : (b.interval.value : ℚ) = 4 * b.mantissa * 2 ^ (b.exponent - 2).toNat := by
    simp [Binary.interval]
  have hhigh : (b.interval.high : ℚ) = b.interval.value + 2 * 2 ^ (b.exponent - 2).toNat := by
    simp only [Binary.interval]
    push_cast
    ring
  have hsmall : (b.interval.value : ℚ) < 4 * 2 ^ 53 * 2 ^ (b.exponent - 2).toNat := by
    have hm : (b.mantissa : ℚ) < 2 ^ 53 := by exact_mod_cast hm
    rw [hvalue]
    exact mul_lt_mul_of_pos_right (by linarith) hunit
  have hgrid := mul_le_mul_of_nonneg_right he hden.le
  rw [Interval.middle_mul_denominator b.denominator_pos] at hgrid
  linarith

/-- On a grid of less than a unit of the seventeenth digit, the decimal above a number with 53 bits
is in the interval. -/
theorem Binary.holds_above {b : Binary} (hm : 0 < b.mantissa) (hm' : b.mantissa < 2 ^ 53) {e : Int}
    (he : (10 : ℚ) ^ e * 10 ^ 17 ≤ b.interval.middle) :
    b.interval.holds (b.interval.value * 10 ^ (-e).toNat /
      (b.interval.denominator * 10 ^ e.toNat) + 1) e = true := by
  have hden : (0 : ℚ) < b.interval.denominator := by exact_mod_cast b.denominator_pos
  have hmiddle := Interval.middle_mul_denominator b.denominator_pos
  have hlow : (b.interval.low : ℚ) < b.interval.value := by exact_mod_cast low_lt_value hm
  obtain ⟨hbelow, habove⟩ := Interval.middle_between b.denominator_pos e
  rw [Interval.holds_iff]
  generalize b.interval.value * 10 ^ (-e).toNat / (b.interval.denominator * 10 ^ e.toNat) = n at *
  have hstep : decimalRat (n + 1) e = decimalRat n e + 10 ^ e := by
    rw [decimalRat, decimalRat]
    push_cast
    ring
  refine Interval.contains_of_lt ?_ ?_
  · calc (b.interval.low : ℚ) < b.interval.middle * b.interval.denominator := by rwa [hmiddle]
      _ < decimalRat (n + 1) e * b.interval.denominator := mul_lt_mul_of_pos_right habove hden
  · calc decimalRat (n + 1) e * b.interval.denominator
        = decimalRat n e * b.interval.denominator + 10 ^ e * b.interval.denominator := by
          rw [hstep, add_mul]
      _ ≤ b.interval.middle * b.interval.denominator + 10 ^ e * b.interval.denominator := by
          gcongr
      _ < b.interval.high := by
          rw [hmiddle]
          exact grid_lt hm' he

/-- The shortest decimal of a number with 53 bits is in the interval around the number. -/
theorem Binary.contains_shortest (tie : Tie) {b : Binary} (hm : 0 < b.mantissa)
    (hm' : b.mantissa < 2 ^ 53) (he : (b.mantissa.log2 : Int) + b.exponent ≤ 100000) :
    b.interval.Contains
      (decimalRat (b.shortest tie).significand (b.shortest tie).exponent) := by
  have hk := Interval.le_middle_of_magnitude b.denominator_pos 4
    ((ten_zpow_estimate_le he).trans (two_zpow_le_middle hm))
  rw [Binary.shortest, if_neg hm.ne']
  dsimp only
  generalize b.interval.magnitude 4 _ = k at hk ⊢
  rw [decimalRat_trimZeros]
  refine Interval.contains_search ⟨17, by decide, Interval.onGrid?_isSome (holds_above hm hm' ?_)⟩
  rw [← zpow_natCast, ← zpow_add₀ (by norm_num)]
  push_cast
  rwa [sub_add_cancel]

theorem Binary.negative_shortest (tie : Tie) (b : Binary) :
    (b.shortest tie).negative = b.negative := by
  rw [Binary.shortest]
  split <;> rfl

theorem Binary.shortest_neg (tie : Tie) (b : Binary) :
    ({ b with negative := true } : Binary).shortest tie
      = { b.shortest tie with negative := true } := by
  rw [Binary.shortest, Binary.shortest]
  split <;> rfl

end VectorQuery.Number
