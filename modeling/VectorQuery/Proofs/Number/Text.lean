/-
# Numbers read back from their texts

A finite number without a sign is written as digits with an optional fraction, and the numeral of
these digits has the number as its value (`Double.exists_numeral`).  The text of the opposite
number has a minus sign in front.

The digits are those of the shortest decimal, which is in the interval around the number; layout
keeps its value, and reading rounds everything in the interval back to the number.
-/
import VectorQuery.Proofs.Number.Double
import VectorQuery.Proofs.Number.Shortest
import VectorQuery.Query.Lexer

namespace VectorQuery

/-! ## Digits -/

namespace Text

theorem decimalValue_eq (ds : List Char) : decimalValue ds = Nat.ofDigitChars 10 ds 0 :=
  Nat.ofDigitChars_eq_foldl.symm

theorem decimalValue_append (cs ds : List Char) :
    decimalValue (cs ++ ds) = 10 ^ ds.length * decimalValue cs + decimalValue ds := by
  rw [decimalValue_eq, decimalValue_eq, decimalValue_eq, Nat.ofDigitChars_append,
    Nat.ofDigitChars_eq_ofDigitChars_zero]

@[simp] theorem decimalValue_zeros (n : Nat) : decimalValue (Number.zeros n) = 0 := by
  rw [decimalValue_eq, Number.zeros, Nat.ofDigitChars_replicate_zero, Nat.mul_zero]

@[simp] theorem decimalValue_digits (n : Nat) : decimalValue (Number.digits n) = n := by
  rw [decimalValue_eq]
  exact Nat.ofDigitChars_ten_toDigits

end Text

namespace Number

theorem isDigit_of_mem_digits {n : Nat} {c : Char} (h : c ∈ digits n) : c.isDigit = true :=
  Nat.isDigit_of_mem_toDigits (by decide) (by decide) h

theorem isDigit_of_mem_zeros {n : Nat} {c : Char} (h : c ∈ zeros n) : c.isDigit = true := by
  rw [List.eq_of_mem_replicate h]
  rfl

theorem digits_ne_nil (n : Nat) : digits n ≠ [] := Nat.toDigits_ne_nil

end Number

/-! ## Layout -/

open Lexer (Numeral)

/-- Digits with an optional fraction, and no exponent. -/
structure Lexer.Numeral.Plain (n : Numeral) : Prop where
  whole_ne_nil : n.whole ≠ []
  isDigit_whole : ∀ c ∈ n.whole, c.isDigit = true
  isDigit_fraction : ∀ c ∈ n.fraction, c.isDigit = true
  mark : n.mark = []
  exponent : n.exponent = []

/-- A plain numeral is read as its digits with a power of ten for the point. -/
theorem Lexer.Numeral.Plain.value_eq {n : Numeral} (h : n.Plain) :
    n.value = .ofDecimal (Text.decimalValue (n.whole ++ n.fraction)) (-n.fraction.length) := by
  rw [Numeral.value, h.mark, h.exponent]
  simp [Text.decimalValue]

/-- The rational that a plain numeral writes. -/
def Lexer.Numeral.rat (n : Numeral) : ℚ :=
  Number.decimalRat (Text.decimalValue (n.whole ++ n.fraction)) (-n.fraction.length)

namespace Number

/-- A point after all but `k` digits divides by `10 ^ k`. -/
theorem rat_eq {m : Numeral} {n : Nat} {e : Int}
    (hv : Text.decimalValue (m.whole ++ m.fraction) = n) (hl : (m.fraction.length : Int) = -e) :
    m.rat = decimalRat n e := by
  rw [Numeral.rat, hv, hl, neg_neg]

/-- Digits with a point after `p` of them make a plain numeral of the same value. -/
theorem exists_numeral_positional (n : Nat) (e : Int) :
    ∃ m : Numeral, m.Plain ∧ positional false (digits n) ((digits n).length + e) = m.chars ∧
      m.rat = decimalRat n e := by
  have hdigits := digits_ne_nil n
  have hlen := List.length_pos_iff.2 hdigits
  unfold positional
  split
  · -- all digits stand after the point
    rename_i hp
    refine ⟨⟨['0'], zeros (-((digits n).length + e)).toNat ++ digits n, [], []⟩, ?_, ?_, ?_⟩
    · refine ⟨by simp, by simp, ?_, rfl, rfl⟩
      intro c hc
      rcases List.mem_append.1 hc with h | h
      · exact isDigit_of_mem_zeros h
      · exact isDigit_of_mem_digits h
    · simp [Numeral.chars, hdigits]
    · refine rat_eq ?_ ?_
      · have hzero : Text.decimalValue ['0'] = 0 := rfl
        rw [Text.decimalValue_append, Text.decimalValue_append, hzero, Text.decimalValue_zeros,
          Text.decimalValue_digits]
        simp
      · rw [List.length_append, zeros, List.length_replicate]
        push_cast
        omega
  · rename_i hp
    dsimp only
    split
    · -- all digits stand before the point
      rename_i hle
      refine ⟨⟨digits n ++ zeros (((digits n).length + e).toNat - (digits n).length), [], [], []⟩,
        ?_, ?_, ?_⟩
      · refine ⟨by simp [hdigits], ?_, by simp, rfl, rfl⟩
        intro c hc
        rcases List.mem_append.1 hc with h | h
        · exact isDigit_of_mem_digits h
        · exact isDigit_of_mem_zeros h
      · simp [Numeral.chars]
      · have he : 0 ≤ e := by omega
        lift e to Nat using he
        rw [Numeral.rat, List.append_nil, Text.decimalValue_append, Text.decimalValue_zeros,
          Text.decimalValue_digits, zeros, List.length_replicate]
        have : ((digits n).length + (e : Int)).toNat - (digits n).length = e := by omega
        rw [this, decimalRat, decimalRat]
        push_cast
        simp
        ring
    · -- the point stands between digits
      rename_i hlt
      refine ⟨⟨(digits n).take ((digits n).length + e).toNat,
        (digits n).drop ((digits n).length + e).toNat, [], []⟩, ?_, ?_, ?_⟩
      · refine ⟨?_, ?_, ?_, rfl, rfl⟩
        · rw [Ne, List.take_eq_nil_iff]
          rintro (h | h)
          · omega
          · exact hdigits h
        · exact fun c hc => isDigit_of_mem_digits (List.mem_of_mem_take hc)
        · exact fun c hc => isDigit_of_mem_digits (List.mem_of_mem_drop hc)
      · have hdrop : ((digits n).drop ((digits n).length + e).toNat).isEmpty = false := by
          rw [List.isEmpty_eq_false_iff, Ne, List.drop_eq_nil_iff]
          omega
        simp [Numeral.chars, hdrop]
      · refine rat_eq ?_ ?_
        · rw [List.take_append_drop, Text.decimalValue_digits]
        · rw [List.length_drop]
          omega

/-- The text of a positive decimal has its digits in plain positions. -/
theorem Layout.decimal_plain {d : Decimal} (hn : d.negative = false)
    (hs : d.significand ≠ 0) :
    (Layout.plain.decimal d).toList = positional false (digits d.significand)
      ((digits d.significand).length + d.exponent) := by
  rw [Layout.decimal, if_neg hs, hn]
  simp [Layout.plain]

/-- A minus sign in front is all that the sign of a decimal changes. -/
theorem Layout.decimal_neg (l : Layout) {d : Decimal} (hn : d.negative = false) :
    (l.decimal { d with negative := true }).toList = '-' :: (l.decimal d).toList := by
  rw [Layout.decimal, Layout.decimal, hn]
  dsimp only
  split
  · simp
  · simp

/-! ## Reading a decimal -/

/-- What double precision reads has at most 53 bits, and an exponent between -1074 and 974. -/
theorem bounds_of_double {p : Nat} {b : Binary} (hp : p < 2 ^ 63)
    (h : Format.double.reading p = .finite b) :
    b.negative = false ∧ b.mantissa < 2 ^ 53 ∧ -1074 ≤ b.exponent ∧ b.exponent ≤ 974 :=
  Format.bounds_of_reading hp h

theorem two_pow_1075_lt : 2 ^ 1075 < 10 ^ 400 := by
  decide +kernel

theorem two_pow_1027_lt : 2 ^ 1027 < 10 ^ 401 := by
  decide +kernel

/-- A number that reads back is neither very small nor very large. -/
theorem range_of_contains {p : Nat} {b : Binary} (hp : p < 2 ^ 63)
    (h : Format.double.reading p = .finite b) (hm : 0 < b.mantissa) {x : ℚ}
    (hc : b.interval.Contains x) : (10 : ℚ) ^ (-400 : Int) < x ∧ x < 10 ^ (401 : Int) := by
  obtain ⟨-, hm', he, he'⟩ := bounds_of_double hp h
  obtain ⟨hlow, hhigh, -⟩ := Binary.bounds_of_contains hc
  have hunit := two_zpow_pos b.exponent
  have hm1 : (1 : ℚ) ≤ b.mantissa := by exact_mod_cast hm
  have hm2 : (b.mantissa : ℚ) + 1 ≤ 2 ^ 53 := by exact_mod_cast hm'
  have hreach : b.reach ≤ 1 := by
    rw [Binary.reach]
    split <;> norm_num
  have htwo : (0 : ℚ) < 2 := by norm_num
  have hten : (0 : ℚ) < 10 := by norm_num
  constructor
  · have hx : (1 / 2 : ℚ) ≤ x / 2 ^ b.exponent := by linarith
    rw [le_div_iff₀ hunit] at hx
    refine lt_of_lt_of_le ?_ hx
    calc (10 : ℚ) ^ (-400 : Int) = (10 ^ 400)⁻¹ := zpow_neg 10 400
      _ < (2 ^ 1075)⁻¹ := inv_strictAnti₀ (pow_pos htwo _) (by exact_mod_cast two_pow_1075_lt)
      _ = 1 / 2 * 2 ^ (-1074 : Int) := by
          rw [zpow_neg, pow_succ, mul_inv_rev, one_div]
          rfl
      _ ≤ 1 / 2 * 2 ^ b.exponent :=
          mul_le_mul_of_nonneg_left (zpow_le_zpow_right₀ (by norm_num) he) (by norm_num)
  · have hx : x / 2 ^ b.exponent ≤ 2 ^ 53 := by linarith
    rw [div_le_iff₀ hunit] at hx
    refine lt_of_le_of_lt hx ?_
    calc (2 : ℚ) ^ 53 * 2 ^ b.exponent ≤ 2 ^ (53 : Int) * 2 ^ (974 : Int) :=
          mul_le_mul_of_nonneg_left (zpow_le_zpow_right₀ (by norm_num) he') (by norm_num)
      _ = 2 ^ (1027 : Int) := (zpow_add₀ htwo.ne' 53 974).symm
      _ < 10 ^ (401 : Int) := by exact_mod_cast two_pow_1027_lt

/-- A significand is at least the power of ten that a fourth of its bits makes. -/
theorem ten_zpow_le_decimalRat {n : Nat} (hn : 0 < n) (e : Int) :
    (10 : ℚ) ^ ((n.log2 : Int) / 4 + e) ≤ decimalRat n e := by
  have h2 : (2 : ℚ) ^ n.log2 ≤ n := by exact_mod_cast Nat.log2_self_le hn.ne'
  have h10 : (10 : ℚ) ^ (n.log2 / 4) ≤ 2 ^ n.log2 := by
    calc (10 : ℚ) ^ (n.log2 / 4) ≤ (2 ^ 4) ^ (n.log2 / 4) :=
          pow_le_pow_left₀ (by norm_num) (by norm_num) _
      _ = 2 ^ (4 * (n.log2 / 4)) := (pow_mul ..).symm
      _ ≤ 2 ^ n.log2 := pow_le_pow_right₀ (by norm_num) (Nat.mul_div_le _ _)
  rw [decimalRat, zpow_add₀ (by norm_num)]
  refine mul_le_mul_of_nonneg_right ?_ (ten_zpow_pos e).le
  calc (10 : ℚ) ^ ((n.log2 : Int) / 4) = 10 ^ (n.log2 / 4) := by
        rw [← zpow_natCast]
        norm_cast
    _ ≤ n := h10.trans h2

/-- A significand is less than the power of ten with one digit for each of its bits. -/
theorem decimalRat_lt_ten_zpow (n : Nat) (e : Int) :
    decimalRat n e < 10 ^ ((n.log2 : Int) + 1 + e) := by
  have h2 : (n : ℚ) < 2 ^ (n.log2 + 1) := by exact_mod_cast Nat.lt_log2_self
  have h10 : (2 : ℚ) ^ (n.log2 + 1) ≤ 10 ^ (n.log2 + 1) :=
    pow_le_pow_left₀ (by norm_num) (by norm_num) _
  rw [decimalRat, zpow_add₀ (by norm_num)]
  refine mul_lt_mul_of_pos_right ?_ (ten_zpow_pos e)
  calc (n : ℚ) < 10 ^ (n.log2 + 1) := h2.trans_le h10
    _ = 10 ^ ((n.log2 : Int) + 1) := by
        rw [← zpow_natCast]
        norm_cast

/-- A decimal in the interval around a number is read as the number. -/
theorem ofDecimal_of_contains {p : Nat} {b : Binary} (hp : p < 2 ^ 63)
    (h : Format.double.reading p = .finite b) (hm : 0 < b.mantissa) {n : Nat} {e : Int}
    (hc : b.interval.Contains (decimalRat n e)) : Format.double.ofDecimal false n e = p := by
  obtain ⟨hlow, hhigh⟩ := range_of_contains hp h hm hc
  have hn : 0 < n := by
    refine Nat.pos_of_ne_zero ?_
    rintro rfl
    rw [decimalRat, Nat.cast_zero, zero_mul] at hlow
    exact absurd hlow (not_lt.2 (ten_zpow_pos _).le)
  have hten : (1 : ℚ) < 10 := by norm_num
  have hsmall := (zpow_lt_zpow_iff_right₀ hten).1
    (hlow.trans (decimalRat_lt_ten_zpow n e))
  have hlarge := (zpow_lt_zpow_iff_right₀ hten).1
    ((ten_zpow_le_decimalRat hn e).trans_lt hhigh)
  rw [Format.ofDecimal, if_neg (by omega), if_neg (by omega)]
  refine Format.nearest_of_contains (by simpa [Format.double] using hp) h
    (Nat.mul_pos hn (by positivity)) (by positivity) ?_
  rw [decimalRat_eq_div] at hc
  push_cast
  exact hc

end Number

open Number

/-! ## Double precision -/

namespace Double

theorem exists_reading {x : Double} (h : x.Nonneg) (hf : x.isFinite = true) :
    ∃ b, x.reading = .finite b ∧ (b.mantissa = 0 → x = ⟨0⟩) := by
  obtain ⟨b, hb, hm⟩ := Format.exists_reading (f := .double) ((isFinite_iff h).1 hf)
  exact ⟨b, hb, fun h0 => ext_toNat (hm h0)⟩

/-- A finite number without a sign is written as a plain numeral that has it as its value. -/
theorem exists_numeral {x : Double} (h : x.Nonneg) (hf : x.isFinite = true) :
    ∃ m : Numeral, m.Plain ∧ x.text.toList = m.chars ∧ m.value = x := by
  obtain ⟨b, hb, h0⟩ := exists_reading h hf
  obtain ⟨hneg, hbits, -, hexp⟩ := bounds_of_double h hb
  by_cases hm : b.mantissa = 0
  · refine ⟨⟨['0'], [], [], []⟩, ⟨by simp, by simp, by simp, rfl, rfl⟩, ?_⟩
    rw [h0 hm]
    constructor <;> decide
  · have hm' := Nat.pos_of_ne_zero hm
    have hlog : b.mantissa.log2 < 53 := (Nat.log2_lt hm).2 hbits
    have hc := Binary.contains_shortest .away hm' hbits (by omega)
    have hs : (b.shortest .away).significand ≠ 0 := by
      intro h0
      have := (range_of_contains h hb hm' hc).1
      rw [h0, decimalRat, Nat.cast_zero, zero_mul] at this
      exact absurd this (not_lt.2 (ten_zpow_pos _).le)
    obtain ⟨m, hplain, hchars, hrat⟩ := exists_numeral_positional
      (b.shortest .away).significand (b.shortest .away).exponent
    refine ⟨m, hplain, ?_, ?_⟩
    · rw [← hchars, text, hb]
      exact Layout.decimal_plain ((Binary.negative_shortest _ b).trans hneg) hs
    · rw [← hrat] at hc
      rw [hplain.value_eq, ofDecimal, ofDecimal_of_contains h hb hm' hc]
      exact congrArg Double.mk UInt64.ofNat_toNat

/-- The only number without a sign that is defined and not finite is infinite. -/
theorem eq_infinity {x : Double} (h : x.Nonneg) (hd : x.isDefined = true)
    (hf : x.isFinite = false) : x = infinity := by
  apply ext_toNat
  have h1 := (isDefined_iff h).1 hd
  have h2 : ¬ x.bits.toNat < infinity.bits.toNat := by
    rw [← isFinite_iff h, hf]
    simp
  omega

theorem text_infinity : infinity.text = "inf" := by
  decide

/-- The opposite of a finite number differs in its sign only. -/
theorem reading_neg {x : Double} (h : x.Nonneg) {b : Binary} (hb : x.reading = .finite b) :
    (-x).reading = .finite { b with negative := true } := by
  have hp : x.bits.toNat < 2 ^ Format.double.exponentBits * 2 ^ Format.double.fractionBits := h
  rw [reading, toNat_neg h]
  rw [reading] at hb
  exact Format.reading_add_sign hp hb

/-- The text of an opposite has a minus sign in front. -/
theorem text_neg {x : Double} (h : x.Nonneg) (hd : x.isDefined = true) :
    (-x).text.toList = '-' :: x.text.toList := by
  cases hf : x.isFinite with
  | false =>
      rw [eq_infinity h hd hf]
      decide
  | true =>
      obtain ⟨b, hb, -⟩ := exists_reading h hf
      have hneg : b.negative = false := (bounds_of_double h hb).1
      rw [text, text, reading_neg h hb, hb, Reading.text, Reading.text, Binary.shortest_neg]
      exact Layout.decimal_neg _ ((Binary.negative_shortest _ b).trans hneg)

example : (-(Quantity.one : Double)).text = "-1" := by
  decide +kernel

/-! ## Whole numbers -/

/-- A whole number of at most 53 bits is a finite number of double precision. -/
theorem exists_reading_natural {k : Nat} (hk : 0 < k) (hk' : k < 2 ^ 53) :
    ∃ p b, p < 2 ^ 63 ∧ Format.double.reading p = .finite b ∧ b.negative = false ∧
      b.mantissa = k * 2 ^ (52 - k.log2) ∧ b.exponent = (k.log2 : Int) - 52 := by
  have hlog : k.log2 < 53 := (Nat.log2_lt hk.ne').2 hk'
  have hlow : 2 ^ 52 ≤ k * 2 ^ (52 - k.log2) := by
    calc 2 ^ 52 = 2 ^ k.log2 * 2 ^ (52 - k.log2) := by rw [← pow_add]; congr 1; omega
      _ ≤ k * 2 ^ (52 - k.log2) := Nat.mul_le_mul_right _ (Nat.log2_self_le hk.ne')
  have hhigh : k * 2 ^ (52 - k.log2) < 2 ^ 53 := by
    calc k * 2 ^ (52 - k.log2) < 2 ^ (k.log2 + 1) * 2 ^ (52 - k.log2) :=
          Nat.mul_lt_mul_of_pos_right Nat.lt_log2_self (by positivity)
      _ = 2 ^ 53 := by rw [← pow_add]; congr 1; omega
  generalize k * 2 ^ (52 - k.log2) = m at *
  generalize k.log2 = l at *
  have htop : ((l + 1023) * 2 ^ 52 + (m - 2 ^ 52)) / 2 ^ 52 = l + 1023 := by omega
  have hfraction : ((l + 1023) * 2 ^ 52 + (m - 2 ^ 52)) % 2 ^ 52 = m - 2 ^ 52 := by omega
  have hreading : Format.double.reading ((l + 1023) * 2 ^ 52 + (m - 2 ^ 52))
      = .ofFields 52 11 false (l + 1023) (m - 2 ^ 52) := by
    rw [Format.reading_of_lt (by simp only [Format.double]; omega)]
    simp only [Format.double]
    rw [htop, hfraction]
  rw [Reading.ofFields, if_neg (by omega), if_neg (by omega)] at hreading
  refine ⟨_, _, by omega, hreading, rfl, ?_, ?_⟩
  · dsimp only
    omega
  · dsimp only
    omega

/-- A whole number of at most 53 bits that is read as a decimal is that whole number. -/
theorem natural?_ofDecimal {k : Nat} (hk : 0 < k) (hk' : k < 2 ^ 53) :
    (ofDecimal k 0).natural? = some k := by
  obtain ⟨p, b, hp, hb, hneg, hm, he⟩ := exists_reading_natural hk hk'
  have hlog : k.log2 < 53 := (Nat.log2_lt hk.ne').2 hk'
  have hm0 : 0 < b.mantissa := by
    rw [hm]
    positivity
  have hmiddle : b.interval.middle = decimalRat k 0 := by
    have hpow : (2 : ℚ) ^ (52 - k.log2) * 2 ^ ((k.log2 : Int) - 52) = 1 := by
      rw [← zpow_natCast, ← zpow_add₀ (by norm_num)]
      have : ((52 - k.log2 : Nat) : Int) + ((k.log2 : Int) - 52) = 0 := by omega
      rw [this, zpow_zero]
    rw [Binary.middle_interval, hm, he, decimalRat, zpow_zero]
    push_cast
    rw [mul_assoc, hpow]
  have hof : Format.double.ofDecimal false k 0 = p :=
    ofDecimal_of_contains hp hb hm0 (hmiddle ▸ Binary.contains_middle hm0)
  have hbits : (UInt64.ofNat p).toNat = p :=
    UInt64.toNat_ofNat_of_lt' (Nat.lt_trans hp (by decide))
  have hup : ((k.log2 : Int) - 52).toNat = 0 := by omega
  have hdown : (-((k.log2 : Int) - 52)).toNat = 52 - k.log2 := by omega
  rw [natural?, reading, ofDecimal, hof, hbits, hb, Reading.natural?, hneg, hm, he, hup, hdown]
  simp

end Double

end VectorQuery
