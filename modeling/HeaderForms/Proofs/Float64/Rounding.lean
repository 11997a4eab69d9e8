-- SUMMARY: Rounding a ratio to a floating-point number: it depends on the value alone and keeps exact values.
import HeaderForms.Float64.Basic
import Mathlib.Algebra.Order.Field.Power
import Mathlib.Data.Rat.Cast.Order
import Mathlib.Tactic.FieldSimp
import Mathlib.Tactic.Linarith
import Mathlib.Tactic.Positivity
import Mathlib.Tactic.Ring

/-!
# Rounding to floating-point numbers

Two ratios of one value round to the same number, and a ratio whose value is that of a finite number
rounds to it. Both follow from what the binary exponent of a ratio says about its value.
-/

namespace HeaderForms.Float64

/-! ## Parts -/

theorem hiddenBit_eq : hiddenBit = 2 ^ 52 := rfl

theorem signBit_eq : signBit = 2 ^ 63 := rfl

/-- The value of a finite number without its sign. -/
def value (x : Float64) : ℚ :=
  x.mantissa * 2 ^ x.exponent

theorem magnitude_eq (x : Float64) : x.magnitude = x.field * hiddenBit + x.fraction := by
  rw [field, fraction, Nat.mul_comm]
  exact (Nat.div_add_mod _ _).symm

theorem fraction_lt (x : Float64) : x.fraction < 2 ^ 52 :=
  Nat.mod_lt _ (by decide)

theorem field_le (x : Float64) : x.field ≤ topField := by
  have hlt : x.magnitude < 2 ^ 63 := Nat.mod_lt _ (by decide)
  rw [field, hiddenBit_eq, topField]
  omega

theorem field_ne_of_isFinite {x : Float64} (h : x.isFinite = true) : x.field ≠ topField := by
  simpa [isFinite] using h

theorem isNaN_of_isFinite {x : Float64} (h : x.isFinite = true) : x.isNaN = false := by
  simp [isNaN, field_ne_of_isFinite h]

theorem isInfinite_of_isFinite {x : Float64} (h : x.isFinite = true) : x.isInfinite = false := by
  simp [isInfinite, field_ne_of_isFinite h]

theorem ofMagnitude_magnitude (x : Float64) : ofMagnitude x.isNegative x.magnitude = x := by
  have hlt : x.bits.toNat < 2 ^ 64 := x.bits.toNat_lt
  have hbits : x.magnitude + (if x.isNegative then signBit else 0) = x.bits.toNat := by
    rw [magnitude, isNegative, signBit_eq]
    by_cases hsign : 2 ^ 63 ≤ x.bits.toNat
    · rw [if_pos (decide_eq_true hsign)]
      omega
    · rw [if_neg (by simpa using hsign)]
      omega
  rw [ofMagnitude, hbits, UInt64.ofNat_toNat]

theorem toNat_bits_ofMagnitude {magnitude : Nat} (negative : Bool) (h : magnitude < signBit) :
    (ofMagnitude negative magnitude).bits.toNat =
      magnitude + if negative then signBit else 0 := by
  rw [signBit_eq] at h ⊢
  rw [ofMagnitude, UInt64.toNat_ofNat', signBit_eq]
  exact Nat.mod_eq_of_lt (by split <;> omega)

theorem isNegative_ofMagnitude {magnitude : Nat} (negative : Bool) (h : magnitude < signBit) :
    (ofMagnitude negative magnitude).isNegative = negative := by
  rw [isNegative, toNat_bits_ofMagnitude negative h]
  cases negative with
  | true => simp
  | false => simpa using h

theorem magnitude_ofMagnitude {magnitude : Nat} (negative : Bool) (h : magnitude < signBit) :
    (ofMagnitude negative magnitude).magnitude = magnitude := by
  rw [Float64.magnitude, toNat_bits_ofMagnitude negative h]
  cases negative with
  | true => simp [Nat.mod_eq_of_lt h]
  | false => simp [Nat.mod_eq_of_lt h]

/-- The magnitudes up to that of infinity are those of numbers. -/
theorem magnitude_lt (x : Float64) : x.magnitude < signBit :=
  Nat.mod_lt _ (by decide)

theorem isNegative_negate (x : Float64) : x.negate.isNegative = !x.isNegative :=
  isNegative_ofMagnitude _ x.magnitude_lt

theorem negate_negate (x : Float64) : x.negate.negate = x := by
  rw [negate, isNegative_negate, Bool.not_not, negate, magnitude_ofMagnitude _ x.magnitude_lt,
    ofMagnitude_magnitude]

theorem isNaN_ofMagnitude {magnitude : Nat} (negative : Bool)
    (h : magnitude ≤ topField * hiddenBit) : (ofMagnitude negative magnitude).isNaN = false := by
  have hbound : topField * hiddenBit < signBit := by decide
  rw [isNaN, field, fraction, magnitude_ofMagnitude negative (h.trans_lt hbound),
    Bool.and_eq_false_iff, beq_eq_false_iff_ne, bne_eq_false_iff_eq]
  rw [hiddenBit_eq, topField] at h ⊢
  omega

theorem mantissa_pos {x : Float64} (h : x.isZero = false) : 0 < x.mantissa := by
  have hmag : x.magnitude ≠ 0 := by simpa [isZero] using h
  rw [magnitude_eq] at hmag
  unfold mantissa
  split
  case isTrue hfield => rw [hfield] at hmag; omega
  case isFalse => rw [hiddenBit_eq]; omega

theorem mantissa_lt (x : Float64) : x.mantissa < 2 ^ 53 := by
  have hfraction := x.fraction_lt
  rw [mantissa, hiddenBit_eq]
  split <;> omega

theorem le_exponent (x : Float64) : -1074 ≤ x.exponent := by
  unfold exponent
  split <;> omega

theorem exponent_le {x : Float64} (h : x.isFinite = true) : x.exponent ≤ 971 := by
  have hle := x.field_le
  have hne : x.field ≠ 2047 := field_ne_of_isFinite h
  simp only [topField] at hle
  unfold exponent
  split <;> omega

/-- The bits of a number are those of its mantissa and exponent. -/
theorem encode_mantissa {x : Float64} (h : x.isFinite = true) :
    encode x.mantissa x.exponent = x.magnitude := by
  have hfraction := x.fraction_lt
  have hle := x.field_le
  have hne : x.field ≠ 2047 := field_ne_of_isFinite h
  rw [encode, magnitude_eq, mantissa, exponent, topField, hiddenBit_eq] at *
  rcases Nat.eq_zero_or_pos x.field with hfield | hfield
  · simp only [hfield, if_true, if_pos hfraction]
    omega
  · have hshift : ((x.field : Int) - 1075 + 1075).toNat = x.field := by omega
    simp only [if_neg hfield.ne', hshift]
    rw [if_neg (by omega)]
    omega

theorem value_pos {x : Float64} (h : x.isZero = false) : 0 < x.value := by
  have hpos : (0 : ℚ) < x.mantissa := by exact_mod_cast mantissa_pos h
  unfold value
  positivity

/-! ## Quotients -/

theorem roundQuotient_mul_right {a b c : Nat} (hc : 0 < c) :
    roundQuotient (a * c) (b * c) = roundQuotient a b := by
  have hlow : 2 * (a % b * c) < b * c ↔ 2 * (a % b) < b := by
    rw [← Nat.mul_assoc]
    exact Nat.mul_lt_mul_right hc
  have hhigh : b * c < 2 * (a % b * c) ↔ b < 2 * (a % b) := by
    rw [← Nat.mul_assoc]
    exact Nat.mul_lt_mul_right hc
  simp only [roundQuotient, Nat.mul_div_mul_right _ _ hc, Nat.mul_mod_mul_right, hlow, hhigh]

/-- Rounding sees the value of a quotient only. -/
theorem roundQuotient_congr {a b a' b' : Nat} (hb : 0 < b) (hb' : 0 < b')
    (h : a * b' = a' * b) : roundQuotient a b = roundQuotient a' b' := by
  rw [← roundQuotient_mul_right hb', h, Nat.mul_comm b, roundQuotient_mul_right hb]

theorem roundQuotient_mul_self {m b : Nat} (hb : 0 < b) : roundQuotient (m * b) b = m := by
  simp [roundQuotient, Nat.mul_mod_left, Nat.mul_div_cancel _ hb, hb]

/-! ## Binary exponents -/

theorem two_zpow_le_div_iff {num den : Nat} {k : Int} (hden : 0 < den) :
    (if 0 ≤ k then den * Nat.pow 2 k.toNat ≤ num else den ≤ num * Nat.pow 2 (-k).toNat) ↔
      (2 : ℚ) ^ k ≤ num / den := by
  have hden' : (0 : ℚ) < den := by exact_mod_cast hden
  rw [le_div_iff₀ hden']
  split
  case isTrue hk =>
    obtain ⟨n, rfl⟩ := Int.eq_ofNat_of_zero_le hk
    rw [Int.toNat_natCast, zpow_natCast, mul_comm, Nat.pow_eq]
    exact_mod_cast Iff.rfl
  case isFalse hk =>
    obtain ⟨n, hn⟩ := Int.eq_ofNat_of_zero_le (a := -k) (by omega)
    rw [hn, Int.toNat_natCast, show k = -(n : Int) by omega, zpow_neg, zpow_natCast, Nat.pow_eq,
      inv_mul_le_iff₀ (by positivity), mul_comm (2 ^ n)]
    exact_mod_cast Iff.rfl

theorem binaryExponent_spec {num den : Nat} (hnum : 0 < num) (hden : 0 < den) :
    (2 : ℚ) ^ binaryExponent num den ≤ num / den ∧
      (num / den : ℚ) < 2 ^ (binaryExponent num den + 1) := by
  have hnumlo : (2 : ℚ) ^ num.log2 ≤ num := by exact_mod_cast Nat.log2_self_le hnum.ne'
  have hnumhi : (num : ℚ) < 2 ^ (num.log2 + 1) := by exact_mod_cast Nat.lt_log2_self
  have hdenlo : (2 : ℚ) ^ den.log2 ≤ den := by exact_mod_cast Nat.log2_self_le hden.ne'
  have hdenhi : (den : ℚ) < 2 ^ (den.log2 + 1) := by exact_mod_cast Nat.lt_log2_self
  have hden' : (0 : ℚ) < den := by exact_mod_cast hden
  -- The logarithms leave two exponents open, and the comparison settles which of them it is.
  have hlow : (2 : ℚ) ^ ((num.log2 : Int) - den.log2 - 1) ≤ num / den := by
    rw [le_div_iff₀ hden']
    calc (2 : ℚ) ^ ((num.log2 : Int) - den.log2 - 1) * den
        ≤ 2 ^ ((num.log2 : Int) - den.log2 - 1) * 2 ^ (den.log2 + 1) := by gcongr
      _ = 2 ^ num.log2 := by
          rw [← zpow_natCast, ← zpow_natCast, ← zpow_add₀ two_ne_zero]
          congr 1
          push_cast
          ring
      _ ≤ num := hnumlo
  have hhigh : (num / den : ℚ) < 2 ^ ((num.log2 : Int) - den.log2 + 1) := by
    rw [div_lt_iff₀ hden']
    calc (num : ℚ) < 2 ^ (num.log2 + 1) := hnumhi
      _ = 2 ^ ((num.log2 : Int) - den.log2 + 1) * 2 ^ den.log2 := by
          rw [← zpow_natCast, ← zpow_natCast, ← zpow_add₀ two_ne_zero]
          congr 1
          push_cast
          ring
      _ ≤ 2 ^ ((num.log2 : Int) - den.log2 + 1) * den := by gcongr
  simp only [binaryExponent, two_zpow_le_div_iff hden]
  split
  case isTrue hfits => exact ⟨hfits, hhigh⟩
  case isFalse hfits => exact ⟨hlow, by simpa using hfits⟩

/-- The binary exponent is the only one with its property. -/
theorem binaryExponent_eq {num den : Nat} {k : Int} (hnum : 0 < num) (hden : 0 < den)
    (hle : (2 : ℚ) ^ k ≤ num / den) (hlt : (num / den : ℚ) < 2 ^ (k + 1)) :
    binaryExponent num den = k := by
  obtain ⟨hle', hlt'⟩ := binaryExponent_spec hnum hden
  have h₁ := (zpow_lt_zpow_iff_right₀ (one_lt_two (α := ℚ))).1 (hle.trans_lt hlt')
  have h₂ := (zpow_lt_zpow_iff_right₀ (one_lt_two (α := ℚ))).1 (hle'.trans_lt hlt)
  omega

/-! ## Ratios -/

/-- Rounding sees the value of a ratio only. -/
theorem nearestRatio_congr {num den num' den' : Nat} (hnum : 0 < num) (hden : 0 < den)
    (hden' : 0 < den') (h : num * den' = num' * den) :
    nearestRatio num den = nearestRatio num' den' := by
  have hnum' : 0 < num' := Nat.pos_of_mul_pos_right (h ▸ Nat.mul_pos hnum hden')
  have hratio : (num / den : ℚ) = num' / den' := by
    rw [div_eq_div_iff (by positivity) (by positivity)]
    exact_mod_cast h
  have hexp : binaryExponent num den = binaryExponent num' den' := by
    obtain ⟨hle, hlt⟩ := binaryExponent_spec hnum' hden'
    exact binaryExponent_eq hnum hden (hratio ▸ hle) (hratio ▸ hlt)
  simp only [nearestRatio, hexp]
  split
  case isTrue =>
    congr 1
    apply roundQuotient_congr (Nat.mul_pos hden (Nat.pow_pos (by decide)))
      (Nat.mul_pos hden' (Nat.pow_pos (by decide)))
    rw [← Nat.mul_assoc, ← Nat.mul_assoc, h]
  case isFalse =>
    congr 1
    apply roundQuotient_congr hden hden'
    rw [Nat.mul_right_comm, h, Nat.mul_right_comm]

/-- A positive natural number below a power of two lies below the next binary exponent. -/
theorem binaryExponent_lt {num den m : Nat} {e : Int} {k : Nat} (hnum : 0 < num) (hden : 0 < den)
    (hvalue : (num / den : ℚ) = m * 2 ^ e) (hlt : m < 2 ^ k) : binaryExponent num den < k + e := by
  have hbelow : (num / den : ℚ) < 2 ^ (k + e) := by
    rw [hvalue, zpow_add₀ two_ne_zero, zpow_natCast]
    have hlt' : (m : ℚ) < 2 ^ k := by exact_mod_cast hlt
    gcongr
  have hle := (binaryExponent_spec hnum hden).1
  exact (zpow_lt_zpow_iff_right₀ (one_lt_two (α := ℚ))).1 (hle.trans_lt hbelow)

/-- The mantissa that rounding at the exponent of an exact value finds. -/
theorem roundQuotient_exact {num den m : Nat} {e : Int} (hden : 0 < den)
    (hvalue : (num / den : ℚ) = m * 2 ^ e) :
    (if 0 ≤ e then roundQuotient num (den * Nat.pow 2 e.toNat)
      else roundQuotient (num * Nat.pow 2 (-e).toNat) den) = m := by
  rw [div_eq_iff (by positivity)] at hvalue
  split
  case isTrue he =>
    obtain ⟨n, rfl⟩ := Int.eq_ofNat_of_zero_le he
    have hnum : num = m * (den * 2 ^ n) := by
      rw [zpow_natCast] at hvalue
      have hcast : (num : ℚ) = m * (den * 2 ^ n) := by rw [hvalue]; ring
      exact_mod_cast hcast
    rw [Int.toNat_natCast, Nat.pow_eq, hnum]
    exact roundQuotient_mul_self (Nat.mul_pos hden (Nat.pow_pos (by decide)))
  case isFalse he =>
    obtain ⟨n, hn⟩ := Int.eq_ofNat_of_zero_le (a := -e) (by omega)
    have hnum : num * 2 ^ n = m * den := by
      rw [show e = -(n : Int) by omega, zpow_neg, zpow_natCast] at hvalue
      have hcast : (num : ℚ) * 2 ^ n = m * den := by rw [hvalue]; field_simp
      exact_mod_cast hcast
    rw [hn, Int.toNat_natCast, Nat.pow_eq, hnum]
    exact roundQuotient_mul_self hden

/-- A ratio whose value is that of a finite number rounds to it. -/
theorem nearestRatio_exact {x : Float64} {num den : Nat} (hfinite : x.isFinite = true)
    (hzero : x.isZero = false) (hden : 0 < den) (hvalue : (num / den : ℚ) = x.value) :
    nearestRatio num den = x.magnitude := by
  have hnum : 0 < num := by
    have hpos : (0 : ℚ) < num / den := hvalue ▸ value_pos hzero
    have hden' : (0 : ℚ) < den := by exact_mod_cast hden
    exact_mod_cast (div_pos_iff_of_pos_right hden').1 hpos
  have hlt := binaryExponent_lt hnum hden hvalue x.mantissa_lt
  have hexponent : max (binaryExponent num den - 52) (-1074) = x.exponent := by
    rcases Nat.eq_zero_or_pos x.field with hfield | hfield
    · -- A number of the least exponent has no hidden bit, so its ratio may round below it.
      have hm : x.mantissa < 2 ^ 52 := by
        simpa [mantissa, hfield] using x.fraction_lt
      have he : x.exponent = -1074 := by simp [exponent, hfield]
      have hlow := binaryExponent_lt hnum hden hvalue hm
      omega
    · have hm : 2 ^ 52 ≤ x.mantissa := by
        rw [mantissa, if_neg hfield.ne', hiddenBit_eq]
        omega
      have hle : (2 : ℚ) ^ (52 + x.exponent) ≤ num / den := by
        rw [hvalue, value, zpow_add₀ two_ne_zero]
        have hm' : (2 : ℚ) ^ (52 : Int) ≤ x.mantissa := by exact_mod_cast hm
        gcongr
      have hge := (binaryExponent_spec hnum hden).2
      have := (zpow_lt_zpow_iff_right₀ (one_lt_two (α := ℚ))).1 (hle.trans_lt hge)
      have := x.le_exponent
      omega
  rw [nearestRatio, hexponent, roundQuotient_exact hden hvalue]
  exact encode_mantissa hfinite

end HeaderForms.Float64
