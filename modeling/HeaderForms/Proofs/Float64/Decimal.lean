-- SUMMARY: Decimal numbers as floating-point numbers: only the value counts, and exact values are kept.
import HeaderForms.Float64.Shortest
import HeaderForms.Proofs.Float64.Rounding
import Mathlib.Tactic.NormNum
import Mathlib.Tactic.SplitIfs

/-!
# Decimal numbers as floating-point numbers

A decimal number is read by its value: how its digits are split between the digits proper and the
power of ten does not matter. A finite number has an exact decimal, so the digits that are written
for it always read back as it.
-/

namespace HeaderForms.Float64

/-! ## Decimal values -/

/-- A decimal number as a ratio of naturals. -/
def decimalRatio (digits : Nat) (scale : Int) : Nat × Nat :=
  if 0 ≤ scale then (digits * Nat.pow 10 scale.toNat, 1) else (digits, Nat.pow 10 (-scale).toNat)

theorem decimalRatio_den_pos (digits : Nat) (scale : Int) : 0 < (decimalRatio digits scale).2 := by
  unfold decimalRatio
  split
  case isTrue => exact Nat.one_pos
  case isFalse => exact Nat.pow_pos (by decide)

theorem decimalRatio_num_pos {digits : Nat} (scale : Int) (h : digits ≠ 0) :
    0 < (decimalRatio digits scale).1 := by
  unfold decimalRatio
  split
  case isTrue => exact Nat.mul_pos (Nat.pos_of_ne_zero h) (Nat.pow_pos (by decide))
  case isFalse => exact Nat.pos_of_ne_zero h

theorem decimalRatio_value (digits : Nat) (scale : Int) :
    ((decimalRatio digits scale).1 / (decimalRatio digits scale).2 : ℚ) = digits * 10 ^ scale := by
  unfold decimalRatio
  split
  case isTrue hscale =>
    obtain ⟨n, rfl⟩ := Int.eq_ofNat_of_zero_le hscale
    simp [Nat.pow_eq]
  case isFalse hscale =>
    obtain ⟨n, hn⟩ := Int.eq_ofNat_of_zero_le (a := -scale) (by omega)
    rw [show scale = -(n : Int) by omega]
    simp [Nat.pow_eq, div_eq_mul_inv]

/-- The power of ten that a decimal number stays below and whose tenth it reaches. -/
def decimalPoint (digits : Nat) (scale : Int) : Int :=
  (Nat.toDigits 10 digits).length + scale

theorem decimalPoint_spec {digits : Nat} (scale : Int) (h : digits ≠ 0) :
    (10 : ℚ) ^ (decimalPoint digits scale - 1) ≤ digits * 10 ^ scale ∧
      (digits * 10 ^ scale : ℚ) < 10 ^ decimalPoint digits scale := by
  have hpos : 0 < (Nat.toDigits 10 digits).length := Nat.length_toDigits_pos
  have hhigh : digits < 10 ^ (Nat.toDigits 10 digits).length :=
    (Nat.length_toDigits_le_iff (by decide) hpos).1 le_rfl
  have hlow : 10 ^ ((Nat.toDigits 10 digits).length - 1) ≤ digits := by
    by_contra hlt
    rcases Nat.eq_zero_or_pos ((Nat.toDigits 10 digits).length - 1) with hone | hmore
    · simp only [hone, pow_zero] at hlt
      omega
    · have := (Nat.length_toDigits_le_iff (by decide) hmore).2 (not_le.1 hlt)
      omega
  have hlow' : (10 : ℚ) ^ ((Nat.toDigits 10 digits).length - 1 : Nat) ≤ digits := by
    exact_mod_cast hlow
  have hhigh' : (digits : ℚ) < 10 ^ (Nat.toDigits 10 digits).length := by exact_mod_cast hhigh
  have hten : (10 : ℚ) ≠ 0 := by norm_num
  constructor
  · rw [decimalPoint, add_sub_right_comm, zpow_add₀ hten,
      show ((Nat.toDigits 10 digits).length : Int) - 1 = ((Nat.toDigits 10 digits).length - 1 : Nat)
        by omega, zpow_natCast]
    gcongr
  · rw [decimalPoint, zpow_add₀ hten, zpow_natCast]
    gcongr

theorem decimalPoint_congr {digits digits' : Nat} {scale scale' : Int} (h : digits ≠ 0)
    (h' : digits' ≠ 0) (hvalue : (digits * 10 ^ scale : ℚ) = digits' * 10 ^ scale') :
    decimalPoint digits scale = decimalPoint digits' scale' := by
  obtain ⟨hle, hlt⟩ := decimalPoint_spec scale h
  obtain ⟨hle', hlt'⟩ := decimalPoint_spec scale' h'
  have hten : (1 : ℚ) < 10 := by norm_num
  rw [hvalue] at hle hlt
  have h₁ := (zpow_lt_zpow_iff_right₀ hten).1 (hle.trans_lt hlt')
  have h₂ := (zpow_lt_zpow_iff_right₀ hten).1 (hle'.trans_lt hlt)
  omega

/-! ## Reading decimals -/

theorem ofDecimal_zero (negative : Bool) (scale : Int) :
    ofDecimal negative 0 scale = ofMagnitude negative 0 := by
  simp [ofDecimal]

theorem ofDecimal_eq {digits : Nat} (negative : Bool) (scale : Int) (h : digits ≠ 0) :
    ofDecimal negative digits scale =
      ofMagnitude negative
        (if decimalPoint digits scale < -330 then 0
        else if 310 < decimalPoint digits scale then topField * hiddenBit
        else nearestRatio (decimalRatio digits scale).1 (decimalRatio digits scale).2) := by
  unfold decimalPoint decimalRatio
  simp only [ofDecimal, h, decide_false, Bool.false_or, decide_eq_true_eq]
  split_ifs <;> rfl

theorem encode_le (mantissa : Nat) (exponent : Int) :
    encode mantissa exponent ≤ topField * hiddenBit :=
  Nat.min_le_right ..

/-- A decimal reads as a number with its sign that is not beyond infinity. -/
theorem exists_ofDecimal_eq (negative : Bool) (digits : Nat) (scale : Int) :
    ∃ magnitude ≤ topField * hiddenBit,
      ofDecimal negative digits scale = ofMagnitude negative magnitude := by
  refine ⟨_, ?_, rfl⟩
  split
  case isTrue => exact Nat.zero_le _
  case isFalse =>
    split
    case isTrue => exact le_rfl
    case isFalse =>
      split
      case isTrue => exact encode_le ..
      case isFalse => exact encode_le ..

/-- Decimals of one value read as one number. -/
theorem ofDecimal_congr {digits digits' : Nat} {scale scale' : Int} (negative : Bool)
    (h : digits ≠ 0) (h' : digits' ≠ 0)
    (hvalue : (digits * 10 ^ scale : ℚ) = digits' * 10 ^ scale') :
    ofDecimal negative digits scale = ofDecimal negative digits' scale' := by
  have hden : (0 : ℚ) < (decimalRatio digits scale).2 := by
    exact_mod_cast decimalRatio_den_pos digits scale
  have hden' : (0 : ℚ) < (decimalRatio digits' scale').2 := by
    exact_mod_cast decimalRatio_den_pos digits' scale'
  have hratio : nearestRatio (decimalRatio digits scale).1 (decimalRatio digits scale).2 =
      nearestRatio (decimalRatio digits' scale').1 (decimalRatio digits' scale').2 := by
    apply nearestRatio_congr (decimalRatio_num_pos scale h) (decimalRatio_den_pos ..)
      (decimalRatio_den_pos ..)
    rw [← decimalRatio_value, ← decimalRatio_value, div_eq_div_iff hden.ne' hden'.ne'] at hvalue
    exact_mod_cast hvalue
  rw [ofDecimal_eq negative scale h, ofDecimal_eq negative scale' h', hratio,
    decimalPoint_congr h h' hvalue]

theorem value_lt {x : Float64} (h : x.isFinite = true) : x.value < 10 ^ 310 := by
  have hm : (x.mantissa : ℚ) < 2 ^ 53 := by exact_mod_cast x.mantissa_lt
  have he : (2 : ℚ) ^ x.exponent ≤ 2 ^ 971 := by
    rw [← zpow_natCast]
    exact zpow_le_zpow_right₀ one_le_two (exponent_le h)
  have hbound : 2 ^ 53 * 2 ^ 971 ≤ 10 ^ 310 := by decide +kernel
  calc x.value
      < 2 ^ 53 * 2 ^ x.exponent := by
        unfold value
        gcongr
    _ ≤ 2 ^ 53 * 2 ^ 971 := by gcongr
    _ ≤ 10 ^ 310 := by exact_mod_cast hbound

theorem lt_value {x : Float64} (h : x.isZero = false) : ((10 : ℚ) ^ 331)⁻¹ < x.value := by
  have hm : (1 : ℚ) ≤ x.mantissa := by exact_mod_cast mantissa_pos h
  have he : ((2 : ℚ) ^ 1074)⁻¹ ≤ 2 ^ x.exponent := by
    rw [← zpow_natCast, ← zpow_neg]
    exact zpow_le_zpow_right₀ one_le_two x.le_exponent
  have hbound : 2 ^ 1074 < 10 ^ 331 := by decide +kernel
  calc ((10 : ℚ) ^ 331)⁻¹
      < (2 ^ 1074)⁻¹ := by
        gcongr
        exact_mod_cast hbound
    _ ≤ 2 ^ x.exponent := he
    _ ≤ x.value := le_mul_of_one_le_left (by positivity) hm

/-- A decimal whose value is that of a finite number reads as it. -/
theorem ofDecimal_exact {x : Float64} {digits : Nat} {scale : Int} (hfinite : x.isFinite = true)
    (hzero : x.isZero = false) (hvalue : (digits * 10 ^ scale : ℚ) = x.value) :
    ofDecimal x.isNegative digits scale = x := by
  have hpos := hvalue ▸ value_pos hzero
  have hdigits : digits ≠ 0 := by
    rintro rfl
    simp at hpos
  obtain ⟨hle, hlt⟩ := decimalPoint_spec scale hdigits
  have hten : (1 : ℚ) < 10 := by norm_num
  rw [hvalue] at hle hlt
  have hhigh := hle.trans_lt (value_lt hfinite)
  have hlow := (lt_value hzero).trans hlt
  rw [← zpow_natCast, zpow_lt_zpow_iff_right₀ hten] at hhigh
  rw [← zpow_natCast, ← zpow_neg, zpow_lt_zpow_iff_right₀ hten] at hlow
  rw [ofDecimal_eq _ scale hdigits, if_neg (by omega), if_neg (by omega),
    nearestRatio_exact hfinite hzero (decimalRatio_den_pos ..)
      ((decimalRatio_value digits scale).trans hvalue), ofMagnitude_magnitude]

/-! ## Shortest decimals -/

theorem exactDecimal_value (x : Float64) :
    ((exactDecimal x).digits * 10 ^ (exactDecimal x).scale : ℚ) = x.value := by
  unfold exactDecimal value
  split
  case isTrue he =>
    obtain ⟨n, hn⟩ := Int.eq_ofNat_of_zero_le he
    simp [hn, Nat.pow_eq]
  case isFalse he =>
    obtain ⟨n, hn⟩ := Int.eq_ofNat_of_zero_le (a := -x.exponent) (by omega)
    rw [hn, show x.exponent = -(n : Int) by omega]
    have hsplit : (10 : ℚ) ^ n = 5 ^ n * 2 ^ n := by rw [← mul_pow]; norm_num
    simp only [Int.toNat_natCast, Nat.pow_eq, Nat.cast_mul, Nat.cast_pow, Nat.cast_ofNat, zpow_neg,
      zpow_natCast, hsplit]
    field_simp

theorem readsAs_of_candidate? {tie : Tie} {x : Float64} {num den n : Nat} {e : Int} {d : Decimal}
    (h : candidate? tie x num den e n = some d) : d.readsAs x = true := by
  simp only [candidate?] at h
  generalize (if 0 ≤ e - (n : Int) then (num, den * Nat.pow 10 (e - n).toNat)
    else (num * Nat.pow 10 (-(e - n)).toNat, den)) = parts at h
  split at h
  case isTrue hlow =>
    cases h
    exact (Bool.and_eq_true_iff.1 hlow).1
  case isFalse =>
    split at h
    case isTrue hhigh =>
      cases h
      exact hhigh
    case isFalse => cases h

/-- The digits written for a finite number read back as it. -/
theorem ofDecimal_shortest (tie : Tie) {x : Float64} (hfinite : x.isFinite = true)
    (hzero : x.isZero = false) :
    ofDecimal x.isNegative (shortest tie x).digits (shortest tie x).scale = x := by
  simp only [shortest]
  split
  case h_1 d hfound =>
    obtain ⟨n, -, hn⟩ := List.exists_of_findSome?_eq_some hfound
    simpa [Decimal.readsAs] using readsAs_of_candidate? hn
  case h_2 => exact ofDecimal_exact hfinite hzero (exactDecimal_value x)

theorem magnitude_ofMagnitude_zero : ∀ negative, (ofMagnitude negative 0).magnitude = 0 := by
  decide

theorem shortest_digits_ne_zero (tie : Tie) {x : Float64} (hfinite : x.isFinite = true)
    (hzero : x.isZero = false) : (shortest tie x).digits ≠ 0 := by
  intro hdigits
  have hx := ofDecimal_shortest tie hfinite hzero
  have hmag : x.magnitude = 0 := by
    rw [← hx, hdigits, ofDecimal_zero]
    exact magnitude_ofMagnitude_zero _
  simp [isZero, hmag] at hzero

end HeaderForms.Float64
