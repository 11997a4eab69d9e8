-- SUMMARY: The text of a finite floating-point number reads back as the number.
import HeaderForms.Proofs.Numeral
import HeaderForms.Proofs.Float64.Decimal
import Mathlib.Data.List.TakeWhile

/-!
# Texts of floating-point numbers

The text of a finite number is digits with a point and digits, an exponent, or both. What such a
text says as a decimal number is stated as a relation first; the layout of digits is shown to
produce it and the reading of decimals to follow it.
-/

namespace HeaderForms.Float64

open Numeral

/-! ## Decimal texts -/

/-- A non-empty run of digits. -/
def IsDigits (cs : List Char) : Prop :=
  cs ≠ [] ∧ ∀ c ∈ cs, isDigit c = true

theorem isDigits_naturalChars (n : Nat) : IsDigits (naturalChars n) :=
  ⟨naturalChars_ne_nil, fun _ => isDigit_of_mem_naturalChars⟩

theorem isDigits_zero : IsDigits ['0'] :=
  ⟨by simp, by simp [isDigit]⟩

theorem isDigit_of_mem_zeros {k : Nat} {c : Char} (h : c ∈ List.replicate k '0') :
    isDigit c = true := by
  rw [List.eq_of_mem_replicate h]
  rfl

/-- The text of an exponent and the exponent, which is zero where none is written. -/
inductive WritesExponent : List Char → Int → Prop where
  | none : WritesExponent [] 0
  | some (e : Int) : WritesExponent ('e' :: integerChars e) e

/-- A text without a sign that writes `digits * 10 ^ scale`. -/
inductive WritesDecimal : List Char → Nat → Int → Prop where
  | point {whole part tail : List Char} {e : Int} (hwhole : IsDigits whole) (hpart : IsDigits part)
      (htail : WritesExponent tail e) :
      WritesDecimal (whole ++ '.' :: (part ++ tail)) (ofDigits 10 0 (whole ++ part))
        (e - part.length)
  | exponent {whole : List Char} (e : Int) (hwhole : IsDigits whole) :
      WritesDecimal (whole ++ 'e' :: integerChars e) (ofDigits 10 0 whole) e

namespace WritesExponent

theorem takeWhile_isDigit {tail : List Char} {e : Int} (h : WritesExponent tail e) :
    tail.takeWhile isDigit = [] := by
  cases h <;> rfl

theorem dropWhile_isDigit {tail : List Char} {e : Int} (h : WritesExponent tail e) :
    tail.dropWhile isDigit = tail := by
  cases h <;> rfl

theorem exponentPart?_of_splitSign {cs digits : List Char} {negative : Bool} {n : Nat}
    (hsign : splitSign cs = (negative, digits)) (hdigits : natural? 10 digits = Option.some n) :
    exponentPart? ('e' :: cs) = Option.some (if negative then -(n : Int) else n) := by
  simp [exponentPart?, hsign, hdigits]

theorem exponentPart?_eq {tail : List Char} {e : Int} (h : WritesExponent tail e) :
    exponentPart? tail = Option.some e := by
  cases h with
  | none => rfl
  | some e =>
    unfold integerChars
    split
    case isTrue hneg =>
      have hsign : splitSign ('-' :: naturalChars e.natAbs) = (true, naturalChars e.natAbs) := rfl
      rw [exponentPart?_of_splitSign hsign natural?_naturalChars, if_pos rfl,
        show (-(e.natAbs : Int)) = e by omega]
    case isFalse hpos =>
      rw [exponentPart?_of_splitSign splitSign_naturalChars natural?_naturalChars,
        if_neg Bool.false_ne_true, show ((e.natAbs : Int)) = e by omega]

end WritesExponent

namespace IsDigits

theorem takeWhile_append {cs tail : List Char} (h : IsDigits cs) :
    (cs ++ tail).takeWhile isDigit = cs ++ tail.takeWhile isDigit :=
  List.takeWhile_append_of_pos h.2

theorem dropWhile_append {cs tail : List Char} (h : IsDigits cs) :
    (cs ++ tail).dropWhile isDigit = tail.dropWhile isDigit :=
  List.dropWhile_append_of_pos h.2

theorem exists_cons {cs : List Char} (h : IsDigits cs) :
    ∃ c rest, cs = c :: rest ∧ isDigit c = true := by
  obtain ⟨c, rest, rfl⟩ := List.exists_cons_of_ne_nil h.1
  exact ⟨c, rest, rfl, h.2 c (by simp)⟩

theorem append {cs ds : List Char} (hcs : IsDigits cs) (hds : ∀ d ∈ ds, isDigit d = true) :
    IsDigits (cs ++ ds) := by
  refine ⟨by simp [hcs.1], fun c hc => ?_⟩
  rcases List.mem_append.1 hc with hc | hc
  · exact hcs.2 c hc
  · exact hds c hc

end IsDigits

namespace WritesDecimal

theorem exists_cons {cs : List Char} {n : Nat} {s : Int} (h : WritesDecimal cs n s) :
    ∃ c rest, cs = c :: rest ∧ isDigit c = true := by
  cases h with
  | point hwhole _ _ =>
    obtain ⟨c, rest, rfl, hc⟩ := hwhole.exists_cons
    exact ⟨c, _, rfl, hc⟩
  | exponent _ hwhole =>
    obtain ⟨c, rest, rfl, hc⟩ := hwhole.exists_cons
    exact ⟨c, _, rfl, hc⟩

theorem splitSign_eq {cs : List Char} {n : Nat} {s : Int} (h : WritesDecimal cs n s) :
    splitSign cs = (false, cs) := by
  obtain ⟨c, rest, rfl, hc⟩ := h.exists_cons
  exact splitSign_of_isDigit hc

theorem decimal?_eq {cs : List Char} {n : Nat} {s : Int} (h : WritesDecimal cs n s) :
    decimal? cs = some (n, s) := by
  cases h with
  | @point whole part tail e hwhole hpart htail =>
    have htake : ('.' :: (part ++ tail)).takeWhile isDigit = [] := rfl
    have hdrop : ('.' :: (part ++ tail)).dropWhile isDigit = '.' :: (part ++ tail) := rfl
    simp only [decimal?, hwhole.takeWhile_append, hwhole.dropWhile_append, htake, hdrop,
      hpart.takeWhile_append, hpart.dropWhile_append, htail.takeWhile_isDigit,
      htail.dropWhile_isDigit, List.append_nil, htail.exponentPart?_eq, Option.map_some]
    simp [hwhole.1]
  | exponent e hwhole =>
    have hexp := WritesExponent.some s
    simp only [decimal?, hwhole.takeWhile_append, hwhole.dropWhile_append, hexp.takeWhile_isDigit,
      hexp.dropWhile_isDigit, List.append_nil]
    simp [hwhole.1, hexp.exponentPart?_eq]

/-- A decimal text with a sign reads as its decimal number. -/
theorem parse?_eq {cs : List Char} {n : Nat} {s : Int} (h : WritesDecimal cs n s)
    (negative : Bool) :
    parse? ((if negative then ['-'] else []) ++ cs) = some (ofDecimal negative n s) := by
  cases negative with
  | false => simp [parse?, h.splitSign_eq, h.decimal?_eq]
  | true => simp [parse?, splitSign, h.decimal?_eq]

end WritesDecimal

/-! ## Layout -/

theorem exists_zeros_of_stripZeros (cs : List Char) :
    ∃ k, cs = stripZeros cs ++ List.replicate k '0' := by
  refine ⟨(cs.reverse.takeWhile (· = '0')).length, ?_⟩
  have hzeros : (cs.reverse.takeWhile (· = '0')) =
      List.replicate (cs.reverse.takeWhile (· = '0')).length '0' := by
    apply List.eq_replicate_of_mem
    intro c hc
    simpa using List.mem_takeWhile_imp hc
  have hsplit := congrArg List.reverse (List.takeWhile_append_dropWhile (p := (· = '0'))
    (l := cs.reverse))
  rw [List.reverse_append, List.reverse_reverse, hzeros, List.reverse_replicate] at hsplit
  exact hsplit.symm

/-- The text writes the digits as a number, with the point behind the first `point` of them. -/
def LaysOut (text digits : List Char) (point : Int) : Prop :=
  ∃ n s, WritesDecimal text n s ∧
    (n * 10 ^ s : ℚ) = ofDigits 10 0 digits * 10 ^ (point - digits.length)

section Layout

variable {digits : List Char}

/-- Zeros stand between the point and the digits. -/
theorem laysOut_of_zeros_first (hdigits : IsDigits digits) (k : Nat) :
    LaysOut ('0' :: '.' :: (List.replicate k '0' ++ digits)) digits (-k) := by
  have hpart : IsDigits (List.replicate k '0' ++ digits) := by
    refine ⟨by simp [hdigits.1], fun c hc => ?_⟩
    rcases List.mem_append.1 hc with hc | hc
    · exact isDigit_of_mem_zeros hc
    · exact hdigits.2 c hc
  have hwrites := WritesDecimal.point isDigits_zero hpart .none
  rw [List.append_nil] at hwrites
  refine ⟨_, _, hwrites, ?_⟩
  have hzero : ofDigits 10 0 ['0'] = 0 := rfl
  rw [ofDigits_append, hzero, ofDigits_append, ofDigits_zeros, Nat.zero_mul, List.length_append,
    List.length_replicate]
  congr 2
  push_cast
  omega

/-- The point falls between digits. -/
theorem laysOut_of_lt_length (hdigits : IsDigits digits) {k : Nat} (hpos : 0 < k)
    (hlt : k < digits.length) :
    LaysOut (digits.take k ++ '.' :: digits.drop k) digits k := by
  have hwhole : IsDigits (digits.take k) :=
    ⟨by simp [hdigits.1]; omega, fun c hc => hdigits.2 c (List.mem_of_mem_take hc)⟩
  have hpart : IsDigits (digits.drop k) :=
    ⟨by simp; omega, fun c hc => hdigits.2 c (List.mem_of_mem_drop hc)⟩
  have hwrites := WritesDecimal.point hwhole hpart .none
  rw [List.append_nil] at hwrites
  refine ⟨_, _, hwrites, ?_⟩
  rw [List.take_append_drop, List.length_drop]
  congr 2
  omega

/-- The digits end before the point, and zeros fill the gap. -/
theorem laysOut_of_length_le (hdigits : IsDigits digits) {k : Nat} (hle : digits.length ≤ k) :
    LaysOut (digits ++ List.replicate (k - digits.length) '0' ++ ['.', '0']) digits k := by
  have hwhole : IsDigits (digits ++ List.replicate (k - digits.length) '0') :=
    hdigits.append fun c hc => isDigit_of_mem_zeros hc
  have hwrites := WritesDecimal.point hwhole isDigits_zero .none
  rw [List.append_nil] at hwrites
  refine ⟨_, _, hwrites, ?_⟩
  rw [ofDigits_append, ofDigits_append, ofDigits_zeros,
    show ofDigits 10 (ofDigits 10 0 digits * 10 ^ (k - digits.length)) ['0'] =
      ofDigits 10 0 digits * 10 ^ (k - digits.length) * 10 from rfl,
    show (k : Int) - digits.length = (k - digits.length : Nat) by omega, zpow_natCast]
  push_cast
  rw [List.length_singleton, Nat.cast_one, zero_sub, zpow_neg_one]
  field_simp

theorem laysOut_singleton {d : Char} (hd : isDigit d = true) (point : Int) :
    LaysOut (d :: 'e' :: integerChars (point - 1)) [d] point := by
  have hwhole : IsDigits [d] := ⟨by simp, by simpa using hd⟩
  refine ⟨_, _, WritesDecimal.exponent (point - 1) hwhole, ?_⟩
  simp

theorem laysOut_cons {d : Char} {more : List Char} (hd : isDigit d = true) (hmore : IsDigits more)
    (point : Int) :
    LaysOut (d :: '.' :: (more ++ 'e' :: integerChars (point - 1))) (d :: more) point := by
  have hwhole : IsDigits [d] := ⟨by simp, by simpa using hd⟩
  refine ⟨_, _, WritesDecimal.point hwhole hmore (.some (point - 1)), ?_⟩
  rw [List.singleton_append, List.length_cons]
  congr 2
  push_cast
  omega

/-- Every layout writes the digits with the same point. -/
theorem laysOut_layout (lowest : Int) (hdigits : IsDigits digits) (point : Int) :
    LaysOut (layout lowest digits point) digits point := by
  unfold layout
  split
  case isTrue hlow =>
    simp only [Bool.and_eq_true, decide_eq_true_eq] at hlow
    obtain ⟨k, hk⟩ := Int.eq_ofNat_of_zero_le (a := -point) (by omega)
    rw [hk, Int.toNat_natCast, show point = -(k : Int) by omega]
    exact laysOut_of_zeros_first hdigits k
  case isFalse =>
    split
    case isTrue hmiddle =>
      simp only [Bool.and_eq_true, decide_eq_true_eq] at hmiddle
      obtain ⟨k, rfl⟩ := Int.eq_ofNat_of_zero_le (a := point) (by omega)
      rw [Int.toNat_natCast, show ((k : Int) - digits.length).toNat = k - digits.length by omega]
      dsimp only
      rcases Nat.lt_or_ge k digits.length with hlt | hle
      · have hplaces : ¬(digits.drop k).isEmpty = true := by
          simpa [List.isEmpty_iff] using hlt
        rw [Nat.sub_eq_zero_of_le hlt.le, List.replicate_zero, List.append_nil, if_neg hplaces]
        exact laysOut_of_lt_length hdigits (by omega) hlt
      · rw [List.drop_eq_nil_of_le hle, List.take_of_length_le hle, if_pos List.isEmpty_nil]
        exact laysOut_of_length_le hdigits hle
    case isFalse =>
      obtain ⟨d, more, rfl, hd⟩ := hdigits.exists_cons
      cases more with
      | nil => exact laysOut_singleton hd point
      | cons d' more =>
        have hmore : IsDigits (d' :: more) :=
          ⟨by simp, fun c hc => hdigits.2 c (List.mem_cons_of_mem _ hc)⟩
        exact laysOut_cons hd hmore point

end Layout

/-! ## Numbers -/

theorem isDigits_stripZeros {n : Nat} (h : n ≠ 0) : IsDigits (stripZeros (Nat.toDigits 10 n)) := by
  obtain ⟨k, hk⟩ := exists_zeros_of_stripZeros (Nat.toDigits 10 n)
  have hvalue := ofDigits_naturalChars (n := n)
  rw [naturalChars, hk, ofDigits_append, ofDigits_zeros] at hvalue
  refine ⟨?_, fun c hc => isDigit_of_mem_naturalChars (n := n) ?_⟩
  · intro hnil
    rw [hnil] at hvalue
    simp [ofDigits] at hvalue
    omega
  · rw [naturalChars, hk]
    exact List.mem_append_left _ hc

theorem writesDecimal_chars {d : Decimal} (lowest : Int) (h : d.digits ≠ 0) :
    ∃ n s, WritesDecimal (d.chars lowest) n s ∧
      (n * 10 ^ s : ℚ) = d.digits * 10 ^ d.scale := by
  obtain ⟨n, s, hwrites, hvalue⟩ := laysOut_layout lowest
    (isDigits_stripZeros h) ((Nat.toDigits 10 d.digits).length + d.scale)
  refine ⟨n, s, hwrites, hvalue.trans ?_⟩
  have hten : (10 : ℚ) ≠ 0 := by norm_num
  obtain ⟨k, hk⟩ := exists_zeros_of_stripZeros (Nat.toDigits 10 d.digits)
  have hdigits := ofDigits_naturalChars (n := d.digits)
  rw [naturalChars, hk, ofDigits_append, ofDigits_zeros] at hdigits
  have hlength := congrArg List.length hk
  rw [List.length_append, List.length_replicate] at hlength
  rw [show ((Nat.toDigits 10 d.digits).length + d.scale -
      (stripZeros (Nat.toDigits 10 d.digits)).length : Int) = k + d.scale by omega,
    zpow_add₀ hten, zpow_natCast, ← mul_assoc]
  congr 1
  exact_mod_cast hdigits

/-- The words for the values that have no digits. -/
theorem chars_of_not_finite {x : Float64} (style : Style) (h : x.isFinite = false) :
    x.chars style ∈ [['N', 'a', 'N'], ['i', 'n', 'f'], ['-', 'i', 'n', 'f']] := by
  simp only [isFinite, bne_eq_false_iff_eq] at h
  simp only [chars, isNaN, isInfinite, h, beq_self_eq_true, Bool.true_and]
  cases hfraction : x.fraction != 0 with
  | true => simp
  | false =>
    have hzero : x.fraction = 0 := by simpa using hfraction
    rw [if_neg Bool.false_ne_true, hzero, if_pos (beq_self_eq_true 0)]
    cases x.isNegative <;> simp

/-- The text of a finite number is a decimal text with the sign of the number. -/
theorem exists_writesDecimal {x : Float64} (style : Style) (h : x.isFinite = true) :
    ∃ cs n s, x.chars style = (if x.isNegative then ['-'] else []) ++ cs ∧
      WritesDecimal cs n s ∧ ofDecimal x.isNegative n s = x := by
  have hnan := isNaN_of_isFinite h
  have hinf := isInfinite_of_isFinite h
  cases hzero : x.isZero with
  | true =>
    have hmag : x.magnitude = 0 := by simpa [isZero] using hzero
    refine ⟨['0', '.', '0'], _, _, by simp [chars, hnan, hinf, hzero],
      WritesDecimal.point isDigits_zero isDigits_zero .none, ?_⟩
    have hx := ofMagnitude_magnitude x
    rw [hmag] at hx
    have hdigits : ofDigits 10 0 (['0'] ++ ['0']) = 0 := rfl
    rw [hdigits, ofDecimal_zero, hx]
  | false =>
    obtain ⟨n, s, hwrites, hvalue⟩ := writesDecimal_chars style.lowest
      (shortest_digits_ne_zero style.tie h hzero)
    refine ⟨_, n, s, by simp [chars, hnan, hinf, hzero], hwrites, ?_⟩
    have hdigits := shortest_digits_ne_zero style.tie h hzero
    have hn : n ≠ 0 := by
      rintro rfl
      have hten : (10 : ℚ) ^ (shortest style.tie x).scale ≠ 0 := by positivity
      simp [hdigits, hten] at hvalue
    rw [ofDecimal_congr _ hn hdigits hvalue, ofDecimal_shortest style.tie h hzero]

/-- The text of a finite number reads back as the number. -/
theorem parse?_chars {x : Float64} (style : Style) (h : x.isFinite = true) :
    parse? (x.chars style) = some x := by
  obtain ⟨cs, n, s, htext, hwrites, hx⟩ := exists_writesDecimal style h
  rw [htext, hwrites.parse?_eq, hx]

theorem toLower_of_isDigit {c : Char} (h : isDigit c = true) : c.toLower = c := by
  have hrange := toNat_of_isDigit h
  unfold Char.toLower
  rw [dif_neg]
  rintro ⟨hupper, -⟩
  have hle : 65 ≤ c.toNat := UInt32.le_iff_toNat_le.1 hupper
  omega

theorem word?_of_isDigit {c : Char} {cs : List Char} (hc : isDigit c = true) (negative : Bool) :
    word? negative (c :: cs) = none := by
  have hne : ∀ word : String, word.toList.head?.any isDigit = false →
      String.ofList ((c :: cs).map Char.toLower) ≠ word := by
    rintro word hword rfl
    rw [String.toList_ofList, List.map_cons, List.head?_cons, Option.any_some,
      toLower_of_isDigit hc, hc] at hword
    cases hword
  unfold word?
  dsimp only
  rw [if_neg, if_neg (hne _ (by decide))]
  rw [decide_eq_false (hne _ (by decide)), decide_eq_false (hne _ (by decide))]
  exact Bool.false_ne_true

/-- A text that starts with a digit reads as no negative number and as no NaN. -/
theorem parse?_of_isDigit {c : Char} {cs : List Char} {x : Float64} (hc : isDigit c = true)
    (h : parse? (c :: cs) = some x) : x.isNegative = false ∧ x.isNaN = false := by
  rw [parse?, splitSign_of_isDigit hc] at h
  dsimp only at h
  split at h
  case h_1 digits scale hdecimal =>
    cases h
    obtain ⟨magnitude, hle, heq⟩ := exists_ofDecimal_eq false digits scale
    have hbound : topField * hiddenBit < signBit := by decide
    rw [heq]
    exact ⟨isNegative_ofMagnitude false (hle.trans_lt hbound), isNaN_ofMagnitude false hle⟩
  case h_2 => rw [word?_of_isDigit hc] at h; cases h

end HeaderForms.Float64
