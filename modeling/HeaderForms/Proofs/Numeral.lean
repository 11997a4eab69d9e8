-- SUMMARY: Numerals read back: digits, the number they write, and the integers and bytes of texts.
import Mathlib.Algebra.Group.Nat.Defs
import HeaderForms.Numeral

/-!
# Numerals read back

The digits of a natural number are read as that number, and so are the texts of the bounded
integers.
-/

namespace HeaderForms.Numeral

/-! ## Digits -/

theorem isDigit_iff {c : Char} : isDigit c = true ↔ c.isDigit = true := by
  simp [isDigit, Char.isDigit, Char.le_def]

theorem digitValue?_digitChar {d : Nat} (h : d < 10) : digitValue? d.digitChar = some d := by
  match d, h with
  | 0, _ | 1, _ | 2, _ | 3, _ | 4, _ | 5, _ | 6, _ | 7, _ | 8, _ | 9, _ => rfl

theorem toNat_of_isDigit {c : Char} (h : isDigit c = true) : 48 ≤ c.toNat ∧ c.toNat ≤ 57 := by
  simpa [isDigit, Char.le_def, UInt32.le_iff_toNat_le] using h

theorem isDigitOf_ten_of_isDigit {c : Char} (h : isDigit c = true) : isDigitOf 10 c = true := by
  have hrange := toNat_of_isDigit h
  have hzero : '0'.toNat = 48 := rfl
  rw [isDigit] at h
  simp only [isDigitOf, digitValue?, h, if_true, decide_eq_true_eq]
  omega

/-! ## Numbers of digits -/

theorem ofDigits_append {base acc : Nat} {cs ds : List Char} :
    ofDigits base acc (cs ++ ds) = ofDigits base (ofDigits base acc cs) ds :=
  List.foldl_append

theorem ofDigits_zeros {base acc k : Nat} :
    ofDigits base acc (List.replicate k '0') = acc * base ^ k := by
  induction k generalizing acc with
  | zero => simp [ofDigits]
  | succ k ih =>
    have hzero : (digitValue? '0').getD 0 = 0 := rfl
    simp only [ofDigits, List.replicate_succ, List.foldl_cons, hzero, Nat.add_zero] at ih ⊢
    rw [ih, Nat.pow_succ', Nat.mul_assoc]

theorem ofDigits_naturalChars {n : Nat} : ofDigits 10 0 (naturalChars n) = n := by
  induction n using Nat.strongRecOn with
  | ind n ih =>
    rw [naturalChars, Nat.toDigits_eq_if (by decide)]
    split
    case isTrue hlt => simp [ofDigits, digitValue?_digitChar hlt]
    case isFalse hge =>
      have hdiv := ih (n / 10) (by omega)
      have hmod : n % 10 < 10 := Nat.mod_lt n (by decide)
      rw [naturalChars] at hdiv
      rw [ofDigits_append, hdiv]
      simp only [ofDigits, List.foldl_cons, List.foldl_nil, digitValue?_digitChar hmod,
        Option.getD_some]
      omega

/-! ## Texts of natural numbers -/

theorem isDigit_of_mem_naturalChars {n : Nat} {c : Char} (h : c ∈ naturalChars n) :
    isDigit c = true :=
  isDigit_iff.2 (Nat.isDigit_of_mem_toDigits (by decide) (by decide) h)

theorem naturalChars_ne_nil {n : Nat} : naturalChars n ≠ [] :=
  Nat.toDigits_ne_nil

theorem natural?_of_digits {cs : List Char} (hne : cs ≠ []) (h : ∀ c ∈ cs, isDigit c = true) :
    natural? 10 cs = some (ofDigits 10 0 cs) := by
  have hall : cs.all (isDigitOf 10) = true :=
    List.all_eq_true.2 fun c hc => isDigitOf_ten_of_isDigit (h c hc)
  simp [natural?, hne, hall]

theorem natural?_naturalChars {n : Nat} : natural? 10 (naturalChars n) = some n := by
  rw [natural?_of_digits naturalChars_ne_nil fun _ => isDigit_of_mem_naturalChars,
    ofDigits_naturalChars]

/-! ## Signs -/

/-- A text that starts with no sign has none to split off. -/
theorem splitSign_eq {cs : List Char} (hminus : cs.head? ≠ some '-') (hplus : cs.head? ≠ some '+') :
    splitSign cs = (false, cs) := by
  unfold splitSign
  split
  · simp at hminus
  · simp at hplus
  · rfl

theorem splitSign_of_isDigit {c : Char} {cs : List Char} (h : isDigit c = true) :
    splitSign (c :: cs) = (false, c :: cs) := by
  apply splitSign_eq
  · rintro ⟨⟩
    exact absurd h (by decide)
  · rintro ⟨⟩
    exact absurd h (by decide)

theorem splitSign_naturalChars {n : Nat} : splitSign (naturalChars n) = (false, naturalChars n) := by
  cases hcs : naturalChars n with
  | nil => rfl
  | cons c cs =>
    exact splitSign_of_isDigit (isDigit_of_mem_naturalChars (n := n) (by simp [hcs]))

theorem stripPlus_naturalChars {n : Nat} : stripPlus (naturalChars n) = naturalChars n := by
  unfold stripPlus
  split
  case h_1 cs heq =>
    have hplus := isDigit_of_mem_naturalChars (n := n) (c := '+') (by simp [heq])
    exact absurd hplus (by decide)
  case h_2 => rfl

/-! ## Texts of bounded numbers -/

theorem int64?_of_splitSign {cs digits : List Char} {negative : Bool} {n : Nat} {value : Int}
    (hsign : splitSign cs = (negative, digits)) (hdigits : natural? 10 digits = some n)
    (hvalue : (if negative then -n else n : Int) = value) :
    int64? cs = if inInt64 value then some value else none := by
  rw [int64?, hsign]
  dsimp only
  rw [hdigits, Option.bind_eq_bind, Option.bind_some, hvalue]

/-- The text of an integer reads back unless the integer is too large. -/
theorem int64?_integerChars (n : Int) :
    int64? (integerChars n) = if inInt64 n then some n else none := by
  unfold integerChars
  split
  case isTrue hneg =>
    have hsign : splitSign ('-' :: naturalChars n.natAbs) = (true, naturalChars n.natAbs) := rfl
    exact int64?_of_splitSign hsign natural?_naturalChars (by rw [if_pos rfl]; omega)
  case isFalse hpos =>
    exact int64?_of_splitSign splitSign_naturalChars natural?_naturalChars
      (by rw [if_neg Bool.false_ne_true]; omega)

theorem byte?_naturalChars {byte : UInt8} : byte? (naturalChars byte.toNat) = some byte := by
  have hlt : byte.toNat < 256 := byte.toNat_lt
  simp [byte?, below?, stripPlus_naturalChars, natural?_naturalChars, hlt]

end HeaderForms.Numeral
