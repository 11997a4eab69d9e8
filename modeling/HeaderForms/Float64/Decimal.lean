-- SUMMARY: Reading a floating-point number from decimal text.
import HeaderForms.Numeral
import HeaderForms.Float64.Basic

/-!
# Decimal text of floating-point numbers

A number is written with an optional sign, digits with an optional point before, between or behind
them, and an optional exponent. It reads as the nearest floating-point number: text too large for
any reads as infinity, text too small as zero. The words `inf`, `infinity` and `nan` are numbers
too, in any case.
-/

namespace HeaderForms.Float64

open Numeral

/-! ## Values -/

/-- The number nearest to `digits * 10 ^ scale`. A value of 10^310 or more, or below 10^-330, is
settled by its size alone, so the powers that are computed stay small. -/
def ofDecimal (negative : Bool) (digits : Nat) (scale : Int) : Float64 :=
  let length : Int := (Nat.toDigits 10 digits).length
  let magnitude :=
    if digits = 0 || length + scale < -330 then 0
    else if 310 < length + scale then topField * hiddenBit
    else if 0 ≤ scale then nearestRatio (digits * Nat.pow 10 scale.toNat) 1
    else nearestRatio digits (Nat.pow 10 (-scale).toNat)
  ofMagnitude negative magnitude

/-! ## Text -/

/-- The value of an exponent part, which is empty or `e` and a signed number. -/
def exponentPart? : List Char → Option Int
  | [] => some 0
  | c :: cs =>
    if c = 'e' || c = 'E' then
      let (negative, digits) := splitSign cs
      (natural? 10 digits).map fun n => if negative then -n else n
    else none

/-- The digits on both sides of the point and the power of ten they are scaled by. -/
def decimal? (cs : List Char) : Option (Nat × Int) :=
  let whole := cs.takeWhile isDigit
  let (part, tail) :=
    match cs.dropWhile isDigit with
    | '.' :: more => (more.takeWhile isDigit, more.dropWhile isDigit)
    | other => ([], other)
  if whole.isEmpty && part.isEmpty then none
  else (exponentPart? tail).map fun e => (ofDigits 10 0 (whole ++ part), e - part.length)

def word? (negative : Bool) (cs : List Char) : Option Float64 :=
  let lower := String.ofList (cs.map Char.toLower)
  if lower = "inf" || lower = "infinity" then some (infinity negative)
  else if lower = "nan" then some (if negative then nan.negate else nan)
  else none

def parse? (cs : List Char) : Option Float64 :=
  let (negative, rest) := splitSign cs
  match decimal? rest with
  | some (digits, scale) => some (ofDecimal negative digits scale)
  | none => word? negative rest

end HeaderForms.Float64
