-- SUMMARY: Binary floating-point numbers of 64 bits, rounding to them, and numeric equality.

/-!
# 64-bit floating-point numbers

A number is its bit pattern: a sign, eleven bits of exponent and 52 bits of fraction. The only
arithmetic that headers need is exact, so everything here is computed with natural numbers: a
finite number is `mantissa * 2 ^ exponent`, and a ratio of naturals is rounded to the nearest
number, ties going to the even mantissa.
-/

namespace HeaderForms

structure Float64 where
  bits : UInt64
deriving DecidableEq, Repr

namespace Float64

/-! ## Parts -/

def signBit : Nat := Nat.pow 2 63
def hiddenBit : Nat := Nat.pow 2 52
def topField : Nat := 2047

def isNegative (x : Float64) : Bool :=
  signBit ≤ x.bits.toNat

/-- The bits without the sign. -/
def magnitude (x : Float64) : Nat :=
  x.bits.toNat % signBit

def field (x : Float64) : Nat :=
  x.magnitude / hiddenBit

def fraction (x : Float64) : Nat :=
  x.magnitude % hiddenBit

def isNaN (x : Float64) : Bool :=
  x.field == topField && x.fraction != 0

def isInfinite (x : Float64) : Bool :=
  x.field == topField && x.fraction == 0

def isFinite (x : Float64) : Bool :=
  x.field != topField

def isZero (x : Float64) : Bool :=
  x.magnitude == 0

def mantissa (x : Float64) : Nat :=
  if x.field = 0 then x.fraction else hiddenBit + x.fraction

def exponent (x : Float64) : Int :=
  if x.field = 0 then -1074 else (x.field : Int) - 1075

/-! ## Building -/

/-- The number with a sign and the other bits of it. -/
def ofMagnitude (negative : Bool) (magnitude : Nat) : Float64 :=
  ⟨UInt64.ofNat (magnitude + if negative then signBit else 0)⟩

def infinity (negative : Bool) : Float64 :=
  ofMagnitude negative (topField * hiddenBit)

def nan : Float64 :=
  ofMagnitude false (topField * hiddenBit + hiddenBit / 2)

/-- The bits of `mantissa * 2 ^ exponent`, for an exponent of at least -1074 and a mantissa of at
most 53 bits that has all 53 unless the exponent is least. A mantissa that rounding has carried to
`2 ^ 53` falls into the next exponent by itself. -/
def encode (mantissa : Nat) (exponent : Int) : Nat :=
  let magnitude :=
    if mantissa < hiddenBit then mantissa
    else (exponent + 1075).toNat * hiddenBit + (mantissa - hiddenBit)
  min magnitude (topField * hiddenBit)

/-- The quotient rounded to the nearest natural, a half going to the even neighbour. -/
def roundQuotient (num den : Nat) : Nat :=
  let q := num / den
  let r := num % den
  if 2 * r < den then q
  else if den < 2 * r then q + 1
  else if q % 2 = 0 then q else q + 1

/-- The greatest `k` with `2 ^ k ≤ num / den`, for positive `num` and `den`. -/
def binaryExponent (num den : Nat) : Int :=
  let k : Int := (num.log2 : Int) - (den.log2 : Int)
  let fits := if 0 ≤ k then den * Nat.pow 2 k.toNat ≤ num else den ≤ num * Nat.pow 2 (-k).toNat
  if fits then k else k - 1

/-- The bits of the number nearest to `num / den`, for positive `num` and `den`. -/
def nearestRatio (num den : Nat) : Nat :=
  let exponent := max (binaryExponent num den - 52) (-1074)
  let mantissa :=
    if 0 ≤ exponent then roundQuotient num (den * Nat.pow 2 exponent.toNat)
    else roundQuotient (num * Nat.pow 2 (-exponent).toNat) den
  encode mantissa exponent

/-! ## Operations -/

def negate (x : Float64) : Float64 :=
  ofMagnitude (!x.isNegative) x.magnitude

/-- Numeric equality: a NaN differs from every number, and the two zeros are equal. -/
def same (x y : Float64) : Bool :=
  !x.isNaN && !y.isNaN && (x.bits == y.bits || (x.isZero && y.isZero))

end Float64

end HeaderForms
