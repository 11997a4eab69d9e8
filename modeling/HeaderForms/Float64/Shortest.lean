-- SUMMARY: Writing a floating-point number with the fewest digits that read back as it.
import HeaderForms.Float64.Decimal

/-!
# Shortest text of floating-point numbers

A finite number is written with the fewest significant digits that read back as the same number,
and among those digits the ones nearest to it. The text is positional, with at least one digit
behind the point, when the number is zero or of middle size, and has an exponent otherwise. Where
middle size begins, and which of two equally near digit strings is taken, is for each format to
say; it ends at 10^16 in all of them.
-/

namespace HeaderForms.Float64

/-! ## Digits -/

/-- Which of two equally near digit strings is written. -/
inductive Tie where
  | upper
  | even
deriving DecidableEq, Repr

structure Style where
  tie : Tie
  /-- Numbers of at least ten to this power are positional. -/
  lowest : Int

/-- Forms and tokens write numbers of at least 10^-4 positionally. -/
def Style.display : Style := ⟨.upper, -4⟩

/-- JSON writes numbers of at least 10^-5 positionally. -/
def Style.json : Style := ⟨.even, -5⟩

/-- A positive decimal number, `digits * 10 ^ scale`. -/
structure Decimal where
  digits : Nat
  scale : Int
deriving DecidableEq, Repr

/-- The magnitude of a finite number as a ratio. -/
def ratio (x : Float64) : Nat × Nat :=
  if 0 ≤ x.exponent then (x.mantissa * Nat.pow 2 x.exponent.toNat, 1)
  else (x.mantissa, Nat.pow 2 (-x.exponent).toNat)

def decimalLength (n : Nat) : Nat :=
  (Nat.toDigits 10 n).length

/-- The least `e` with `num / den < 10 ^ e`, for positive `num` and `den`. -/
def decimalExponent (num den : Nat) : Int :=
  let e : Int := (decimalLength num : Int) - (decimalLength den : Int)
  let below := if 0 ≤ e then num < den * Nat.pow 10 e.toNat else num * Nat.pow 10 (-e).toNat < den
  if below then e else e + 1

def Decimal.readsAs (d : Decimal) (x : Float64) : Bool :=
  ofDecimal x.isNegative d.digits d.scale == x

/-- The digits of length `n` nearest to `num / den` that read back as `x`. -/
def candidate? (tie : Tie) (x : Float64) (num den : Nat) (e : Int) (n : Nat) : Option Decimal :=
  let scale := e - n
  let (a, b) :=
    if 0 ≤ scale then (num, den * Nat.pow 10 scale.toNat) else (num * Nat.pow 10 (-scale).toNat, den)
  let low : Decimal := ⟨a / b, scale⟩
  let high : Decimal := ⟨a / b + 1, scale⟩
  let rest := a % b
  let preferLow :=
    2 * rest < b || (2 * rest == b && tie == .even && low.digits % 2 == 0)
  if low.readsAs x && (preferLow || !high.readsAs x) then some low
  else if high.readsAs x then some high
  else none

/-- Every binary fraction is a decimal one with as many places. -/
def exactDecimal (x : Float64) : Decimal :=
  if 0 ≤ x.exponent then ⟨x.mantissa * Nat.pow 2 x.exponent.toNat, 0⟩
  else ⟨x.mantissa * Nat.pow 5 (-x.exponent).toNat, x.exponent⟩

/-- The fewest digits of a finite number other than zero. Seventeen always suffice. -/
def shortest (tie : Tie) (x : Float64) : Decimal :=
  let (num, den) := x.ratio
  let e := decimalExponent num den
  match (List.range 17).findSome? fun n => candidate? tie x num den e (n + 1) with
  | some d => d
  | none => exactDecimal x

/-! ## Layout -/

def stripZeros (cs : List Char) : List Char :=
  (cs.reverse.dropWhile (· = '0')).reverse

/-- Lays out digits whose point stands behind the first `point` of them. -/
def layout (lowest : Int) (digits : List Char) (point : Int) : List Char :=
  if lowest < point && point ≤ 0 then
    '0' :: '.' :: List.replicate (-point).toNat '0' ++ digits
  else if 0 < point && point ≤ 16 then
    let places := digits.drop point.toNat
    digits.take point.toNat ++ List.replicate (point - digits.length).toNat '0'
      ++ '.' :: (if places.isEmpty then ['0'] else places)
  else
    let exponent := 'e' :: Numeral.integerChars (point - 1)
    match digits with
    | [] => exponent
    | [d] => d :: exponent
    | d :: more => d :: '.' :: more ++ exponent

def Decimal.chars (lowest : Int) (d : Decimal) : List Char :=
  let all := Nat.toDigits 10 d.digits
  layout lowest (stripZeros all) (all.length + d.scale)

def chars (style : Style) (x : Float64) : List Char :=
  if x.isNaN then ['N', 'a', 'N']
  else
    let sign := if x.isNegative then ['-'] else []
    if x.isInfinite then sign ++ ['i', 'n', 'f']
    else if x.isZero then sign ++ ['0', '.', '0']
    else sign ++ (shortest style.tie x).chars style.lowest

def text (x : Float64) : String :=
  String.ofList (x.chars .display)

end HeaderForms.Float64
