-- SUMMARY: Numerals: digits of a base up to 36, and the texts of bounded integers.

/-!
# Numerals

Reading whole numbers from text. A digit of base `b` is a decimal digit or a letter of either case
whose value is below `b`. Numbers of a bounded kind are refused outside their range rather than
reduced into it.
-/

namespace HeaderForms.Numeral

/-! ## Digits -/

def isDigit (c : Char) : Bool :=
  '0' ≤ c && c ≤ '9'

def isLetter (c : Char) : Bool :=
  ('a' ≤ c && c ≤ 'z') || ('A' ≤ c && c ≤ 'Z')

/-- The value of a digit in some base up to 36. -/
def digitValue? (c : Char) : Option Nat :=
  if '0' ≤ c && c ≤ '9' then some (c.toNat - '0'.toNat)
  else if 'a' ≤ c && c ≤ 'z' then some (c.toNat - 'a'.toNat + 10)
  else if 'A' ≤ c && c ≤ 'Z' then some (c.toNat - 'A'.toNat + 10)
  else none

def isDigitOf (base : Nat) (c : Char) : Bool :=
  match digitValue? c with
  | some d => d < base
  | none => false

/-- The number whose digits follow those of `acc`. -/
def ofDigits (base : Nat) (acc : Nat) (cs : List Char) : Nat :=
  cs.foldl (fun n c => n * base + (digitValue? c).getD 0) acc

/-- The number written by a non-empty run of digits. -/
def natural? (base : Nat) (cs : List Char) : Option Nat :=
  if !cs.isEmpty && cs.all (isDigitOf base) then some (ofDigits base 0 cs) else none

/-! ## Signs -/

def stripPlus : List Char → List Char
  | '+' :: cs => cs
  | cs => cs

/-- Whether a sign at the front is negative, and what follows it. -/
def splitSign : List Char → Bool × List Char
  | '-' :: cs => (true, cs)
  | '+' :: cs => (false, cs)
  | cs => (false, cs)

/-! ## Bounded numbers -/

/-- The least number that is too large for a signed 64-bit integer. -/
def int64Bound : Nat :=
  Nat.pow 2 63

def inInt64 (n : Int) : Bool :=
  -int64Bound ≤ n && n < int64Bound

/-- A signed 64-bit integer: an optional sign and decimal digits. -/
def int64? (cs : List Char) : Option Int := do
  let (negative, digits) := splitSign cs
  let n ← natural? 10 digits
  let value : Int := if negative then -n else n
  if inInt64 value then some value else none

/-- A whole number below `bound`: an optional `+` and digits. -/
def below? (bound base : Nat) (cs : List Char) : Option Nat := do
  let n ← natural? base (stripPlus cs)
  if n < bound then some n else none

def byte? (cs : List Char) : Option UInt8 :=
  (below? 256 10 cs).map UInt8.ofNat

/-! ## Text -/

def naturalChars (n : Nat) : List Char :=
  Nat.toDigits 10 n

def integerChars (n : Int) : List Char :=
  if n < 0 then '-' :: naturalChars n.natAbs else naturalChars n.natAbs

end HeaderForms.Numeral
