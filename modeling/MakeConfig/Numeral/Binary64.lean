/-! # Binary floating point

Finite numbers of the 64-bit binary format, as a significand below 2^53 times a power of
two. Every operation is the exact one on rationals followed by rounding to the nearest,
ties to the even significand.
-/

namespace MakeConfig.Numeral

/-- The number `significand * 2 ^ exponent`, with a sign that zero has too. -/
structure Binary64 where
  negative : Bool
  significand : Nat
  exponent : Int
  deriving DecidableEq, Repr

/-- A quotient rounded to the nearest natural number, a tie to the even one. -/
def roundDiv (num den : Nat) : Nat :=
  let q := num / den
  let r := 2 * (num % den)
  if r > den ∨ (r = den ∧ q % 2 = 1) then q + 1 else q

namespace Binary64

def minExponent : Int := -1074

def maxExponent : Int := 971

/-- The least significand of 53 bits. -/
def leastFull : Nat := 0x10000000000000

def zero (negative : Bool) : Binary64 := ⟨negative, 0, minExponent⟩

def isZero (x : Binary64) : Bool := x.significand == 0

/-- A non-negative number as a fraction of natural numbers. -/
def ratio (significand : Nat) (exponent : Int) : Nat × Nat :=
  if exponent < 0 then (significand, Nat.pow 2 (-exponent).toNat)
  else (significand * Nat.pow 2 exponent.toNat, 1)

/-- The exponent at which a positive fraction has a significand of 53 bits, or the least one. -/
def exponentFor (num den : Nat) : Int :=
  let e : Int := (num.log2 : Int) - den.log2 - 52
  let (n, d) := ratio num (-e)
  max minExponent (if n < d * den * leastFull then e - 1 else e)

/-- A fraction rounded to the format, unless it is too large. -/
def ofRatio? (negative : Bool) (num den : Nat) : Option Binary64 :=
  if num = 0 then some (zero negative)
  else
    let e := exponentFor num den
    let (n, d) := ratio num (-e)
    let m := roundDiv n (d * den)
    let (m, e) := if m = 2 * leastFull then (leastFull, e + 1) else (m, e)
    if e > maxExponent then none else some ⟨negative, m, e⟩

def mul? (x y : Binary64) : Option Binary64 :=
  let (n, d) := ratio (x.significand * y.significand) (x.exponent + y.exponent)
  ofRatio? (x.negative != y.negative) n d

def div? (x y : Binary64) : Option Binary64 :=
  let (n, d) := ratio x.significand (x.exponent - y.exponent)
  ofRatio? (x.negative != y.negative) n (d * y.significand)

def powerOfTen? (k : Nat) : Option Binary64 := ofRatio? false (Nat.pow 10 k) 1

/-- The largest power of ten in the format. -/
def maxTenExponent : Nat := 308

def divTen? (x : Binary64) (k : Nat) : Option Binary64 := (powerOfTen? k).bind x.div?

/-- Repeated division by the largest power of ten in the format. -/
def divLargest? (x : Binary64) : Nat → Option Binary64
  | 0 => some x
  | n + 1 => (divLargest? x n).bind fun y => y.divTen? maxTenExponent

/-- Division by a positive power of ten, in steps that stay within the format. Three steps by the
largest power take every number to zero. -/
def divPowerOfTen? (x : Binary64) (k : Nat) : Option Binary64 :=
  let steps := (k - 1) / maxTenExponent
  (divLargest? x (min steps 3)).bind fun y => y.divTen? (k - steps * maxTenExponent)

/-- The number `significand * 10 ^ exponent`. The significand is rounded first and the result of
each scaling by a power of ten again, so two roundings are the rule. -/
def ofDecimal? (negative : Bool) (significand : Nat) (exponent : Int) : Option Binary64 := do
  let x ← ofRatio? negative significand 1
  if exponent < 0 then divPowerOfTen? x (-exponent).toNat
  else if x.isZero then some x
  else if exponent.toNat ≤ maxTenExponent then
    (powerOfTen? exponent.toNat).bind x.mul?
  else none

end Binary64

end MakeConfig.Numeral
