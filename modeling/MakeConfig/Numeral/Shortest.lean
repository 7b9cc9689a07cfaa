import MakeConfig.Numeral.Binary64
import MakeConfig.Numeral.Integer

/-! # Shortest decimals

The decimal with the fewest digits that rounds to a given binary number, and of several
such decimals the nearest. The rounding interval of a number includes its ends exactly
when the significand is even.
-/

namespace MakeConfig.Numeral

/-- The number `significand * 10 ^ exponent`. -/
structure Decimal where
  significand : Nat
  exponent : Int
  deriving DecidableEq, Repr

namespace Decimal

/-- A decimal over a common denominator with multiples of a power of two. -/
structure Grid where
  /-- The weight of one unit of the decimal grid. -/
  decimal : Nat
  /-- The weight of one unit of the binary grid. -/
  binary : Nat

def grid (tenExponent twoExponent : Int) : Grid where
  decimal := Nat.pow 10 tenExponent.toNat * Nat.pow 2 (-twoExponent).toNat
  binary := Nat.pow 10 (-tenExponent).toNat * Nat.pow 2 twoExponent.toNat

/-- The digit count of a natural number, none for zero. -/
def length (n : Nat) : Nat := if n = 0 then 0 else (digits 10 n).length

/-- The decimal exponent of the first digit of a positive fraction. -/
def leadingExponent (num den : Nat) : Int :=
  if den ≤ num then length (num / den) - 1 else -(length ((den - 1) / num) : Int)

/-- A positive number with its rounding interval, in quarters of its last place. -/
structure Interval where
  low : Nat
  value : Nat
  high : Nat
  closed : Bool
  exponent : Int

def interval (x : Binary64) : Interval where
  low := 4 * x.significand -
    if x.significand = Binary64.leastFull ∧ x.exponent > Binary64.minExponent then 1 else 2
  value := 4 * x.significand
  high := 4 * x.significand + 2
  closed := x.significand % 2 == 0
  exponent := x.exponent - 2

def Interval.holds (i : Interval) (g : Grid) (n : Nat) : Bool :=
  let place := n * g.decimal
  if i.closed then i.low * g.binary ≤ place && place ≤ i.high * g.binary
  else i.low * g.binary < place && place < i.high * g.binary

/-- The nearer of two neighbours on the grid, if one lies in the interval. -/
def Interval.pick? (i : Interval) (g : Grid) : Option Nat :=
  let below := i.value * g.binary / g.decimal
  let above := below + 1
  let gapBelow := i.value * g.binary - below * g.decimal
  let gapAbove := above * g.decimal - i.value * g.binary
  match i.holds g below, i.holds g above with
  | true, true =>
    if gapBelow < gapAbove ∨ (gapBelow = gapAbove ∧ below % 2 = 0) then some below else some above
  | true, false => some below
  | false, true => some above
  | false, false => none

/-- Search the grids of ever more digits. Seventeen digits always suffice. -/
def search (i : Interval) (leading : Int) : Nat → Nat → Decimal
  | _, 0 => ⟨i.value, 0⟩
  | count, fuel + 1 =>
    let e := leading - count + 1
    match i.pick? (grid e i.exponent) with
    | some n => ⟨n, e⟩
    | none => search i leading (count + 1) fuel

/-- Move trailing zeros of the significand into the exponent, at most `fuel` of them. -/
def reduce : Nat → Decimal → Decimal
  | 0, d => d
  | fuel + 1, d =>
    if d.significand % 10 = 0 then reduce fuel ⟨d.significand / 10, d.exponent + 1⟩ else d

/-- The shortest decimal of a number other than zero. -/
def shortest (x : Binary64) : Decimal :=
  let (num, den) := Binary64.ratio x.significand x.exponent
  reduce 17 (search (interval x) (leadingExponent num den) 1 17)

end Decimal

end MakeConfig.Numeral
