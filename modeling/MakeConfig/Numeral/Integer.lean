import MakeConfig.Text.Blank

/-! # Integer numerals

Digits in a radix, numerals with and without a sign, and the widths within which
a numeral is accepted. A numeral has at least one digit and any number of leading
zeros.
-/

namespace MakeConfig

/-- How the program is built. Where the result of a step does not fit its width, a checked build
stops, and a release build goes on with the number wrapped around. -/
inductive Build where
  | checked
  | release
  deriving DecidableEq, Repr

namespace Numeral

/-- The value of a digit in a radix of at most sixteen, letters in either case. -/
def digit? (radix : Nat) (c : Char) : Option Nat :=
  let d :=
    if '0' ≤ c ∧ c ≤ '9' then c.toNat - '0'.toNat
    else if 'a' ≤ c ∧ c ≤ 'f' then c.toNat - 'a'.toNat + 10
    else if 'A' ≤ c ∧ c ≤ 'F' then c.toNat - 'A'.toNat + 10
    else radix
  if d < radix then some d else none

def isHexDigit (c : Char) : Bool := (digit? 16 c).isSome

/-- The value of a run of digits that follows digits of value `acc`. -/
def digitsFrom? (radix acc : Nat) : List Char → Option Nat
  | [] => some acc
  | c :: cs => (digit? radix c).bind fun d => digitsFrom? radix (acc * radix + d) cs

/-- An unsigned numeral: one digit or more. -/
def digits? (radix : Nat) (cs : List Char) : Option Nat :=
  if cs.isEmpty then none else digitsFrom? radix 0 cs

def within? {α : Type} [LT α] [DecidableRel (α := α) (· < ·)] (bound v : α) : Option α :=
  if v < bound then some v else none

/-- A numeral below a bound, which a plus sign may precede. -/
def natural? (bound radix : Nat) : List Char → Option Nat
  | '+' :: cs => (digits? radix cs).bind (within? bound)
  | cs => (digits? radix cs).bind (within? bound)

/-- Two to the power of sixty-four. The natural numbers below it fit 64 bits. -/
def wordBound : Nat := 0x10000000000000000

/-- The values that fit 64 bits with a sign. -/
def IsInt64 (v : Int) : Prop := -0x8000000000000000 ≤ v ∧ v < 0x8000000000000000

instance (v : Int) : Decidable (IsInt64 v) := inferInstanceAs (Decidable (_ ∧ _))

def int64? (v : Int) : Option Int := if IsInt64 v then some v else none

/-- A numeral with an optional sign whose value fits 64 bits. -/
def signed64? (radix : Nat) : List Char → Option Int
  | '-' :: cs => (digits? radix cs).bind fun n => int64? (-n)
  | '+' :: cs => (digits? radix cs).bind fun n => int64? n
  | cs => (digits? radix cs).bind fun n => int64? n

/-- The radix that a mark in front of a numeral announces, with what follows the mark. -/
def radixMark : List Char → Nat × List Char
  | '0' :: 'x' :: cs => (16, cs)
  | '0' :: 'o' :: cs => (8, cs)
  | '0' :: 'b' :: cs => (2, cs)
  | cs => (10, cs)

/-- The number in 64-bit two's complement. -/
def wrap64 (v : Int) : Int := v.bmod wordBound

/-- Why there is no number. -/
inductive Unread where
  | refused
  /-- A checked build has stopped. -/
  | overflow
  deriving DecidableEq, Repr

abbrev Reading (α : Type) := Except Unread α

def Reading.ofOption {α : Type} : Option α → Reading α
  | none => .error .refused
  | some v => .ok v

/-- What a step on 64-bit numbers gives whose exact result is `v`. -/
def fit64 (build : Build) (v : Int) : Reading Int :=
  if IsInt64 v then .ok v
  else
    match build with
    | .checked => .error .overflow
    | .release => .ok (wrap64 v)

/-- A numeral in a radix that its mark names, the mark in either case. An outer sign stands before
the mark, and an inner one may follow it. -/
def marked64 (build : Build) (cs : List Char) : Reading Int :=
  let read (body : List Char) : Reading Int :=
    let (radix, digits) := radixMark (body.map Char.toLower)
    Reading.ofOption (signed64? radix digits)
  match cs with
  | '-' :: body => (read body).bind fun v => fit64 build (-v)
  | '+' :: body => read body
  | body => read body

/-- The value of a text that is a numeral with or without a mark, between blanks. -/
def literal (build : Build) (text : String) : Reading Int :=
  marked64 build (Text.trim text.toList)

/-- Digits of a number in a radix, small letters from ten on. -/
def digits (radix n : Nat) : List Char := Nat.toDigits radix n

def natText (n : Nat) : String := String.ofList (digits 10 n)

def hexText (n : Nat) : String := String.ofList (digits 16 n)

/-- The digits of the absolute value in a radix, after a minus sign if the number is negative. -/
def signedDigits (radix : Nat) (v : Int) : List Char :=
  if v < 0 then '-' :: digits radix v.natAbs else digits radix v.natAbs

def intText (v : Int) : String := String.ofList (signedDigits 10 v)

end Numeral

end MakeConfig
