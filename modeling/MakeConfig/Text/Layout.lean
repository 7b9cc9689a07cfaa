import MakeConfig.Numeral.Binary64
import MakeConfig.Numeral.Integer
import MakeConfig.Text.Octets

/-! # Layouts

Texts of numbers as a format asks for them: in a field of some width, with a sign, with so many
digits, in fixed or scientific form.
-/

namespace MakeConfig.Text

open Numeral

/-- What a format says about one value. -/
structure Layout where
  left : Bool
  sign : Bool
  space : Bool
  alternate : Bool
  zeros : Bool
  width : Nat
  precision? : Option Nat

namespace Layout

/-- Fill a field. A text longer than the field stays as it is. -/
def fill (l : Layout) (text : Octets) : Octets :=
  let gap := List.replicate (l.width - text.length) ' '
  if l.left then text ++ gap else gap ++ text

/-- Fill a field with zeros between what leads a number and its digits, if the format says so. -/
def fillNumber (l : Layout) (leading digits : Octets) : Octets :=
  if l.zeros && !l.left then
    leading ++ List.replicate (l.width - leading.length - digits.length) '0' ++ digits
  else l.fill (leading ++ digits)

def text (l : Layout) (value : Octets) : Octets :=
  l.fill ((l.precision?.map fun n => value.take n).getD value)

def signOf (l : Layout) (negative : Bool) : Octets :=
  if negative then ['-'] else if l.sign then ['+'] else if l.space then [' '] else []

/-- At least so many digits. No digit is asked for by a precision of zero of the number zero. -/
def paddedDigits (l : Layout) (digits : Octets) : Octets :=
  match l.precision? with
  | none => digits
  | some n =>
    if n = 0 ∧ digits = ['0'] then []
    else List.replicate (n - digits.length) '0' ++ digits

/-- A precision switches the filling with zeros off. -/
def forInteger (l : Layout) : Layout := { l with zeros := l.zeros && l.precision?.isNone }

def signed (l : Layout) (v : Int) : Octets :=
  l.forInteger.fillNumber (l.signOf (v < 0)) (l.paddedDigits (digits 10 v.natAbs))

def unsigned (l : Layout) (radix : Nat) (capital : Bool) (n : Nat) : Octets :=
  let ds := l.paddedDigits (digits radix n)
  let ds := if capital then ds.map Char.toUpper else ds
  let mark : Octets :=
    if !l.alternate || n = 0 then []
    else if radix = 16 then ['0', if capital then 'X' else 'x']
    else []
  let ds := if l.alternate ∧ radix = 8 ∧ ds.head? ≠ some '0' then '0' :: ds else ds
  l.forInteger.fillNumber mark ds

/-! ## Floating point -/

/-- The digits of a number with so many after the point, which stands there if there are any. -/
def fixedDigits (alternate : Bool) (places num den : Nat) : Octets :=
  let ds := digits 10 (roundDiv (num * Nat.pow 10 places) den)
  let ds := List.replicate (places + 1 - ds.length) '0' ++ ds
  let whole := ds.take (ds.length - places)
  if places = 0 then if alternate then whole ++ ['.'] else whole
  else whole ++ '.' :: ds.drop (ds.length - places)

/-- The exponent of ten of a positive fraction. -/
def tenExponent (num den : Nat) : Int :=
  let guess : Int := (digits 10 num).length - (digits 10 den).length
  let below (e : Int) : Bool :=
    if e ≥ 0 then num < den * Nat.pow 10 e.toNat else num * Nat.pow 10 (-e).toNat < den
  if below guess then guess - 1 else guess

/-- A fraction as a rounded number of so many digits and one more, with its exponent of ten. -/
def scientificDigits (places num den : Nat) : Nat × Int :=
  if num = 0 then (0, 0)
  else
    let e := tenExponent num den
    let shift : Int := places - e
    let n :=
      if shift ≥ 0 then roundDiv (num * Nat.pow 10 shift.toNat) den
      else roundDiv num (den * Nat.pow 10 (-shift).toNat)
    if n = Nat.pow 10 (places + 1) then (n / 10, e + 1) else (n, e)

def exponentText (capital : Bool) (e : Int) : Octets :=
  let ds := digits 10 e.natAbs
  (if capital then 'E' else 'e') :: (if e < 0 then '-' else '+') ::
    (List.replicate (2 - ds.length) '0' ++ ds)

def scientific (alternate capital : Bool) (places num den : Nat) : Octets :=
  let (n, e) := scientificDigits places num den
  let ds := digits 10 n
  let ds := ds ++ List.replicate (places + 1 - ds.length) '0'
  let rest := ds.drop 1
  let point : Octets := if rest.isEmpty && !alternate then [] else ['.']
  ds.take 1 ++ point ++ rest ++ exponentText capital e

/-- Take away the zeros at the end of the digits after a point, and the point if nothing is left. -/
def withoutZeros (ds : Octets) : Octets :=
  if ds.contains '.' then
    let ds := (ds.reverse.dropWhile (· == '0')).reverse
    if ds.getLast? = some '.' then ds.dropLast else ds
  else ds

/-- The shorter form: fixed unless the exponent is far from zero. -/
def general (alternate capital : Bool) (places num den : Nat) : Octets :=
  let places := max places 1
  let (_, e) := scientificDigits (places - 1) num den
  if -4 ≤ e ∧ e < places then
    let ds := fixedDigits alternate ((places : Int) - 1 - e).toNat num den
    if alternate then ds else withoutZeros ds
  else
    let ds := scientific alternate capital (places - 1) num den
    if alternate then ds
    else
      let mark := if capital then 'E' else 'e'
      withoutZeros (ds.takeWhile (· != mark)) ++ ds.dropWhile (· != mark)

/-- A floating point number in the form that a letter asks for. -/
def float (l : Layout) (letter : Char) (x : Binary64) : Octets :=
  let (num, den) := Binary64.ratio x.significand x.exponent
  let places := l.precision?.getD 6
  let ds :=
    if letter = 'f' ∨ letter = 'F' then fixedDigits l.alternate places num den
    else if letter = 'e' ∨ letter = 'E' then scientific l.alternate (letter == 'E') places num den
    else general l.alternate (letter == 'G') places num den
  l.fillNumber (l.signOf x.negative) ds

end Layout

end MakeConfig.Text
