import MakeConfig.Json.Value
import MakeConfig.Numeral.Shortest

/-! # The text of JSON values

The compact text of a value: no spaces, only the escapes that JSON needs, and numbers
with the fewest digits.
-/

namespace MakeConfig

open Numeral

/-- How the decimal of a fraction is laid out. -/
structure FractionFormat where
  /-- The least decimal exponent of the first digit that is written without an exponent. -/
  leastPlain : Int
  /-- The decimal exponent of the first digit from which on an exponent is written. -/
  firstScientific : Int

namespace Number

/-- Fractions from 0.00001 up to 10^16 are written without an exponent and keep one digit after the
point. Other exponents have a sign. -/
def format : FractionFormat := ⟨-5, 16⟩

def zeros (n : Nat) : List Char := List.replicate n '0'

/-- Digits with the point after the first `point` of them, which may lie outside. -/
def plainChars (digits : List Char) (point : Int) : List Char :=
  if point ≤ 0 then '0' :: '.' :: (zeros (-point).toNat ++ digits)
  else if digits.length ≤ point.toNat then
    digits ++ zeros (point.toNat - digits.length) ++ ['.', '0']
  else digits.take point.toNat ++ '.' :: digits.drop point.toNat

def scientificChars (digits : List Char) (exponent : Int) : List Char :=
  let sign := if exponent < 0 then '-' else '+'
  let mantissa := match digits with
    | d :: e :: es => d :: '.' :: e :: es
    | ds => ds
  mantissa ++ 'e' :: sign :: Numeral.digits 10 exponent.natAbs

def decimalChars (d : Decimal) : List Char :=
  let digits := Numeral.digits 10 d.significand
  let leading := d.exponent + digits.length - 1
  if format.leastPlain ≤ leading ∧ leading < format.firstScientific then
    plainChars digits (leading + 1)
  else scientificChars digits leading

def fractionChars (x : Binary64) : List Char :=
  let magnitude := if x.isZero then ['0', '.', '0'] else decimalChars (Decimal.shortest x)
  if x.negative then '-' :: magnitude else magnitude

def chars : Number → List Char
  | .integer v => signedDigits 10 v
  | .fraction x => fractionChars x

def text (n : Number) : String := String.ofList n.chars

end Number

namespace Json

/-- A character as it stands in a string. Control characters without an escape of their own become
four hexadecimal digits. -/
def charText (c : Char) : List Char :=
  if c = '"' then ['\\', '"']
  else if c = '\\' then ['\\', '\\']
  else if c = '\n' then ['\\', 'n']
  else if c = '\r' then ['\\', 'r']
  else if c = '\t' then ['\\', 't']
  else if c = '\x08' then ['\\', 'b']
  else if c = '\x0c' then ['\\', 'f']
  else if c.toNat < 0x20 then
    ['\\', 'u', '0', '0', Nat.digitChar (c.toNat / 16), Nat.digitChar (c.toNat % 16)]
  else [c]

def stringText (s : String) : List Char := '"' :: s.toList.flatMap charText ++ ['"']

mutual

def chars : Json → List Char
  | .null => ['n', 'u', 'l', 'l']
  | .bool true => ['t', 'r', 'u', 'e']
  | .bool false => ['f', 'a', 'l', 's', 'e']
  | .number n => n.chars
  | .string s => stringText s
  | .array items => '[' :: itemChars items ++ [']']
  | .object fields => '\x7b' :: fieldChars fields ++ ['\x7d']

def itemChars : List Json → List Char
  | [] => []
  | [item] => chars item
  | item :: items => chars item ++ ',' :: itemChars items

def fieldChars : List (String × Json) → List Char
  | [] => []
  | [(name, value)] => stringText name ++ ':' :: chars value
  | (name, value) :: fields => stringText name ++ ':' :: chars value ++ ',' :: fieldChars fields

end

def text (value : Json) : String := String.ofList value.chars

end Json

end MakeConfig
