/-! # Bytes as characters

A text of bytes has the character of a byte's number for each byte. It is written as UTF-8, and
read from it with a replacement character for what is no UTF-8: one for the longest part that
could have been the start of a character, and one for each other byte.
-/

namespace MakeConfig.Text

/-- A text in which the number of every character is below 256. -/
abbrev Octets := List Char

namespace Octets

def ofBytes (bytes : ByteArray) : Octets := bytes.toList.map fun b => Char.ofNat b.toNat

def ofString (s : String) : Octets := ofBytes s.toUTF8

def toBytes (o : Octets) : ByteArray := ⟨(o.map fun c => UInt8.ofNat c.toNat).toArray⟩

/-- A character of which some bytes are still to come, the next one within bounds. -/
structure Pending where
  value : Nat
  owed : Nat
  low : Nat
  high : Nat

def replacement : Char := '\uFFFD'

/-- What a byte between characters gives: a whole character or the start of one. -/
def start (b : Nat) : List Char × Option Pending :=
  if b < 0x80 then ([Char.ofNat b], none)
  else if 0xC2 ≤ b ∧ b < 0xE0 then ([], some ⟨b % 0x20, 1, 0x80, 0xBF⟩)
  else if 0xE0 ≤ b ∧ b < 0xF0 then
    let low := if b = 0xE0 then 0xA0 else 0x80
    let high := if b = 0xED then 0x9F else 0xBF
    ([], some ⟨b % 0x10, 2, low, high⟩)
  else if 0xF0 ≤ b ∧ b < 0xF5 then
    let low := if b = 0xF0 then 0x90 else 0x80
    let high := if b = 0xF4 then 0x8F else 0xBF
    ([], some ⟨b % 0x08, 3, low, high⟩)
  else ([replacement], none)

/-- What a byte gives after a start. One that does not continue it ends it. -/
def advance (p : Pending) (b : Nat) : List Char × Option Pending :=
  if p.low ≤ b ∧ b ≤ p.high then
    let value := p.value * 0x40 + b % 0x40
    if p.owed = 1 then ([Char.ofNat value], none)
    else ([], some ⟨value, p.owed - 1, 0x80, 0xBF⟩)
  else
    let (cs, next) := start b
    (replacement :: cs, next)

def decodeFrom : Option Pending → Octets → List Char
  | none, [] => []
  | some _, [] => [replacement]
  | p?, o :: os =>
    let (cs, next) := match p? with
      | none => start o.toNat
      | some p => advance p o.toNat
    cs ++ decodeFrom next os

/-- Read as UTF-8. -/
def toText (o : Octets) : String := String.ofList (decodeFrom none o)

end Octets

end MakeConfig.Text
