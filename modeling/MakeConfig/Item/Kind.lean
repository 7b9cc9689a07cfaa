import MakeConfig.Error
import MakeConfig.Numeral.Integer
import MakeConfig.Text.Blank

/-! # Kinds of items

Each kind has a form in which values are given and a canonical text for them. A choice is
given by the index of an option and its canonical text is the option.
-/

namespace MakeConfig

open Numeral

inductive Kind where
  | bool
  | tristate
  | choice (options : List String)
  | hex (range : Option (Nat × Nat))
  | integer (range : Option (Int × Int))
  | text
  deriving DecidableEq, Repr

namespace Kind

/-- The name of a kind in a schema. -/
def typeName : Kind → String
  | bool => "bool"
  | tristate => "tristate"
  | choice _ => "enum"
  | hex _ => "hex"
  | integer _ => "int"
  | text => "string"

def options : Kind → List String
  | choice options => options
  | _ => []

/-- The index of the last option, zero if there is none. -/
def lastIndex (options : List String) : Nat := options.length - 1

/-- The digits of a text that is `0x` and at least one hexadecimal digit. -/
def hexDigits? : List Char → Option (List Char)
  | '0' :: 'x' :: cs => if cs ≠ [] ∧ cs.all isHexDigit then some cs else none
  | _ => none

def acceptHex (range : Option (Nat × Nat)) (raw : String) : Except Reason String :=
  match hexDigits? raw.toList with
  | none => .error .notHex
  | some digits =>
    match (digits? 16 digits).bind (within? wordBound) with
    | none => .error .hexTooLarge
    | some v =>
      match range with
      | none => .ok raw
      | some (min, max) => if min ≤ v ∧ v ≤ max then .ok raw else .error (.hexOutside min max)

def acceptInteger (range : Option (Int × Int)) (raw : String) : Except Reason String :=
  match signed64? 10 (Text.trim raw.toList) with
  | none => .error .notInteger
  | some v =>
    match range with
    | none => .ok (intText v)
    | some (min, max) =>
      if min ≤ v ∧ v ≤ max then .ok (intText v) else .error (.integerOutside min max)

def acceptIndex (options : List String) (raw : String) : Except Reason String :=
  match natural? wordBound 10 (Text.trim raw.toList) with
  | none => .error (.notIndex (lastIndex options))
  | some i =>
    match options[i]? with
    | some option => .ok option
    | none => .error (.indexOutside (lastIndex options))

/-- The canonical text of a value that is given in the form of the kind. Numbers may have blanks
around them where they are decimal. -/
def accept (raw : String) : Kind → Except Reason String
  | bool => if raw = "y" ∨ raw = "n" then .ok raw else .error .notYesNo
  | tristate => if raw = "y" ∨ raw = "m" ∨ raw = "n" then .ok raw else .error .notTristate
  | choice options => acceptIndex options raw
  | hex range => acceptHex range raw
  | integer range => acceptInteger range raw
  | text => if raw = "" then .error .empty else .ok raw

end Kind

end MakeConfig
