import MakeConfig.Item.Basic

/-! # Values and conversions

The value of an item with its type, and the texts that the conversions make of it. Only a
text can resist: it must read as a number where one is asked for, unless the item is
invisible. One that takes a number out of its width stops a checked build.
-/

namespace MakeConfig

open Numeral

inductive Tristate where
  | yes
  | module
  | no
  deriving DecidableEq, Repr

def Tristate.ofText? : String → Option Tristate
  | "y" => some .yes
  | "m" => some .module
  | "n" => some .no
  | _ => none

inductive Value where
  | bool (value : Bool)
  | tristate (value : Tristate)
  | choice (index : Nat) (option : String)
  | hex (value : Nat) (spelling : String)
  | integer (value : Int)
  | text (value : String)
  deriving DecidableEq, Repr

def yesNo (b : Bool) : String := if b then "y" else "n"

def quoted (s : String) : String := "\"" ++ s ++ "\""

namespace Value

def ofBool (b : Bool) : Conversion → String
  | .integer => if b then "1" else "0"
  | .hex => if b then "0x01" else "0x00"
  | .bool | .tristate => yesNo b
  | .text => if b then "TRUE" else "FALSE"

def ofTristate : Tristate → Conversion → String
  | .yes, .integer => "2"
  | .module, .integer => "0"
  | .no, .integer => "1"
  | .yes, .hex => "0x2"
  | .module, .hex => "0x0"
  | .no, .hex => "0x1"
  | t, .bool => yesNo (t != .no)
  | .yes, .tristate => "y"
  | .module, .tristate => "m"
  | .no, .tristate => "n"
  | .yes, .text => "STATIC"
  | .module, .text => "DYNAMIC"
  | .no, .text => "NONE"

def ofChoice (index : Nat) (option : String) : Conversion → String
  | .integer => natText index
  | .hex => hexText index
  | .bool | .tristate => "y"
  | .text => quoted option

def ofHex (value : Nat) (spelling : String) : Conversion → String
  | .integer => natText value
  | .hex | .text => spelling
  | .bool | .tristate => yesNo (value != 0)

def ofInteger (value : Int) : Conversion → String
  | .integer | .text => intText value
  | .hex => String.ofList (signedDigits 16 value)
  | .bool | .tristate => yesNo (value != 0)

/-- A hexadecimal numeral, with or without one mark in front of it. -/
def readHex? : List Char → Option Nat
  | '0' :: 'x' :: cs => natural? wordBound 16 cs
  | '0' :: 'X' :: cs => natural? wordBound 16 cs
  | cs => natural? wordBound 16 cs

/-- Numbers are read from the text of a visible item only. -/
def ofText (build : Build) (visible : Bool) (text : String) : Conversion → Reading String
  | .integer => if visible then (literal build text).map intText else .ok "0"
  | .hex => if visible then (Reading.ofOption (readHex? text.toList)).map hexText else .ok "0x00"
  | .bool | .tristate => .ok (yesNo visible)
  | .text => .ok (quoted text)

def convert (build : Build) (visible : Bool) (target : Conversion) : Value → Reading String
  | .bool b => .ok (ofBool b target)
  | .tristate t => .ok (ofTristate t target)
  | .choice index option => .ok (ofChoice index option target)
  | .hex value spelling => .ok (ofHex value spelling target)
  | .integer value => .ok (ofInteger value target)
  | .text s => ofText build visible s target

/-- The part of a value that a failed conversion reports. -/
def reported : Value → String
  | .text s => s
  | _ => ""

end Value

/-- What derivations take from outside the configuration. -/
structure Ambient where
  /-- The seconds since the beginning of 1970. -/
  seconds : Int
  /-- Random numbers below 2^128, one for each place that asks for one. -/
  noise : Nat → Nat

namespace Item

/-- The value that a canonical text stands for. -/
def valueOf? (item : Item) (text : String) : Option Value :=
  match item.kind with
  | .bool => some (.bool (text == "y"))
  | .tristate => (Tristate.ofText? text).map .tristate
  | .choice _ => (item.optionIndex? text).map fun index => .choice index text
  | .hex _ =>
    (natural? wordBound 16 (text.toList.drop 2)).map fun value => .hex value text
  | .integer _ => (signed64? 10 text.toList).map .integer
  | .text => some (.text text)

def value? (item : Item) : Option Value := item.current?.bind item.valueOf?

def convert (build : Build) (item : Item) (target : Conversion) : Except Error String :=
  match item.value? with
  | none => .error (.conversion item.name target.keyword "")
  | some value =>
    match value.convert build item.visible target with
    | .error .refused => .error (.conversion item.name target.keyword value.reported)
    | .error .overflow => .error .overflow
    | .ok text => .ok text

/-- The text that a derivation makes of an item. -/
def derive (build : Build) (ambient : Ambient) (place : Nat) (item : Item) :
    Derivation → Except Error String
  | .self =>
    match item.current? with
    | none => .error (.conversion item.name "self" "")
    | some text => .ok text
  | .convert target => item.convert build target
  | .random bytes => .ok (natText (ambient.noise place % Nat.pow 256 bytes))
  | .now => .ok (intText ambient.seconds)

/-- The generated entries of an item, none as long as it has no value. Their places start at a
given one. -/
def generated (build : Build) (ambient : Ambient) (start : Nat) (item : Item) :
    Except Error (List (String × String)) :=
  if item.current?.isNone then .ok []
  else
    item.generates.entries.zipIdx.mapM fun ((key, derivation), i) => do
      let text ← item.derive build ambient (start + i) derivation
      return (key, text)

end Item

end MakeConfig
