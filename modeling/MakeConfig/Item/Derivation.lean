import MakeConfig.Numeral.Integer
import MakeConfig.Text.Blank

/-! # Derivations

What an item contributes to the generated entries: its value, a conversion of it, a random
number of some bytes, or the time. Derivations are words of a fixed table, and blanks
anywhere in them do not count.
-/

namespace MakeConfig

open Numeral

inductive Conversion where
  | integer
  | hex
  | bool
  | tristate
  | text
  deriving DecidableEq, Repr

namespace Conversion

def all : List Conversion := [integer, hex, bool, tristate, text]

def keyword : Conversion → String
  | integer => "to_int"
  | hex => "to_hex"
  | bool => "to_bool"
  | tristate => "to_tristate"
  | text => "to_string"

def ofKeyword? (word : String) : Option Conversion := all.find? fun c => c.keyword = word

end Conversion

inductive Derivation where
  | self
  | convert (conversion : Conversion)
  | random (bytes : Nat)
  | now
  deriving DecidableEq, Repr

namespace Derivation

/-- A word with the argument in its parentheses, if it has these. -/
def call? (cs : List Char) : Option (String × Option (List Char)) :=
  match Text.splitOnce? '(' cs with
  | none => some (String.ofList cs, none)
  | some (head, rest) =>
    (Text.dropLast? ')' rest).map fun argument => (String.ofList head, some argument)

/-- One to sixteen bytes can be drawn. -/
def bytes? (cs : List Char) : Option Nat := (natural? 17 10 cs).filter (0 < ·)

/-- An argument that a conversion may be given: none at all, or a word for the value. -/
def isValueArgument : Option (List Char) → Bool
  | none => true
  | some argument => String.ofList argument ∈ ["", "this", "self"]

def ofCall? (word : String) (argument : Option (List Char)) : Option Derivation :=
  if word = "self" ∨ word = "this" then if argument.isNone then some self else none
  else if word = "now" ∨ word = "ctime" then
    if argument.isNone ∨ argument = some [] then some now else none
  else if word = "rand" then (argument.bind bytes?).map random
  else if isValueArgument argument then (Conversion.ofKeyword? word).map convert
  else none

def ofText? (text : String) : Option Derivation :=
  (call? (Text.withoutBlanks text.toList)).bind fun (word, argument) => ofCall? word argument

def text : Derivation → String
  | self => "self"
  | convert conversion => conversion.keyword
  | random bytes => "rand(" ++ natText bytes ++ ")"
  | now => "now()"

/-- The answer to a text that is no derivation. -/
def unknownText (text : String) : String := "unknown generation expression '" ++ text ++ "'"

/-- A text that is no derivation, blanks and all. -/
structure Unknown where
  text : String
  deriving DecidableEq, Repr

def read (text : String) : Except Unknown Derivation :=
  match ofText? text with
  | some derivation => .ok derivation
  | none => .error ⟨text⟩

end Derivation

end MakeConfig
