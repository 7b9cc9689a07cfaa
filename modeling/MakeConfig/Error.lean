import MakeConfig.Handle
import MakeConfig.Item.Derivation
import MakeConfig.Json.Text
import MakeConfig.Path.Basic

/-! # Errors

What can go wrong while a configuration is read, asked for and written, told by its cause.
Only the rejection of a value can be answered with another value.
-/

namespace MakeConfig

open Numeral

/-- The rule that a value breaks. -/
inductive Reason where
  | notYesNo
  | notTristate
  /-- Options are chosen by an index up to `last`. -/
  | notIndex (last : Nat)
  | indexOutside (last : Nat)
  | notHex
  | hexTooLarge
  | hexOutside (min max : Nat)
  | notInteger
  | integerOutside (min max : Int)
  | empty
  deriving DecidableEq, Repr

def Reason.text : Reason → String
  | notYesNo => "value should be 'y' or 'n'"
  | notTristate => "value should be one of (y/m/n)"
  | notIndex last => "value should be an index within 0~" ++ natText last
  | indexOutside last => "value should be within 0~" ++ natText last
  | notHex => "value should be formatted as '0x[0-9a-fA-F]'"
  | hexTooLarge => "value does not fit in 64 bits"
  | hexOutside min max => "value should be within 0x" ++ hexText min ++ "~0x" ++ hexText max
  | notInteger => "value should be a decimal integer"
  | integerOutside min max => "value should between " ++ intText min ++ " ~ " ++ intText max
  | empty => "string type should not be empty"

/-- A value that an item refuses. -/
structure Rejection where
  item : String
  reason : Reason
  deriving DecidableEq, Repr

def Rejection.message (r : Rejection) : String :=
  "invalid value for " ++ r.item ++ ": " ++ r.reason.text

/-- What is wrong with the definition of an item. -/
inductive Flaw where
  | unknownKind (kind : String)
  | rangeArity
  | boundTooLarge (bound : String)
  | boundNotUnsigned (bound : Number)
  | boundNotHex (bound : Json)
  | boundNotInteger (bound : Json)
  | forcedWithoutDefault
  | unknownDerivation (expression key : String)
  | nothingToAdopt
  /-- No fault of the definition: a checked build has stopped at a bound. -/
  | overflow
  deriving Repr

/-- What a step out of its width is called where a checked build stops. -/
def overflowText : String := "attempt to negate with overflow"

def Flaw.text (item : String) : Flaw → String
  | unknownKind kind => "'" ++ kind ++ "' is not an item type (item " ++ item ++ ")"
  | rangeArity => "range of " ++ item ++ " must have exactly two elements"
  | boundTooLarge bound => "range bound " ++ bound ++ " of " ++ item ++ " overflows"
  | boundNotUnsigned bound => "range bound " ++ bound.text ++ " of " ++ item ++ " is not unsigned"
  | boundNotHex bound =>
    "value in range attribute of " ++ item ++ " should be formatted as '0x[0-9a-fA-F]' (got "
      ++ bound.text ++ ")"
  | boundNotInteger bound =>
    "range bound " ++ bound.text ++ " of " ++ item ++ " is not an integer"
  | forcedWithoutDefault => "forced item " ++ item ++ " must have a non-empty default"
  | unknownDerivation expression key =>
    Derivation.unknownText expression ++ " in gen-list of " ++ item ++ " (key " ++ key ++ ")"
  | nothingToAdopt => "item " ++ item ++ " has no default to adopt"
  | overflow => overflowText

/-- What is wrong with an entry of a schema. -/
inductive EntryFault where
  | untyped
  | malformed
  deriving DecidableEq, Repr

inductive Error where
  | fileNotFound (path : Path)
  | rejected (rejection : Rejection)
  | wrongPackage (expected found : String)
  | flawed (item : String) (flaw : Flaw)
  | schema (file : Path) (entry : String) (fault : EntryFault)
  /-- A value without the form that a conversion asks for, or no value at all. -/
  | conversion (item target value : String)
  | io
  | json
  | stale (handle : Handle)
  /-- A dialog that cannot go on. -/
  | dialog (message : String)
  /-- A checked build has stopped where a number does not fit its width. This ends the program. -/
  | overflow
  deriving Repr

def Flaw.error (item : String) : Flaw → Error
  | overflow => .overflow
  | flaw => .flawed item flaw

namespace Error

/-- Whether another answer may be asked for. -/
def recoverable : Error → Bool
  | rejected _ => true
  | _ => false

/-- The text of an error. Input and output faults and the fault in a malformed entry are not told
in detail. -/
def message : Error → String
  | fileNotFound path => path.text ++ " doesn't exist"
  | rejected r => r.message
  | wrongPackage expected found =>
    "Unexpected package name: " ++ found ++ " (expected " ++ expected ++ ")"
  | flawed item flaw => "Configuration logic error: " ++ flaw.text item
  | schema file entry fault =>
    let place := "Schema error in " ++ file.text ++ ": entry '" ++ entry ++ "'"
    match fault with
    | .untyped => place ++ " has no \"type\""
    | .malformed => place
  | conversion item target value =>
    "Cannot apply " ++ target ++ " to " ++ item ++ " (value '" ++ value ++ "')"
  | io => "IO error"
  | json => "JSON error"
  | stale h => h.noun ++ " handle " ++ h.text ++ " does not refer to a live " ++ h.noun
  | dialog text => text
  | overflow => overflowText

end Error

end MakeConfig
