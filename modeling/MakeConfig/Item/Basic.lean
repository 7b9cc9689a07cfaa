import MakeConfig.Item.Kind
import MakeConfig.Item.Spec
import MakeConfig.Variables

/-! # Items

An item is a named value of some kind, which is visible as long as the variables it depends
on hold the texts it requires. What the user gave comes before the default, and a default
counts only if its kind accepts it.
-/

namespace MakeConfig

open Numeral

structure Item where
  name : String
  kind : Kind
  /-- The default in the form in which values are given. -/
  default? : Option String
  /-- The canonical text of the value that was given. -/
  user? : Option String
  prompt : String
  help : List String
  depends : Requirements
  /-- The changes seen so far of variables that the item depends on. -/
  observed : OrderedMap String
  visible : Bool
  /-- Whether the default is taken without a question. -/
  forced : Bool
  /-- Whether the value comes from the environment. -/
  imports : Bool
  generates : OrderedMap Derivation

namespace Item

/-! ## Definition -/

/-- The two bounds of a range, read in this order. -/
def range? {α : Type} (bound : Json → Except Flaw α) : List Json → Except Flaw (Option (α × α))
  | [] => .ok none
  | [min, max] => do
    let min ← bound min
    let max ← bound max
    return some (min, max)
  | _ => .error .rangeArity

def hexBound : Json → Except Flaw Nat
  | .number (.integer v) => if 0 ≤ v then .ok v.toNat else .error (.boundNotUnsigned (.integer v))
  | .number n => .error (.boundNotUnsigned n)
  | .string s =>
    match Kind.hexDigits? s.toList with
    | none => .error (.boundNotHex (.string s))
    | some digits =>
      match (digits? 16 digits).bind (within? wordBound) with
      | none => .error (.boundTooLarge s)
      | some v => .ok v
  | bound => .error (.boundNotHex bound)

/-- An integer or the text of a numeral in any radix that has a mark. -/
def readBound (build : Build) : Json → Reading Int
  | .number (.integer v) => .ofOption (int64? v)
  | .string s => literal build s
  | _ => .error .refused

def integerBound (build : Build) (bound : Json) : Except Flaw Int :=
  match readBound build bound with
  | .error .refused => .error (.boundNotInteger bound)
  | .error .overflow => .error .overflow
  | .ok v => .ok v

def kindOf (build : Build) (typeName : String) (spec : ItemSpec) : Except Flaw Kind :=
  match typeName with
  | "bool" => .ok .bool
  | "tristate" => .ok .tristate
  | "enum" => .ok (.choice spec.options)
  | "hex" => .hex <$> range? hexBound spec.range
  | "int" => .integer <$> range? (integerBound build) spec.range
  | "string" => .ok .text
  | _ => .error (.unknownKind typeName)

/-- The default as a text. Arrays and objects give none. -/
def defaultText? : Json → Option String
  | .string s => some s
  | .number n => some n.text
  | .bool b => some (if b then "y" else "n")
  | _ => none

def derivations (generates : OrderedMap String) : Except Flaw (OrderedMap Derivation) := do
  let entries ← generates.entries.mapM fun (key, expression) =>
    match Derivation.read expression with
    | .error unknown => throw (.unknownDerivation unknown.text key)
    | .ok derivation => pure (key, derivation)
  return OrderedMap.ofList entries

def usualPrompt (name : String) : Kind → String
  | .bool => "Use " ++ name ++ " (y/n)"
  | .tristate => "Use " ++ name ++ " (y/m/n)"
  | .choice options => "Choose Option 0~" ++ natText options.length
  | .hex _ => "Input Hex Value for " ++ name
  | .integer _ => "Input Integer Value for " ++ name
  | .text => "Enter " ++ name ++ " (string)"

def usualHelp : List String := ["No Help Message"]

def isBlankDefault (default? : Option String) : Bool := default?.getD "" == ""

/-- An item as its specification has it. Until it has seen the variables it is visible only if it
depends on none. -/
def define (build : Build) (name typeName : String) (spec : ItemSpec) : Except Flaw Item := do
  let kind ← kindOf build typeName spec
  let default? := spec.default?.bind defaultText?
  if spec.forced && isBlankDefault default? then throw .forcedWithoutDefault
  let generates ← derivations spec.generates
  return {
    name, kind, default?, generates
    user? := none
    prompt := spec.prompt?.getD (usualPrompt name kind)
    help := spec.help?.getD usualHelp
    depends := spec.depends
    observed := ∅
    visible := spec.depends.isEmpty
    forced := spec.forced
    imports := spec.imports }

def ofSpec (build : Build) (name typeName : String) (spec : ItemSpec) : Except Error Item :=
  match define build name typeName spec with
  | .ok item => .ok item
  | .error flaw => .error (flaw.error name)

/-! ## Values -/

def validate (item : Item) (raw : String) : Except Rejection String :=
  match item.kind.accept raw with
  | .ok value => .ok value
  | .error reason => .error ⟨item.name, reason⟩

/-- Take a value that the kind accepts. -/
def assign (item : Item) (raw : String) : Except Rejection (Item × String) := do
  let value ← item.validate raw
  return ({ item with user? := some value }, value)

/-- The canonical text of the default. -/
def acceptedDefault? (item : Item) : Option String :=
  item.default?.bind fun raw => (item.validate raw).toOption

/-- The canonical text of the value in force. -/
def current? (item : Item) : Option String := item.user? <|> item.acceptedDefault?

def optionIndex? (item : Item) (option : String) : Option Nat :=
  item.kind.options.findIdx? (· == option)

/-- What an item takes when it is asked for and gets no answer. -/
def unanswered? (item : Item) : Option String := item.user? <|> item.default?

/-! ## Visibility -/

def refresh {κ : Type} (item : Item) (s : Variables κ) : Item :=
  { item with visible := s.meetsAll item.depends }

/-- Take note of a change of a variable, if the item depends on it. -/
def notice {κ : Type} (item : Item) (name value : String) (s : Variables κ) : Item :=
  if item.depends.contains name then
    { item with observed := item.observed.insert name value }.refresh s
  else item

end Item

end MakeConfig
