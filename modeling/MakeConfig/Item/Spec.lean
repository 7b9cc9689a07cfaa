import MakeConfig.Field
import MakeConfig.Json.Value
import MakeConfig.OrderedMap
import MakeConfig.Text.Blank

/-! # Specifications of items

The fields of an item as a schema gives them. A field that is left out has its usual value;
one of a wrong form makes the whole specification unreadable.
-/

namespace MakeConfig

namespace Json

/-- The fields of an object as a map. -/
def map? (value : Json) : Option (OrderedMap Json) := value.fields?.map OrderedMap.ofList

/-- The fields of an object of strings. -/
def stringMap? (value : Json) : Option (OrderedMap String) := do
  let fields ← value.fields?
  let texts ← fields.mapM fun (name, value) => value.string?.map fun text => (name, text)
  return OrderedMap.ofList texts

/-- Any value but null. -/
def nonNull : Json → Option Json
  | .null => none
  | value => some value

end Json

structure ItemSpec where
  default? : Option Json
  prompt? : Option String
  help? : Option (List String)
  depends : OrderedMap Json
  imports : Bool
  forced : Bool
  generates : OrderedMap String
  options : List String
  range : List Json
  /-- Fields without a meaning. -/
  unknown : List (String × Json)

namespace ItemSpec

/-- A truth value may be spelled as a word. Every other word is false. -/
def flag? : Json → Option Bool
  | .bool b => some b
  | .string word => some (word ∈ ["y", "yes", "true"])
  | _ => none

/-- Lines of help in an array, or all in one text. -/
def helpLines? : Json → Option (Option (List String))
  | .string text => some (some ((Text.lines text.toList).map String.ofList))
  | value => value.strings?.map some

def fieldNames : List String :=
  ["default", "prompt", "help", "depend", "import", "force", "gen-list", "enum", "range"]

def ofFields? (fields : List (String × Json)) : Option ItemSpec := do
  let default? ← fieldOr? fields "default" none fun value => some value.nonNull
  let prompt? ← fieldOr? fields "prompt" none Json.nullableString?
  let help? ← fieldOr? fields "help" none helpLines?
  let depends ← fieldOr? fields "depend" ∅ Json.map?
  let imports ← fieldOr? fields "import" false flag?
  let forced ← fieldOr? fields "force" false flag?
  let generates ← fieldOr? fields "gen-list" ∅ Json.stringMap?
  let options ← fieldOr? fields "enum" [] Json.strings?
  let range ← fieldOr? fields "range" [] Json.array?
  let unknown := fields.filter fun (name, _) => name ∉ fieldNames
  return { default?, prompt?, help?, depends, imports, forced, generates, options, range, unknown }

end ItemSpec

end MakeConfig
