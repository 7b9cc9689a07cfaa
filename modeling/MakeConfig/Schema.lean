import MakeConfig.FileSystem.Read
import MakeConfig.Item.Basic
import MakeConfig.Json.Document

/-! # Schemas

A schema is an object of entries, each with a type: an item, a further schema, a recipe or a
repo. Its entries keep the order of the document. Entries of an unknown type are left out,
and the first entry that cannot be read spoils the schema.
-/

namespace MakeConfig

/-- A further schema, with the requirements under which it is looked at. -/
structure ChildSpec where
  path : String
  depends : Requirements

structure RecipeSpec where
  path : String

structure RepoSpec where
  /-- The directory of the checkout, by default the name of the entry. -/
  path? : Option String
  url? : Option String
  /-- The manifest of the package inside the checkout. -/
  manifest : String
  out : String
  /-- The commands that build the package, instead of those of the manifest. -/
  build : List String

inductive Entry where
  | item (typeName : String) (spec : ItemSpec)
  | child (spec : ChildSpec)
  | recipe (spec : RecipeSpec)
  | repo (spec : RepoSpec)

namespace Entry

def itemTypes : List String := ["bool", "tristate", "enum", "int", "hex", "string"]

def typeNames : List String := itemTypes ++ ["config", "recipe", "repo"]

def childOfFields? (fields : List (String × Json)) : Option Entry := do
  let path ← fieldOr? fields "path" "./config.json" Json.string?
  let depends ← fieldOr? fields "depend" ∅ Json.map?
  return .child { path, depends }

def recipeOfFields? (fields : List (String × Json)) : Option Entry := do
  let path ← fieldOr? fields "path" "./Makefile" Json.string?
  return .recipe { path }

def repoOfFields? (fields : List (String × Json)) : Option Entry := do
  let path? ← fieldOr? fields "path" none Json.nullableString?
  let url? ← fieldOr? fields "url" none Json.nullableString?
  let manifest ← fieldOr? fields "pkg" "package.json" Json.string?
  let out ← fieldOr? fields "out" "./dep/" Json.string?
  let build ← fieldOr? fields "buildcmd" [] Json.strings?
  return .repo { path?, url?, manifest, out, build }

/-- An entry of a known type from its other fields. -/
def ofFields? (typeName : String) (fields : List (String × Json)) : Option Entry :=
  match typeName with
  | "config" => childOfFields? fields
  | "recipe" => recipeOfFields? fields
  | "repo" => repoOfFields? fields
  | _ => (ItemSpec.ofFields? fields).map (item typeName)

/-- What is read from the value of an entry. Nothing comes of an unknown type. -/
def ofJson (value : Json) : Except EntryFault (Option Entry) :=
  match (value.field? "type").bind Json.string? with
  | none => .error .untyped
  | some typeName =>
    if typeName ∉ typeNames then .ok none
    else
      let fields := (value.fields?.getD []).filter (·.1 ≠ "type")
      match ofFields? typeName fields with
      | none => .error .malformed
      | some entry => .ok (some entry)

end Entry

abbrev Schema := List (String × Entry)

namespace Schema

/-- Read entries one after the other. -/
def ofFields (origin : Path) : List (String × Json) → Except Error Schema
  | [] => .ok []
  | (name, value) :: fields =>
    match Entry.ofJson value with
    | .error fault => .error (.schema origin name fault)
    | .ok none => ofFields origin fields
    | .ok (some entry) => do
      let entries ← ofFields origin fields
      return (name, entry) :: entries

/-- A name that is given twice keeps its first place and its last value. -/
def ofText (text : String) (origin : Path) : Except Error Schema :=
  match Json.fieldsOfText? text with
  | none => .error .json
  | some fields => ofFields origin (OrderedMap.ofList fields).entries

def load (files : FileSystem) (path : Path) : Except Error Schema := do
  ofText (← files.read path) path

end Schema

end MakeConfig
