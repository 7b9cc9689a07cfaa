import MakeConfig.Json.Document
import MakeConfig.Tree.Node

/-! # Package manifests

What a package says of itself: its name, its include directories, the files it builds and the
commands that build them. Nothing is asked of fields that have no meaning, but a field with a
meaning may stand only once. An array gives the fields by position.
-/

namespace MakeConfig

structure Manifest where
  name : String
  includes : List String
  outputs : List String
  build : List String
  version? : Option String
  deriving DecidableEq, Repr

namespace Document

def string? : Document → Option String
  | .string s => s
  | _ => none

def strings? : Document → Option (List String)
  | .array items => items.mapM string?
  | _ => none

def nullableString? : Document → Option (Option String)
  | .null => some none
  | d => d.string?.map some

end Document

namespace Manifest

def fieldNames : List String := ["name", "include", "output", "buildcmd", "version"]

/-- A manifest from its fields, of which only the name has to be there. -/
def ofFields? (field? : String → Option Document) : Option Manifest := do
  let name ← (← field? "name").string?
  let strings? (name : String) := ((field? name).map Document.strings?).getD (some [])
  let includes ← strings? "include"
  let outputs ← strings? "output"
  let build ← strings? "buildcmd"
  let version? ← ((field? "version").map Document.nullableString?).getD (some none)
  return { name, includes, outputs, build, version? }

def ofDocument? : Document → Option Manifest
  | .object fields => do
    let fields ← fields.mapM fun (name, value) => name.map fun name => (name, value)
    let names := fields.map Prod.fst
    if fieldNames.all fun name => names.count name ≤ 1 then ofFields? fun name => fields.lookup name
    else none
  | .array items =>
    if items.length ≤ fieldNames.length then
      ofFields? fun name => (fieldNames.zip items).lookup name
    else none
  | _ => none

def ofText? (text : String) : Option Manifest := (Document.ofText? text).bind ofDocument?

def load (files : FileSystem) (path : Path) : Except Error Manifest := do
  let text ← files.read path
  match ofText? text with
  | none => throw .json
  | some manifest => return manifest

end Manifest

namespace Repo

/-- The manifest in the checkout, which has to name the package that the repo names. -/
def loadManifest {κ : Type} (files : FileSystem) (s : Variables κ) (r : Repo) :
    Except Error Manifest := do
  let manifest ← Manifest.load files (r.manifestPath s)
  if manifest.name = r.name then return manifest
  else throw (.wrongPackage r.name manifest.name)

/-- The commands of a repo come before those of its manifest. -/
def commands (r : Repo) (m : Manifest) : List String := if r.build.isEmpty then m.build else r.build

end Repo

end MakeConfig
