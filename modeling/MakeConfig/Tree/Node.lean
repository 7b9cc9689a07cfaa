import MakeConfig.Handle
import MakeConfig.Schema
import MakeConfig.Variables

/-! # Nodes, recipes and repos

A node stands for a schema file that is read when its turn comes. Until then it follows the
variables in its path. Recipes and repos hang on the node whose schema names them and look
their variables up when a path is asked for.
-/

namespace MakeConfig

/-- What the schema of a node gave, each kind in the order of the document. -/
structure Contents where
  items : List ItemId
  children : List NodeId
  recipes : List RecipeId
  repos : List RepoId
  deriving DecidableEq, Repr

def Contents.empty : Contents := ⟨[], [], [], []⟩

/-- A file that was read, with what it gave. -/
structure Parsed where
  file : Path
  contents : Contents
  deriving DecidableEq, Repr

structure Node where
  name : String
  path : Binding
  /-- The values of variables from the time when the node came up, kept up to date for those that
  the node watches. -/
  known : OrderedMap String
  depends : Requirements
  visible : Bool
  parsed? : Option Parsed

namespace Node

def construct {κ : Type} (name path : String) (origin : Path) (depends : Requirements)
    (s : Variables κ) : Node :=
  let known := s.copyInto ∅
  { name, known, depends
    path := Binding.bind path origin known
    visible := s.meetsAll depends
    parsed? := none }

def contents (node : Node) : Contents := (node.parsed?.map Parsed.contents).getD .empty

def file? (node : Node) : Option Path := node.parsed?.map Parsed.file

/-- The directory that everything in the schema is relative to. -/
def baseDirectory? (node : Node) : Option Path := node.file?.bind Path.parent?

/-- The variables that a node watches: those it depends on and those in its path. -/
def watched (node : Node) : List String :=
  node.depends.keys ++ node.path.names.filter (· ∉ node.depends.keys)

/-- Take note of a change in the path and in the known values. -/
def learn (node : Node) (name value : String) : Node :=
  if node.path.uses name then
    { node with path := node.path.learn name value, known := node.known.insert name value }
  else { node with known := node.known.modify name fun _ => value }

/-- Take note of a change of a watched variable. -/
def notice {κ : Type} (node : Node) (name value : String) (s : Variables κ) : Node :=
  let node := node.learn name value
  if node.depends.contains name then { node with visible := s.meetsAll node.depends } else node

end Node

/-- The path of a binding with the values in force, and the noted ones where there are none. -/
def Binding.pathIn {κ : Type} (b : Binding) (s : Variables κ) : Path :=
  b.pathWith fun name => s.get? name <|> b.value? name

/-- A makefile to be included. -/
structure Recipe where
  name : String
  path : Binding

namespace Recipe

def watched (r : Recipe) : List String := r.path.names

def notice (r : Recipe) (name value : String) : Recipe :=
  { r with path := r.path.learn name value }

end Recipe

/-- A package that is checked out and built. -/
structure Repo where
  name : String
  directory : Binding
  out : Binding
  url? : Option String
  manifest : String
  build : List String

namespace Repo

def ofSpec (name : String) (spec : RepoSpec) (base : Path) (values : OrderedMap String) : Repo where
  name := name
  directory := Binding.bind (spec.path?.getD name) base values
  out := Binding.bind spec.out base values
  url? := spec.url?
  manifest := spec.manifest
  build := spec.build

def watched (r : Repo) : List String :=
  r.directory.names ++ r.out.names.filter (· ∉ r.directory.names)

def notice (r : Repo) (name value : String) : Repo :=
  { r with directory := r.directory.learn name value, out := r.out.learn name value }

/-- The manifest is not brought to normal form. -/
def manifestPath {κ : Type} (r : Repo) (s : Variables κ) : Path :=
  (r.directory.pathIn s).joinText r.manifest

end Repo

end MakeConfig
