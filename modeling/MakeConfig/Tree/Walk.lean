import MakeConfig.Item.Report
import MakeConfig.Tree.Basic

/-! # Walks

The nodes that have been read, each before what is below it and in the order of the schemas,
and what is gathered along such a walk: reports, generated entries, recipes and repos.
-/

namespace MakeConfig

/-- A repo with the directory of the schema that names it. -/
structure RepoSite where
  id : RepoId
  repo : Repo
  base : Path

namespace Tree

/-- The nodes read from a node on. The number of nodes bounds the depth. -/
def walkFrom (t : Tree) : Nat → NodeId → List NodeId
  | 0, _ => []
  | depth + 1, id =>
    match (t.node? id).bind Node.parsed? with
    | none => []
    | some parsed => id :: parsed.contents.children.flatMap (walkFrom t depth)

def walk (t : Tree) : List NodeId := t.walkFrom (t.arena.nodes.next + 1) root

def walkedNodes (t : Tree) : List Node := t.walk.filterMap t.node?

def itemsOf (t : Tree) (node : Node) : List Item := node.contents.items.filterMap t.item?

def items (t : Tree) : List Item := t.walkedNodes.flatMap t.itemsOf

/-- The first item of a name along the walk. -/
def findItem? (t : Tree) (name : String) : Option ItemId :=
  (t.walkedNodes.flatMap fun node => node.contents.items).find? fun id =>
    (t.item? id).any fun item => item.name == name

/-- The first child of a name. -/
def findChild? (t : Tree) (parent : NodeId) (name : String) : Option NodeId :=
  (t.node? parent).bind fun node => node.contents.children.find? fun id =>
    (t.node? id).any fun child => child.name == name

def reportNode (t : Tree) (node : Node) : String :=
  ">>> Config : " ++ node.name ++ "\n" ++ String.join ((t.itemsOf node).map Item.report) ++
    "<<< Config : " ++ node.name ++ "\n"

def report (t : Tree) (id : NodeId) : String := ((t.node? id).map t.reportNode).getD ""

def reportAll (t : Tree) : String := String.join (t.walkedNodes.map t.reportNode)

/-- Generated entries of items in turn. Each entry counts as a place. -/
def generatedFrom (build : Build) (ambient : Ambient) (place : Nat) :
    List Item → Except Error (List (String × String))
  | [] => .ok []
  | item :: items => do
    let first ← item.generated build ambient place
    let rest ← generatedFrom build ambient (place + first.length) items
    return first ++ rest

def generated (t : Tree) (build : Build) (ambient : Ambient) :
    Except Error (List (String × String)) :=
  generatedFrom build ambient 0 t.items

def recipes (t : Tree) : List Recipe :=
  t.walkedNodes.flatMap fun node => node.contents.recipes.filterMap t.recipe?

/-- The files to be included, all of which have to be there. -/
def recipePaths (t : Tree) (files : FileSystem) : Except Error (List Path) :=
  t.recipes.mapM fun recipe =>
    let path := recipe.path.pathIn t.vars
    if files.isFile path then .ok path else .error (.fileNotFound path)

def repoSites (t : Tree) : List RepoSite :=
  t.walkedNodes.flatMap fun node =>
    node.contents.repos.filterMap fun id =>
      (t.repo? id).map fun repo => { id, repo, base := node.baseDirectory?.getD ⟨""⟩ }

end Tree

end MakeConfig
