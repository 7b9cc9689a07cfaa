import MakeConfig.Slots
import MakeConfig.Tree.Node

/-! # Configuration trees

A tree holds the variables and everything that schemas gave so far. A change of a variable
goes to those that watch it, one level deep: nothing that takes note of a change causes
another one.
-/

namespace MakeConfig

/-- Everything that schemas gave, by handle. -/
structure Arena where
  items : Slots Item
  nodes : Slots Node
  recipes : Slots Recipe
  repos : Slots Repo

namespace Arena

def empty : Arena := ⟨∅, ∅, ∅, ∅⟩

/-- Deliver the change of a variable to one that watches it. -/
def deliver (name value : String) (s : Variables Handle) (a : Arena) : Handle → Arena
  | .item id => { a with items := a.items.modify id.index fun item => item.notice name value s }
  | .node id => { a with nodes := a.nodes.modify id.index fun node => node.notice name value s }
  | .recipe id => { a with recipes := a.recipes.modify id.index fun r => r.notice name value }
  | .repo id => { a with repos := a.repos.modify id.index fun r => r.notice name value }

def clear (a : Arena) : Handle → Arena
  | .item id => { a with items := a.items.clear id.index }
  | .node id => { a with nodes := a.nodes.clear id.index }
  | .recipe id => { a with recipes := a.recipes.clear id.index }
  | .repo id => { a with repos := a.repos.clear id.index }

end Arena

structure Tree where
  vars : Variables Handle
  arena : Arena
  /-- The schema at the root, relative to the origin. -/
  rootPath : String
  origin : Path

namespace Tree

/-! ## Lookup -/

def item? (t : Tree) (id : ItemId) : Option Item := t.arena.items.get? id.index

def node? (t : Tree) (id : NodeId) : Option Node := t.arena.nodes.get? id.index

def recipe? (t : Tree) (id : RecipeId) : Option Recipe := t.arena.recipes.get? id.index

def repo? (t : Tree) (id : RepoId) : Option Repo := t.arena.repos.get? id.index

/-- The root is the first node of all. -/
def root : NodeId := ⟨0⟩

/-! ## Variables -/

/-- Give a variable a value and deliver the change. -/
def publish (t : Tree) (name value : String) : Tree :=
  let (vars, arena) := t.vars.set name value (Arena.deliver name value) t.arena
  { t with vars, arena }

/-! ## Arrivals -/

def addItem (t : Tree) (item : Item) : ItemId × Tree :=
  let id : ItemId := ⟨t.arena.items.next⟩
  (id, { t with
    vars := t.vars.watchAll (.item id) item.depends.keys
    arena := { t.arena with items := t.arena.items.push item } })

def addNode (t : Tree) (node : Node) : NodeId × Tree :=
  let id : NodeId := ⟨t.arena.nodes.next⟩
  (id, { t with
    vars := t.vars.watchAll (.node id) node.watched
    arena := { t.arena with nodes := t.arena.nodes.push node } })

def addRecipe (t : Tree) (recipe : Recipe) : RecipeId × Tree :=
  let id : RecipeId := ⟨t.arena.recipes.next⟩
  (id, { t with
    vars := t.vars.watchAll (.recipe id) recipe.watched
    arena := { t.arena with recipes := t.arena.recipes.push recipe } })

def addRepo (t : Tree) (repo : Repo) : RepoId × Tree :=
  let id : RepoId := ⟨t.arena.repos.next⟩
  (id, { t with
    vars := t.vars.watchAll (.repo id) repo.watched
    arena := { t.arena with repos := t.arena.repos.push repo } })

/-- A tree with nothing but its root, which is not read yet. -/
def plant (rootPath : String) (origin : Path) : Tree :=
  let bare : Tree := { vars := .empty, arena := .empty, rootPath, origin }
  (bare.addNode (Node.construct "root" rootPath origin ∅ bare.vars)).2

/-- Start again with the same root. -/
def reset (t : Tree) : Tree := plant t.rootPath t.origin

/-! ## Departures -/

/-- Drop what a handle stands for, with its place among the watchers. -/
def drop (t : Tree) (h : Handle) : Tree :=
  { t with vars := t.vars.forget h, arena := t.arena.clear h }

/-- The handles of contents and of all that is below them. The number of nodes bounds the depth. -/
def handlesOf (t : Tree) : Nat → Contents → List Handle
  | 0, _ => []
  | depth + 1, c =>
    c.items.map .item ++ c.recipes.map .recipe ++ c.repos.map .repo ++
      c.children.flatMap fun id =>
        .node id :: match t.node? id with
          | none => []
          | some node => handlesOf t depth node.contents

/-- Drop contents and all that is below them. -/
def release (t : Tree) (c : Contents) : Tree :=
  (t.handlesOf (t.arena.nodes.next + 1) c).foldl drop t

def setParsed (t : Tree) (id : NodeId) (parsed? : Option Parsed) : Tree :=
  { t with arena := { t.arena with
    nodes := t.arena.nodes.modify id.index fun node => { node with parsed? } } }

/-- Forget what was read at a node. -/
def unread (t : Tree) (id : NodeId) : Tree :=
  match t.node? id with
  | none => t
  | some node => (t.setParsed id none).release node.contents

/-! ## Values of items -/

def setItem (t : Tree) (id : ItemId) (item : Item) : Tree :=
  { t with arena := { t.arena with items := t.arena.items.modify id.index fun _ => item } }

/-- Give an item a value and publish it. A value that the item refuses changes nothing. -/
def assign (t : Tree) (id : ItemId) (raw : String) : Except Error Unit × Tree :=
  match t.item? id with
  | none => (.error (.stale (.item id)), t)
  | some item =>
    match item.assign raw with
    | .error r => (.error (.rejected r), t)
    | .ok (item, value) => (.ok (), (t.setItem id item).publish item.name value)

/-- Give an item its default as if the user had given it. -/
def adoptDefault (t : Tree) (id : ItemId) : Except Error Unit × Tree :=
  match t.item? id with
  | none => (.error (.stale (.item id)), t)
  | some item =>
    match item.default? with
    | none => (.error (.flawed item.name .nothingToAdopt), t)
    | some raw => t.assign id raw

/-- Give items values one after the other, up to the first that is refused. -/
def assignAll (t : Tree) : List (ItemId × String) → Except Error Unit × Tree
  | [] => (.ok (), t)
  | (id, raw) :: more =>
    match t.assign id raw with
    | (.ok (), t) => assignAll t more
    | failed => failed

end Tree

end MakeConfig
