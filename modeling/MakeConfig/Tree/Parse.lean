import MakeConfig.Environment
import MakeConfig.Tree.Basic

/-! # Reading a node

Reading a node replaces what was read there before. Its items, children, recipes and repos
arrive in the order of the schema; if one of them is refused, all that came before it leaves
again. Values from the environment are published after the whole schema has been taken in.
-/

namespace MakeConfig

/-- What a run finds around it. -/
structure Surroundings where
  files : FileSystem
  environment : Environment

/-- The arrivals of a schema that is being taken in. -/
structure Intake where
  tree : Tree
  contents : Contents
  /-- The values of items that are found in the environment. -/
  imported : List (ItemId × String)

namespace Intake

/-- The value that the environment has for an item, if the item asks for it. -/
def importedValue? (environment : Environment) (item : Item) :
    Except Rejection (Option String) :=
  if item.imports then
    match environment.get? item.name with
    | none => .ok none
    | some raw => some <$> item.validate raw
  else .ok none

def takeItem (environment : Environment) (i : Intake) (name typeName : String)
    (spec : ItemSpec) : Except Error Intake :=
  match Item.ofSpec environment.build name typeName spec with
  | .error e => .error e
  | .ok item =>
    let item := item.refresh i.tree.vars
    match importedValue? environment item with
    | .error r => .error (.rejected r)
    | .ok value? =>
      let (id, tree) := i.tree.addItem item
      .ok {
        tree
        contents := { i.contents with items := i.contents.items ++ [id] }
        imported := i.imported ++ (value?.map fun value => (id, value)).toList }

/-- Take in one entry of a schema. -/
def take (environment : Environment) (base : Path) (known : OrderedMap String) (i : Intake) :
    String × Entry → Except Error Intake
  | (name, .item typeName spec) => i.takeItem environment name typeName spec
  | (name, .child spec) =>
    let (id, tree) :=
      i.tree.addNode (Node.construct name spec.path base spec.depends i.tree.vars)
    .ok { i with
      tree, contents := { i.contents with children := i.contents.children ++ [id] } }
  | (name, .recipe spec) =>
    let (id, tree) := i.tree.addRecipe ⟨name, Binding.bind spec.path base known⟩
    .ok { i with tree, contents := { i.contents with recipes := i.contents.recipes ++ [id] } }
  | (name, .repo spec) =>
    let (id, tree) := i.tree.addRepo (Repo.ofSpec name spec base known)
    .ok { i with tree, contents := { i.contents with repos := i.contents.repos ++ [id] } }

/-- Take in entries up to the first that is refused. -/
def takeAll (environment : Environment) (base : Path) (known : OrderedMap String) (i : Intake) :
    Schema → Except Error Unit × Intake
  | [] => (.ok (), i)
  | entry :: entries =>
    match i.take environment base known entry with
    | .error e => (.error e, i)
    | .ok i => takeAll environment base known i entries

end Intake

namespace Tree

/-- Take in the schema of a node that was found in a file. -/
def populate (t : Tree) (environment : Environment) (id : NodeId) (node : Node) (file : Path)
    (schema : Schema) : Except Error Unit × Tree :=
  let start : Intake := { tree := t.unread id, contents := .empty, imported := [] }
  let base := file.parent?.getD ⟨""⟩
  match start.takeAll environment base node.known schema with
  | (.error e, i) => (.error e, i.tree.release i.contents)
  | (.ok (), i) => (i.tree.setParsed id (some ⟨file, i.contents⟩)).assignAll i.imported

/-- Read the schema of a node. -/
def parse (around : Surroundings) (t : Tree) (id : NodeId) : Except Error Unit × Tree :=
  match t.node? id with
  | none => (.error (.stale (.node id)), t)
  | some node =>
    let file := node.path.path
    match Schema.load around.files file with
    | .error e => (.error e, t)
    | .ok schema => t.populate around.environment id node file schema

end Tree

end MakeConfig
