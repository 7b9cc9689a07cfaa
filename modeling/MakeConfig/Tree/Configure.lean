import MakeConfig.Dialog
import MakeConfig.Tree.Parse

/-! # Configuring a tree

The walk that reads visible nodes and asks for their visible items, all items of a node
before its children. Nothing bounds the walk from within: a schema may be its own child, and
a dialog may give refused answers for ever. So a run has a number of steps, and without an
answer it has only run out of them.
-/

namespace MakeConfig

universe u

/-- A change of state that succeeds or fails, unless it runs out of steps. -/
def Step (S : Type u) : Type u := S → Option (Except Error Unit × S)

namespace Step

variable {S : Type u}

def done (r : Except Error Unit) : Step S := fun s => some (r, s)

/-- Go on only after success. -/
def andThen (first second : Step S) : Step S := fun s =>
  match first s with
  | some (.ok (), s) => second s
  | other => other

/-- The steps for the elements of a list, up to the first that fails. -/
def each {α : Type} (f : α → Step S) : List α → Step S
  | [] => done (.ok ())
  | x :: xs => (f x).andThen (each f xs)

end Step

/-- A tree and the state of the dialog that it is configured with. -/
structure Session (σ : Type u) where
  tree : Tree
  dialog : σ

namespace Session

variable {σ : Type u}

/-- A step on the tree alone. -/
def onTree (f : Tree → Except Error Unit × Tree) : Step (Session σ) := fun s =>
  let (result, tree) := f s.tree
  some (result, { s with tree })

/-- Ask for a value until one is accepted. Without an answer the item keeps what it has. -/
def ask (d : Dialog σ) (id : ItemId) : Nat → Option Rejection → Step (Session σ)
  | 0, _ => fun _ => none
  | steps + 1, last => fun s =>
    match s.tree.item? id with
    | none => some (.error (.stale (.item id)), s)
    | some item =>
      match d.ask item last s.dialog with
      | (.error e, dialog) => some (.error e, { s with dialog })
      | (.ok answer?, dialog) =>
        match answer? <|> item.unanswered? with
        | none => some (.ok (), { s with dialog })
        | some raw =>
          match s.tree.assign id raw with
          | (.error (.rejected r), tree) =>
            if d.retries dialog then ask d id steps (some r) ⟨tree, dialog⟩
            else some (.error (.rejected r), ⟨tree, dialog⟩)
          | (result, tree) => some (result, ⟨tree, dialog⟩)

/-- What happens to an item when the walk comes to it. -/
def visit (d : Dialog σ) (steps : Nat) (id : ItemId) : Step (Session σ) := fun s =>
  match s.tree.item? id with
  | none => some (.error (.stale (.item id)), s)
  | some item =>
    if !item.visible then some (.ok (), s)
    else if item.forced then onTree (fun t => t.adoptDefault id) s
    else ask d id steps none s

/-- All items of a node, then its children. -/
def descend (items : ItemId → Step (Session σ)) (children : NodeId → Step (Session σ))
    (id : NodeId) : Step (Session σ) := fun s =>
  match s.tree.node? id with
  | none => some (.error (.stale (.node id)), s)
  | some node =>
    (Step.each items node.contents.items).andThen (Step.each children node.contents.children) s

/-- Configure a node and all that is below it. -/
def configure (around : Surroundings) (d : Dialog σ) : Nat → NodeId → Step (Session σ)
  | 0, _ => fun _ => none
  | steps + 1, id => fun s =>
    match s.tree.node? id with
    | none => some (.error (.stale (.node id)), s)
    | some node =>
      if !node.visible then some (.ok (), s)
      else
        (onTree fun t => t.parse around id).andThen
          (descend (visit d steps) (configure around d steps) id) s

end Session

end MakeConfig
