/-! # Handles

The items, nodes, recipes and repos of a configuration tree are known by their number of
arrival, which is never given out twice.
-/

namespace MakeConfig

structure ItemId where
  index : Nat
  deriving DecidableEq, Repr

structure NodeId where
  index : Nat
  deriving DecidableEq, Repr

structure RecipeId where
  index : Nat
  deriving DecidableEq, Repr

structure RepoId where
  index : Nat
  deriving DecidableEq, Repr

/-- Whatever can watch a variable. -/
inductive Handle where
  | item (id : ItemId)
  | node (id : NodeId)
  | recipe (id : RecipeId)
  | repo (id : RepoId)
  deriving DecidableEq, Repr

namespace Handle

def noun : Handle → String
  | item _ => "item"
  | node _ => "node"
  | recipe _ => "recipe"
  | repo _ => "repo"

def index : Handle → Nat
  | item id => id.index
  | node id => id.index
  | recipe id => id.index
  | repo id => id.index

def text (h : Handle) : String := h.noun ++ "#" ++ toString h.index

end Handle

end MakeConfig
