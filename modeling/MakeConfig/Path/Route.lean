import MakeConfig.Path.Basic

/-! # Routes

A route is a path without redundant components: a root or some steps up, then names.
Following the components of a path one after the other gives its route, and the text
of the route is the normal form of the path.
-/

namespace MakeConfig

structure Route where
  absolute : Bool
  /-- The steps up at the start of a relative route. -/
  ascents : Nat
  names : List String
  deriving DecidableEq, Repr

namespace Route

def start : Route := ⟨false, 0, []⟩

/-- A step up leaves the last name. At the root it stays there. -/
def step (r : Route) : Path.Component → Route
  | .root => ⟨true, 0, []⟩
  | .here => r
  | .up =>
    if r.names ≠ [] then { r with names := r.names.dropLast }
    else if r.absolute then r
    else { r with ascents := r.ascents + 1 }
  | .name n => { r with names := r.names ++ [n] }

def follow (r : Route) (components : List Path.Component) : Route := components.foldl step r

def ofPath (p : Path) : Route := start.follow p.components

def text (r : Route) : String :=
  if r.absolute then "/" ++ "/".intercalate r.names
  else if r.ascents = 0 ∧ r.names = [] then "."
  else "/".intercalate (List.replicate r.ascents ".." ++ r.names)

def toPath (r : Route) : Path := ⟨r.text⟩

end Route

namespace Path

def normal (p : Path) : Path := (Route.ofPath p).toPath

def joinNormal (base : Path) (text : String) : Path := (base.joinText text).normal

end Path

end MakeConfig
