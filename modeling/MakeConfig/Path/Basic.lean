import MakeConfig.Text.Blank

/-! # Paths

A path is a text, shown as it was given. Its components leave out repeated slashes,
trailing slashes and inner dots; two paths with the same components are the same path.
-/

namespace MakeConfig

structure Path where
  text : String
  deriving DecidableEq, Repr, Inhabited

namespace Path

inductive Component where
  | root
  | here
  | up
  | name (text : String)
  deriving DecidableEq, Repr

def isAbsolute (p : Path) : Bool := p.text.toList.head? == some '/'

/-- The texts between the slashes. -/
def pieces (p : Path) : List (List Char) := Text.split '/' p.text.toList

/-- The component that a piece after the first one stands for. -/
def component? : List Char → Option Component
  | [] => none
  | ['.'] => none
  | ['.', '.'] => some .up
  | cs => some (.name (String.ofList cs))

/-- A dot counts only at the start of a relative path. -/
def components (p : Path) : List Component :=
  match p.pieces with
  | [] => []
  | first :: rest =>
    let body := rest.filterMap component?
    if p.isAbsolute then .root :: body
    else if first = ['.'] then .here :: body
    else (component? first).toList ++ body

/-- The same path, however it is spelled. -/
def same (p q : Path) : Bool := p.components == q.components

/-- A path taken relative to a base. An absolute path replaces the base. -/
def join (base : Path) (p : Path) : Path :=
  if p.isAbsolute then p
  else
    let b := base.text.toList
    if b.isEmpty ∨ b.getLast? = some '/' then ⟨base.text ++ p.text⟩
    else ⟨base.text ++ "/" ++ p.text⟩

def joinText (base : Path) (text : String) : Path := base.join ⟨text⟩

/-- Drop the pieces at the end that stand for no component, given in reverse. The first piece of a
path stays: it is the root, or a dot that counts. -/
def trimPieces : List (List Char) → List (List Char)
  | [] => []
  | [first] => [first]
  | piece :: rest => if (component? piece).isNone then trimPieces rest else piece :: rest

/-- The path without its last component. -/
def parent? (p : Path) : Option Path :=
  match p.components.getLast? with
  | none => none
  | some .root => none
  | some _ =>
    match trimPieces p.pieces.reverse with
    | [] => none
    | _ :: rest =>
      match trimPieces rest with
      | [[]] => some ⟨"/"⟩
      | kept => some ⟨String.ofList (List.intercalate ['/'] kept.reverse)⟩

/-- The last component, if it is a name. -/
def fileName? (p : Path) : Option String :=
  match p.components.getLast? with
  | some (.name n) => some n
  | _ => none

/-- A path that ends in a slash or a dot can only name a directory. -/
def namesDirectory (p : Path) : Bool :=
  match p.pieces.getLast? with
  | some [] | some ['.'] | some ['.', '.'] => true
  | _ => false

end Path

end MakeConfig
