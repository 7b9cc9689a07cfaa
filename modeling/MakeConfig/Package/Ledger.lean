import MakeConfig.Package.Manifest
import MakeConfig.Path.Route

/-! # Ledgers

What a built package contributes to the makefiles: its libraries, include directories and
checkout, and the directory of its libraries unless that was listed before in the same run.
-/

namespace MakeConfig

inductive LibraryKind where
  | static
  | dynamic
  deriving DecidableEq, Repr

/-- The kind of a library by its name. Files of other names are not linked. -/
def LibraryKind.of? (output : String) : Option LibraryKind :=
  if Text.occursIn ".a".toList output.toList then some .static
  else if Text.occursIn ".so".toList output.toList then some .dynamic
  else none

/-- The library directories listed so far, as they were first given. -/
structure Ledger where
  directories : List Path

namespace Ledger

def empty : Ledger := ⟨[]⟩

def lists (l : Ledger) (directory : Path) : Bool := l.directories.any directory.same

def libraryLine? (output : String) : Option String :=
  match LibraryKind.of? output with
  | some .static => some ("SLIB-y+=" ++ output ++ "\n")
  | some .dynamic => some ("DLIB-y+=" ++ output ++ "\n")
  | none => none

/-- The lines of a package that do not depend on what came before it. -/
def packageLines (checkout : Path) (m : Manifest) : List String :=
  m.outputs.filterMap libraryLine? ++
    m.includes.map (fun directory => "INC-y+=" ++ (checkout.joinNormal directory).text ++ "\n") ++
    ["REPO-y+=" ++ checkout.text ++ "\n"]

def directoryLine (out : Path) : String := "LDIR-y+=" ++ out.text ++ "\n"

/-- The text of a package, and the ledger after it. -/
def record (l : Ledger) (checkout out : Path) (m : Manifest) : String × Ledger :=
  let lines := packageLines checkout m
  if l.lists out then (String.join lines, l)
  else (String.join (lines ++ [directoryLine out]), ⟨l.directories ++ [out]⟩)

end Ledger

end MakeConfig
