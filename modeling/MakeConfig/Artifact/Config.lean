import MakeConfig.Artifact.Saved
import MakeConfig.Tree.Walk

/-! # Configuration files

The file for make: a line for each variable, a line for each recipe, and the generated
entries as definitions. A recipe without its file ends the text after the variables.
-/

namespace MakeConfig.Artifact

def variableLine : String × String → String
  | (name, value) => Saved.mark ++ name ++ "=" ++ value ++ "\n"

def includeLine (path : Path) : String := "include " ++ path.text ++ "\n"

def definitionsLine (generated : List (String × String)) : String :=
  "DEF+=" ++ String.join (generated.map fun (key, value) => " " ++ key ++ "=" ++ value) ++ "\n"

/-- The text of a configuration file as far as it goes. -/
def config (files : FileSystem) (tree : Tree) (generated : List (String × String)) :
    String × Except Error Unit :=
  let lines := String.join (tree.vars.values.entries.map variableLine)
  match tree.recipePaths files with
  | .error e => (lines, .error e)
  | .ok paths =>
    (lines ++ String.join (paths.map includeLine) ++ "\n" ++ definitionsLine generated,
      .ok ())

/-- The text of a configuration file, if all recipes have their files. -/
def wholeConfig (files : FileSystem) (tree : Tree) (generated : List (String × String)) :
    Except Error String :=
  let (text, result) := config files tree generated
  result.map fun _ => text

end MakeConfig.Artifact
