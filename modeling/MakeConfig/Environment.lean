import MakeConfig.Numeral.Integer

/-! # Environments

What a program finds when it starts: the way it was built, and lines of a name, an equals sign
and a value. The first line that starts with a name and the sign gives the value of that name.
-/

namespace MakeConfig

structure Environment where
  settings : List (String × String)
  build : Build

namespace Environment

def lines (e : Environment) : List (List Char) :=
  e.settings.map fun (name, value) => name.toList ++ '=' :: value.toList

def get? (e : Environment) (name : String) : Option String :=
  let start := name.toList ++ ['=']
  if name = "" then none
  else (e.lines.find? start.isPrefixOf).map fun line => String.ofList (line.drop start.length)

end Environment

end MakeConfig
