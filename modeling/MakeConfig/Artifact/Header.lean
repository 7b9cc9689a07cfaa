/-! # Headers

The header for C: one macro for each generated entry, inside a guard.
-/

namespace MakeConfig.Artifact

def headerGuard : String := "___AUTO_GEN_H"

def macroLine : String × String → String
  | (key, value) => "#define " ++ key ++ " " ++ value ++ "\n"

def header (generated : List (String × String)) : String :=
  "#ifndef " ++ headerGuard ++ "\n" ++
  "#define " ++ headerGuard ++ "\n" ++
  String.join (generated.map macroLine) ++
  "#endif\n"

end MakeConfig.Artifact
