import MakeConfig.Error
import MakeConfig.FileSystem

/-! # Reading files

The text of a file that has to be there. A file of anything but text is a fault of its own.
-/

namespace MakeConfig.FileSystem

def read (files : FileSystem) (path : Path) : Except Error String :=
  if files.isFile path then
    match files.text? path with
    | none => .error .io
    | some text => .ok text
  else .error (.fileNotFound path)

end MakeConfig.FileSystem
