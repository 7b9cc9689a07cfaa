import MakeConfig.FileSystem.Read
import MakeConfig.OrderedMap

/-! # Saved configurations

The values that stand in the lines of a configuration file that was written before. Comments
and lines of any other form are passed over, and the last value of a name counts.
-/

namespace MakeConfig.Saved

/-- What the name of a variable follows in a configuration file. -/
def mark : String := "CONFIG_"

/-- The name and the value in a line. The name is taken without blanks around it, and blanks at the
ends of the line do not count. -/
def entry? (line : List Char) : Option (String × String) := do
  let line := Text.trim line
  if line.head? = some '#' then none
  let rest ← if mark.toList.isPrefixOf line then some (line.drop mark.length) else none
  let (name, value) ← Text.splitOnce? '=' rest
  return (String.ofList (Text.trim name), String.ofList value)

def ofText (text : String) : OrderedMap String :=
  OrderedMap.ofList ((Text.lines text.toList).filterMap entry?)

def load (files : FileSystem) (path : Path) : Except Error (OrderedMap String) :=
  (files.read path).map ofText

end MakeConfig.Saved
