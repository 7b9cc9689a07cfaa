import MakeConfig.Item.Value
import MakeConfig.Json.Text

/-! # What users see of an item

The report on an item, the line that asks for its value, and the meaning of the line that is
typed in answer.
-/

namespace MakeConfig

open Numeral

namespace Item

def requirementText (required : Requirements) : String :=
  "\x7b" ++ ", ".intercalate (required.entries.map fun (name, value) => name ++ "=" ++ value.text)
    ++ "\x7d"

def report (item : Item) : String :=
  "name : " ++ item.name ++ " \n" ++
  "default value : " ++ item.default?.getD "" ++ "\n" ++
  "user value : " ++ item.user?.getD "None" ++ "\n" ++
  "depends on : " ++ requirementText item.depends ++ "\n" ++
  "is_visible : " ++ (if item.visible then "true" else "false") ++ "\n"

/-- A choice shows the indices of its options after the prompt. -/
def promptLine (item : Item) : String :=
  match item.kind with
  | .choice options => item.prompt ++ " (0 ~ " ++ natText (Kind.lastIndex options) ++ ")"
  | _ => item.prompt

/-- The lines that announce an item to be asked for. -/
def announcement (item : Item) : String :=
  "\n\x1b[1mCONFIG_" ++ item.name ++ "\x1b[0m\n" ++
    String.join (item.kind.options.zipIdx.map fun (option, i) => natText i ++ " " ++ option ++ "\n")

/-- What a typed line asks for. -/
inductive Reply where
  | help
  | takeDefault
  | noDefault
  | value (raw : String)
  deriving DecidableEq, Repr

/-- A blank line asks for the default. A value is taken with its blanks. -/
def interpret (item : Item) (line : String) : Reply :=
  match Text.trim line.toList with
  | ['h'] => .help
  | [] => if isBlankDefault item.default? then .noDefault else .takeDefault
  | _ => .value line

end Item

end MakeConfig
