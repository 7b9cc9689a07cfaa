import MakeConfig.Numeral.Binary64

/-! # JSON values

A value as schemas and manifests hold it. The fields of an object stand in ascending order
of their names, each name once.
-/

namespace MakeConfig

/-- An integer between -2^63 and 2^64, or any other number as a binary one. -/
inductive Number where
  | integer (value : Int)
  | fraction (value : Numeral.Binary64)
  deriving DecidableEq, Repr

inductive Json where
  | null
  | bool (value : Bool)
  | number (value : Number)
  | string (value : String)
  | array (items : List Json)
  | object (fields : List (String × Json))
  deriving Inhabited, Repr

namespace Json

/-- Put a field where its name belongs, in place of an earlier field of that name. -/
def insertField (name : String) (value : Json) : List (String × Json) → List (String × Json)
  | [] => [(name, value)]
  | f :: fs =>
    if name < f.1 then (name, value) :: f :: fs
    else if f.1 = name then (name, value) :: fs
    else f :: insertField name value fs

/-- An object of fields in any order. The last of several fields of one name counts. -/
def ofFields (fields : List (String × Json)) : Json :=
  .object (fields.foldl (fun fs f => insertField f.1 f.2 fs) [])

def string? : Json → Option String
  | .string s => some s
  | _ => none

def array? : Json → Option (List Json)
  | .array items => some items
  | _ => none

def fields? : Json → Option (List (String × Json))
  | .object fields => some fields
  | _ => none

def field? (value : Json) (name : String) : Option Json :=
  value.fields?.bind (·.lookup name)

/-- The elements of an array of strings. -/
def strings? (value : Json) : Option (List String) :=
  value.array?.bind (·.mapM string?)

/-- A string or null. -/
def nullableString? : Json → Option (Option String)
  | .null => some none
  | value => value.string?.map some

end Json

end MakeConfig
