import MakeConfig.OrderedMap

/-! # TOML values and tables

Values as settings hold them, and the rules by which a document builds its tables: a table
comes from a header, from the header of a table below it, or from a dotted key, and what it
comes from decides how it may grow.
-/

namespace MakeConfig

inductive Toml where
  | string (value : String)
  | bool (value : Bool)
  | integer (value : Int)
  /-- A number with a fraction or an exponent, as it is spelled. -/
  | float (spelling : String)
  | moment (spelling : String)
  | array (items : List Toml)
  | table (entries : List (String × Toml))
  deriving Inhabited

namespace Toml

/-- How a table came up. -/
inductive Origin where
  | header
  /-- Through the header of a table below it. -/
  | implied
  | dotted
  deriving DecidableEq, Repr

/-- A part of a document that is not complete. -/
inductive Part where
  | value (value : Toml)
  | table (origin : Origin) (entries : List (String × Part))
  | tables (items : List (List (String × Part)))

abbrev Entries := List (String × Part)

def replace (key : String) (part : Part) : Entries → Entries
  | [] => []
  | (k, p) :: es => if k = key then (k, part) :: es else (k, p) :: replace key part es

/-- A change of a table, refused if it breaks a rule. -/
abbrev Growth := Origin → Entries → Option (Origin × Entries)

/-- Change the table that a path of keys leads to. In an array of tables the path leads to the last
one. Tables that are missing come up, and dotted keys do not lead into tables with a header. -/
def inside (dotted : Bool) (grow : Growth) : List String → Growth
  | [], origin, entries => grow origin entries
  | key :: keys, origin, entries =>
    match entries.lookup key with
    | none => do
      let (o, es) ← inside dotted grow keys (if dotted then .dotted else .implied) []
      return (origin, entries ++ [(key, .table o es)])
    | some (.table o es) =>
      if dotted ∧ o = .header then none
      else do
        let (o, es) ← inside dotted grow keys o es
        return (origin, replace key (.table o es) entries)
    | some (.tables items) => do
      let (_, es) ← inside dotted grow keys .header (items.getLast?.getD [])
      return (origin, replace key (.tables (items.dropLast ++ [es])) entries)
    | some (.value _) => none

/-- Add a value under a new key. A table that a dotted key leads to must come from such keys, and
the others must not. -/
def addValue (dotted : Bool) (key : String) (value : Toml) : Growth := fun origin entries =>
  if dotted = (origin = .dotted) ∧ (entries.lookup key).isNone then
    some (origin, entries ++ [(key, .value value)])
  else none

/-- Give a table its header. It may have come up through headers below it. -/
def addTable (key : String) : Growth := fun origin entries =>
  match entries.lookup key with
  | none => some (origin, entries ++ [(key, .table .header [])])
  | some (.table .implied es) => some (origin, replace key (.table .header es) entries)
  | _ => none

/-- Begin another table of an array of tables. -/
def addToTables (key : String) : Growth := fun origin entries =>
  match entries.lookup key with
  | none => some (origin, entries ++ [(key, .tables [[]])])
  | some (.tables items) => some (origin, replace key (.tables (items ++ [[]])) entries)
  | _ => none

/-- Add a value under a key of several parts. -/
def addDotted (path : List String) (value : Toml) : Growth := fun origin entries =>
  match path.getLast? with
  | none => none
  | some key => inside true (addValue (path.length > 1) key value) path.dropLast origin entries

mutual

def Part.toToml : Part → Toml
  | .value v => v
  | .table _ entries => .table (entriesToToml entries)
  | .tables items => .array (tablesToToml items)

def entriesToToml : Entries → List (String × Toml)
  | [] => []
  | (key, part) :: es => (key, part.toToml) :: entriesToToml es

def tablesToToml : List Entries → List Toml
  | [] => []
  | es :: items => .table (entriesToToml es) :: tablesToToml items

end

def string? : Toml → Option String
  | .string s => some s
  | _ => none

def bool? : Toml → Option Bool
  | .bool b => some b
  | _ => none

end Toml

end MakeConfig
