import MakeConfig.Field
import MakeConfig.FileSystem
import MakeConfig.Package.Build
import MakeConfig.Toml.Document

/-! # Settings

Where the outputs of a run go and what is done about repos. Everything has a usual value.
Paths in a settings file are relative to the directory of that file.
-/

namespace MakeConfig

structure Settings where
  config : Path
  header : Path
  /-- The name of the ledgers beside the schemas. -/
  ledger : String
  reposEnabled : Bool
  cleanLedgers : Bool
  deriving DecidableEq, Repr

/-- Why there are no settings. -/
inductive SettingsFault where
  | unreadable
  | malformed
  deriving DecidableEq, Repr

namespace Settings

def usual : Settings where
  config := ⟨".config"⟩
  header := ⟨"autogen.h"⟩
  ledger := "autorecipe.mk"
  reposEnabled := true
  cleanLedgers := true

def fileName : String := "jconfig.toml"

/-- The fields of a section. An array gives them by position, and a date or a time gives none. -/
def fieldsOf? (names : List String) : Option Toml → Option (List (String × Toml))
  | none | some (.moment _) => some []
  | some (.table entries) => some entries
  | some (.array items) => some (names.zip items)
  | some _ => none

def ofToml? (value : Toml) : Option Settings := do
  let sections ← fieldsOf? ["output", "repos"] (some value)
  let output ← fieldsOf? ["config", "header", "ledger"] (sections.lookup "output")
  let repos ← fieldsOf? ["enabled", "clean_ledger"] (sections.lookup "repos")
  let path? (value : Toml) : Option Path := value.string?.map Path.mk
  return {
    config := ← fieldOr? output "config" usual.config path?
    header := ← fieldOr? output "header" usual.header path?
    ledger := ← fieldOr? output "ledger" usual.ledger Toml.string?
    reposEnabled := ← fieldOr? repos "enabled" usual.reposEnabled Toml.bool?
    cleanLedgers := ← fieldOr? repos "clean_ledger" usual.cleanLedgers Toml.bool? }

def ofText? (text : String) : Option Settings := (Toml.ofText? text).bind ofToml?

/-- Take the paths of the outputs relative to a directory. -/
def relativeTo (base : Path) (s : Settings) : Settings :=
  { s with config := base.join s.config, header := base.join s.header }

def load (files : FileSystem) (path : Path) : Except SettingsFault Settings :=
  match files.text? path with
  | none => .error .unreadable
  | some text =>
    match ofText? text with
    | none => .error .malformed
    | some s => .ok ((path.parent?.map fun base => s.relativeTo base).getD s)

/-- The settings of a given file, or of the usual file in a directory if it is there. -/
def discover (files : FileSystem) (given? : Option Path) (directory : Path) :
    Except SettingsFault Settings :=
  let candidate := directory.joinText fileName
  match given? with
  | some path => load files path
  | none => if files.isFile candidate then load files candidate else .ok usual

def ledgerRules (s : Settings) : LedgerRules := ⟨s.ledger, s.cleanLedgers⟩

end Settings

end MakeConfig
