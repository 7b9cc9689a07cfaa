import MakeConfig.FileSystem.Change
import MakeConfig.Machine
import MakeConfig.Package.Ledger
import MakeConfig.Tree.Walk

/-! # Building packages

Every repo of a tree in turn: fetch it if its checkout is not there, run its build commands,
copy its outputs, and write its lines into the ledger beside the schema that names it. Old
ledgers are removed first. How packages are fetched and built is up to the tools.
-/

namespace MakeConfig

/-- How a run can fail. -/
inductive RunError where
  | engine (cause : Error)
  | missingUrl (repo : String) (checkout : Path)
  | notFetched (url : String)
  | buildFailed (command : String) (directory : Path)
  | notCopied (source target : Path)
  | io
  /-- An error met while doing something that the context tells. -/
  | within (context : String) (cause : Error)

namespace RunError

/-- The exit status of a failed run. A program that has stopped has one of its own. -/
def status : RunError → Nat
  | engine .overflow => 101
  | within _ .overflow => 101
  | _ => 1

def missingUrlText (repo : String) (checkout : Path) : String :=
  "Repo " ++ repo ++ " is missing at " ++ checkout.text ++ " and has no url to clone from"

end RunError

/-- How packages are fetched from a URL and how a build command is run in a directory. -/
structure Tools where
  fetch : String → Path → Machine → Bool × Machine
  build : String → Path → Machine → Bool × Machine

/-- Where the ledgers are and whether old ones go first. -/
structure LedgerRules where
  name : String
  clean : Bool

namespace Package

abbrev Task := Machine.Task RunError

open Machine.Task

/-- Let a tool do its work, which it reports to have done or not. -/
def use (tool : Machine → Bool × Machine) (failure : RunError) : Task Unit := do
  let (succeeded, machine) := tool (← get)
  set machine
  unless succeeded do throw failure

/-- The ledgers of a tree, each once. -/
def ledgerPaths (name : String) (tree : Tree) : List Path :=
  let paths := (tree.walkedNodes.filterMap Node.baseDirectory?).map (·.joinText name)
  (paths.foldl (fun kept p => if kept.any p.same then kept else p :: kept) []).reverse

def removeLedger (path : Path) : Task Unit := do
  if (← files).isFile path then store .io fun fs => fs.removeFile? path

def copyOutput (checkout out : Path) (output : String) : Task Unit :=
  let source := checkout.joinText output
  let target := match source.fileName? with
    | some name => out.joinText name
    | none => out
  store (.notCopied source out) fun fs => fs.copy? source target

/-- Fetch a repo if need be, build it and copy its outputs. -/
def prepare (tools : Tools) (vars : Variables Handle) (site : RepoSite) : Task Manifest := do
  let repo := site.repo
  let checkout := repo.directory.pathIn vars
  let out := repo.out.pathIn vars
  unless (← files).exists? checkout do
    match repo.url? with
    | none => throw (.missingUrl repo.name checkout)
    | some url => use (tools.fetch url checkout) (.notFetched url)
  let manifest ← ofExcept .engine (repo.loadManifest (← files) vars)
  for command in repo.commands manifest do
    use (tools.build command checkout) (.buildFailed command checkout)
  attempt .io fun fs => fs.makeDirectories out
  for output in manifest.outputs do
    copyOutput checkout out output
  return manifest

/-- Handle one repo. The ledger remembers what came before it in the same run. -/
def process (tools : Tools) (vars : Variables Handle) (ledgerName : String)
    (ledger : Ledger) (site : RepoSite) : Task Ledger := do
  let manifest ← prepare tools vars site
  let checkout := site.repo.directory.pathIn vars
  let out := site.repo.out.pathIn vars
  let (text, ledger) := ledger.record checkout out manifest
  store .io fun fs => fs.append? (site.base.joinText ledgerName) text.toUTF8
  return ledger

/-- Remove the ledgers of earlier runs. -/
def cleanLedgers (ledgerName : String) (tree : Tree) : Task Unit :=
  (ledgerPaths ledgerName tree).forM removeLedger

/-- Handle all repos of a tree. -/
def processAll (tools : Tools) (rules : LedgerRules) (tree : Tree) : Task Unit := do
  if rules.clean then cleanLedgers rules.name tree
  let _ ← tree.repoSites.foldlM (process tools tree.vars rules.name) .empty

end Package

end MakeConfig
