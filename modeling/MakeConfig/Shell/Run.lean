import MakeConfig.Environment
import MakeConfig.Machine
import MakeConfig.Shell.Execution

/-! # Runs of the shell

A line is run by a shell of its own in a directory. What it prints goes to the output of the run,
complaints and all, and there is nothing for it to read.
-/

namespace MakeConfig.Shell

open Text Act

/-- How deep commands may be inside others, and how many turns a loop may have. -/
def maxSteps : Nat := 1000000

/-- The variables that an environment gives. Later ones of a name replace earlier ones. -/
def environmentVariables (e : Environment) : List (Octets × Variable) :=
  let settings := e.settings.map fun (name, value) => (Octets.ofString name, Octets.ofString value)
  settings.foldl
    (fun vs (name, value) =>
      if isName name then (name, ⟨some value, true, false⟩) :: vs.filter (·.1 != name) else vs) []

/-- A session in which nothing was done yet. -/
def firstSession (environment : Environment) (fs : FileSystem) : Session where
  files := fs
  output := []
  streams := #[.null, .output]
  context :=
    freshContext fs (environmentVariables environment) [(0, 0), (1, 1), (2, 1)] "sh".toList [] []

/-- Whether a line can be handed to a shell in a directory. -/
def canRun (fs : FileSystem) (line : String) (directory : Path) : Bool :=
  fs.isDirectory directory && !line.toList.contains '\x00'

/-- Run a line in a directory. It succeeds if its status is 0. -/
def runLine (environment : Environment) (line : String) (directory : Path) (m : Machine) :
    Bool × Machine :=
  match canRun m.files line directory, m.files.locate? directory with
  | true, some l =>
    let fs := { m.files with workingDirectory := ⟨"/" ++ "/".intercalate l⟩ }
    let commands := Reader.ofText (Octets.ofString line)
    let act := finish maxSteps do setStatus (← runLines maxSteps false commands 0)
    let (result, session) := act.run (firstSession environment fs)
    let succeeded := match result with
      | .ok status => status == 0
      | .error _ => false
    (succeeded, {
      files := { session.files with workingDirectory := m.files.workingDirectory }
      output := m.output ++ Octets.toText session.output })
  | _, _ => (false, m)

end MakeConfig.Shell
