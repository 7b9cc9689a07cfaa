import MakeConfig.Artifact.Config
import MakeConfig.Artifact.Header
import MakeConfig.Program.Arguments
import MakeConfig.Settings
import MakeConfig.Shell.Run
import MakeConfig.Tree.Configure

/-! # Runs of the program

What each command does: configure a tree at the terminal, load a saved configuration into a
tree, or show a tree. The first two build the repos and write the outputs, the third prints
a report. A run that is given too few steps has no result.
-/

namespace MakeConfig.Program

open Machine.Task

/-- What a run is given besides its command. -/
structure Context where
  settings : Settings
  directory : Path
  skipRepos : Bool

/-- The places of the outputs. -/
structure Outputs where
  config : Path
  header : Path
  deriving DecidableEq, Repr

namespace Context

def reposEnabled (c : Context) : Bool := c.settings.reposEnabled && !c.skipRepos

/-- Given places come before the settings. Relative ones start at the directory of the run. -/
def outputs (c : Context) (config? header? : Option Path) : Outputs where
  config := c.directory.join (config?.getD c.settings.config)
  header := c.directory.join (header?.getD c.settings.header)

end Context

/-- What a run takes from outside besides the files. -/
structure Outside where
  environment : Environment
  ambient : Ambient
  tools : Tools

/-- The generated entries of a tree. -/
def Outside.generated (outside : Outside) (tree : Tree) : Except Error (List (String × String)) :=
  tree.generated outside.environment.build outside.ambient

/-- Commands run in the shell, and nothing can be fetched: all that an attempt leaves behind are the
directories that lead to the checkout. -/
def localTools (environment : Environment) : Tools where
  fetch _ checkout m := (false, makeWayTo checkout m)
  build := Shell.runLine environment
where
  makeWayTo (checkout : Path) (m : Machine) : Machine :=
    match checkout.parent? with
    | none => m
    | some p => { m with files := (m.files.makeDirectories p).2 }

abbrev Result (α : Type) := Option (Except RunError α × Machine)

/-- Empty a file, then fill it as far as a text goes. -/
def writeOutput (path : Path) (text : FileSystem → String × Except Error Unit) :
    Machine.Task RunError Unit := do
  store .io fun fs => fs.write? path ByteArray.empty
  let (text, result) := text (← files)
  store .io fun fs => fs.write? path text.toUTF8
  ofExcept .engine result

/-- What is printed after a run. -/
def summary (outputs : Outputs) : String :=
  "\x1b[1m\x1b[32mWrote\x1b[39m\x1b[0m " ++ outputs.config.text ++ " and " ++ outputs.header.text
    ++ "\n"

/-- Build the repos of a configured tree and write the outputs. -/
def finish (outside : Outside) (context : Context) (outputs : Outputs) (tree : Tree) :
    Machine.Task RunError Unit := do
  if context.reposEnabled then
    Package.processAll outside.tools context.settings.ledgerRules tree
  let generated ← ofExcept .engine (outside.generated tree)
  writeOutput outputs.config fun fs => Artifact.config fs tree generated
  writeOutput outputs.header fun _ => (Artifact.header generated, .ok ())
  print (summary outputs)

/-- Configure a new tree. The text of an error tells what was being done. -/
def configured {σ : Type} (steps : Nat) (outside : Outside) (m : Machine) (d : Dialog σ) (s : σ)
    (schema doing : String) : Option (Except RunError Tree × σ) := do
  let tree := Tree.plant schema m.files.workingDirectory
  let (result, session) ←
    Session.configure ⟨m.files, outside.environment⟩ d steps Tree.root ⟨tree, s⟩
  match result with
  | .ok () => return (.ok session.tree, session.dialog)
  | .error e => return (.error (.within (doing ++ " " ++ schema) e), session.dialog)

/-- Go on with a task after success. -/
def thenDo {α : Type} (r : Except RunError α) (m : Machine) (task : α → Machine.Task RunError Unit) :
    Except RunError Unit × Machine :=
  match r with
  | .error e => (.error e, m)
  | .ok v => (task v).run m

/-- Configure with a dialog at the terminal, and finish the run. -/
def atTerminal (steps : Nat) (outside : Outside) (context : Context) (outputs : Outputs)
    (d : Dialog String) (schema : String) (m : Machine) : Result Unit :=
  (configured steps outside m d m.output schema "Failed to configure").map fun (r, output) =>
    thenDo r { m with output } (finish outside context outputs)

/-- Configure without asking anyone, and finish the run. -/
def unattended (steps : Nat) (outside : Outside) (context : Context) (outputs : Outputs)
    (d : Dialog Unit) (schema : String) (m : Machine) : Result Unit :=
  (configured steps outside m d () schema "Failed to configure").map fun (r, _) =>
    thenDo r m (finish outside context outputs)

/-- Load the saved configuration of a file into a tree. -/
def load (steps : Nat) (outside : Outside) (context : Context) (outputs : Outputs)
    (input : Path) (schema : String) (defaults : Bool) (m : Machine) : Result Unit :=
  match Saved.load m.files input with
  | .error e =>
    some (.error (.within ("Failed to read saved configuration " ++ input.text) e), m)
  | .ok saved =>
    if defaults then
      unattended steps outside context outputs (Dialog.replay saved .defaults) schema m
    else atTerminal steps outside context outputs (Dialog.replay saved .terminal) schema m

/-- The report on a tree with its defaults or saved values. -/
def report (steps : Nat) (outside : Outside) (schema : String) (saved? : Option Path)
    (m : Machine) : Result String :=
  match (saved?.map (Saved.load m.files)).getD (.ok ∅) with
  | .error e => some (.error (.engine e), m)
  | .ok saved =>
    (configured steps outside m (Dialog.replay saved .defaults) () schema "Failed to load").map fun
      | (.error e, _) => (.error e, m)
      | (.ok tree, _) => (.ok tree.reportAll, { m with output := m.output ++ tree.reportAll })

/-- Carry out a command. Only a report gives a text. -/
def execute (steps : Nat) (outside : Outside) (context : Context) (command : Command)
    (m : Machine) : Result (Option String) :=
  let silent (r : Result Unit) : Result (Option String) :=
    r.map fun (r, m) => (r.map fun _ => none, m)
  match command with
  | .configure input output? header? =>
    silent (atTerminal steps outside context (context.outputs output? header?) .terminal input m)
  | .load input template output? header? defaults =>
    silent (load steps outside context (context.outputs output? header?) input template defaults m)
  | .show input saved? =>
    (report steps outside input saved? m).map fun (r, m) => (r.map some, m)

/-! ## The whole program -/

def versionText : String := "jconfig 0.4.0\n"

/-- Open the log file if one is wanted. -/
def openLog (logFile? : Option Path) (m : Machine) : Option Machine :=
  match logFile? with
  | none => some m
  | some path => (m.files.append? path ByteArray.empty).map fun files => { m with files }

/-- Run with arguments that have been read, and give the exit status. -/
def runWith (steps : Nat) (outside : Outside) (a : Arguments) (m : Machine) :
    Option (Nat × Machine) :=
  match openLog a.logFile? m with
  | none => some (1, m)
  | some m =>
    let directory := m.files.workingDirectory
    match Settings.discover m.files a.settings? directory with
    | .error _ => some (1, m)
    | .ok settings =>
      (execute steps outside ⟨settings, directory, a.skipRepos⟩ a.command m).map fun
        | (.ok _, m) => (0, m)
        | (.error e, m) => (e.status, m)

/-- Run with the arguments of the command line, and give the exit status. -/
def run (steps : Nat) (outside : Outside) (arguments : List String) (m : Machine) :
    Option (Nat × Machine) :=
  match Arguments.read outside.environment arguments with
  | .ok a => runWith steps outside a m
  | .error r =>
    let output := if r = .versionWanted then m.output ++ versionText else m.output
    some (r.status, { m with output })

end MakeConfig.Program
