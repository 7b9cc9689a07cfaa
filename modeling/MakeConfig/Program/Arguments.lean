import MakeConfig.Environment
import MakeConfig.Path.Basic

/-! # Arguments

The arguments of the program: options that hold for every command, the name of a command, and
the options of that command. An option for all may stand on either side of the name. Where
it stands on neither, the environment may give its value.
-/

namespace MakeConfig

inductive Command where
  | configure (input : String) (output? header? : Option Path)
  | load (input : Path) (template : String) (output? header? : Option Path) (defaults : Bool)
  | show (input : String) (saved? : Option Path)
  deriving DecidableEq, Repr

structure Arguments where
  verbose : Bool
  logFile? : Option Path
  settings? : Option Path
  skipRepos : Bool
  command : Command
  deriving DecidableEq, Repr

namespace Arguments

/-- Why arguments are not taken. -/
inductive Refusal where
  | helpWanted
  | versionWanted
  /-- No arguments at all get the help, too, but as a refusal. -/
  | nothingGiven
  | commandMissing
  | commandUnknown
  | argumentUnknown
  | argumentMissing
  | valueInvalid
  | valueSurplus
  | repeated
  deriving DecidableEq, Repr

/-- The exit status that a refusal leads to. -/
def Refusal.status : Refusal → Nat
  | helpWanted | versionWanted => 0
  | _ => 2

/-! ## Options -/

inductive OptionName where
  | verbose
  | logFile
  | settings
  | skipRepos
  | input
  | template
  | output
  | header
  | saved
  | defaults
  deriving DecidableEq, Repr

inductive Form where
  | flag
  | text
  /-- A text that is not empty. -/
  | path
  deriving DecidableEq, Repr

structure OptionSpec where
  name : OptionName
  long : String
  short? : Option Char
  form : Form

/-- The options for all commands. -/
def common : List OptionSpec :=
  [⟨.verbose, "verbose", some 'v', .flag⟩, ⟨.logFile, "log-file", none, .path⟩,
    ⟨.settings, "settings", none, .path⟩, ⟨.skipRepos, "skip-repos", none, .flag⟩]

def outputs : List OptionSpec :=
  [⟨.output, "output", some 'o', .path⟩, ⟨.header, "header", some 'g', .path⟩]

inductive CommandName where
  | configure
  | load
  | show
  deriving DecidableEq, Repr

def CommandName.ofText? : String → Option CommandName
  | "configure" => some .configure
  | "load" => some .load
  | "show" => some .show
  | _ => none

def CommandName.options : CommandName → List OptionSpec
  | .configure => ⟨.input, "input", some 'i', .text⟩ :: outputs
  | .load => ⟨.input, "input", some 'i', .path⟩ :: ⟨.template, "template", some 't', .text⟩ ::
      ⟨.defaults, "defaults", some 'y', .flag⟩ :: outputs
  | .show => [⟨.input, "input", some 'i', .text⟩, ⟨.saved, "saved", some 's', .path⟩]

/-- What can stand before the name of the command, or after it. -/
structure Level where
  options : List OptionSpec
  /-- Whether the name of a command is still to come. -/
  outer : Bool

def outerLevel : Level := ⟨common, true⟩

def CommandName.level (c : CommandName) : Level := ⟨common ++ c.options, false⟩

/-! ## Reading one level -/

/-- The options read so far. The last one may wait for its value, or have one that is not looked at
until the next option comes up. -/
structure Progress where
  values : List (OptionName × String)
  pending? : Option (OptionSpec × Option String)

namespace Progress

def accept (p : Progress) (o : OptionSpec) (value : String) : Except Refusal Progress :=
  if (p.values.lookup o.name).isSome then .error .repeated
  else if o.form = .path ∧ value = "" then .error .valueInvalid
  else .ok { p with values := p.values ++ [(o.name, value)] }

/-- Look at the value of the last option. -/
def settle (p : Progress) : Except Refusal Progress :=
  match p.pending? with
  | none => .ok p
  | some (_, none) => .error .valueInvalid
  | some (o, some value) => accept { p with pending? := none } o value

def isWaiting (p : Progress) : Bool :=
  match p.pending? with
  | some (_, none) => true
  | _ => false

def refuse (p : Progress) (r : Refusal) : Except Refusal Progress := do
  let _ ← p.settle
  throw r

/-- Take an option with the value that is attached to it, if there is one. -/
def take (p : Progress) (o : OptionSpec) (attached? : Option String) : Except Refusal Progress :=
  match o.form, attached? with
  | .flag, some _ => .error .valueSurplus
  | .flag, none => do (← p.settle).accept o ""
  | _, some value => do (← p.settle).accept o value
  | _, none => do return { (← p.settle) with pending? := some (o, none) }

/-- An option by its long name, which a value may follow after an equals sign. -/
def takeLong (level : Level) (p : Progress) (cs : List Char) : Except Refusal Progress :=
  let name := String.ofList (cs.takeWhile (· != '='))
  let attached? := match cs.dropWhile (· != '=') with
    | [] => none
    | _ :: value => some (String.ofList value)
  match level.options.find? fun o => o.long = name with
  | some o => p.take o attached?
  | none =>
    if name = "help" ∨ (name = "version" ∧ level.outer) then
      if attached?.isSome then .error .valueSurplus
      else p.refuse (if name = "help" then .helpWanted else .versionWanted)
    else .error .argumentUnknown

/-- Options by their letters. The first that takes a value takes the rest, less an equals sign. -/
def takeShort (level : Level) (p : Progress) : List Char → Except Refusal Progress
  | [] => .ok p
  | c :: cs =>
    match level.options.find? fun o => o.short? = some c with
    | some o =>
      if o.form = .flag then do takeShort level (← p.take o none) cs
      else p.take o <| match cs with
        | [] => none
        | '=' :: value => some (String.ofList value)
        | value => some (String.ofList value)
    | none =>
      if c = 'h' then p.refuse .helpWanted
      else if c = 'V' ∧ level.outer then p.refuse .versionWanted
      else .error .argumentUnknown

end Progress

/-- The name that ends the outer level, with the arguments after it. -/
inductive Turn where
  | help (names : List String)
  | command (name : CommandName) (rest : List String)

def turn? (name : String) (rest : List String) : Option Turn :=
  if name = "help" then some (.help rest)
  else (CommandName.ofText? name).map fun c => .command c rest

/-- The refusal of an argument that is no option and no value. -/
def stray (level : Level) (literal : Bool) (argument : String) : Refusal :=
  if !level.outer ∨ (literal ∧ (turn? argument []).isSome) then .argumentUnknown
  else .commandUnknown

/-- Read a level to its end. After two dashes nothing is an option or a name. -/
def readLevel (level : Level) (literal : Bool) (p : Progress) :
    List String → Except Refusal (Progress × Option Turn)
  | [] => .ok (p, none)
  | argument :: rest =>
    if literal then .error (stray level literal argument)
    else
      match if level.outer ∧ !p.isWaiting then turn? argument rest else none with
      | some turn => .ok (p, some turn)
      | none =>
        match argument.toList with
        | ['-', '-'] => readLevel level true p rest
        | '-' :: '-' :: cs => do readLevel level literal (← p.takeLong level cs) rest
        | '-' :: c :: cs => do readLevel level literal (← p.takeShort level (c :: cs)) rest
        | _ =>
          match p.pending? with
          | some (o, none) =>
            readLevel level literal { p with pending? := some (o, some argument) } rest
          | _ => .error (stray level literal argument)

/-! ## Values from the environment -/

/-- Where a value comes from. -/
inductive Source where
  | environment
  | commandLine
  deriving DecidableEq, Repr

abbrev Values := List (OptionName × Source × String)

def variableOf? : OptionName → Option String
  | .logFile => some "JCONFIG_LOG_FILE"
  | .settings => some "JCONFIG_SETTINGS"
  | _ => none

/-- The value that the environment gives to an option that was not given. -/
def fromEnvironment (e : Environment) (p : Progress) (o : OptionSpec) : Except Refusal Values :=
  match (p.values.lookup o.name).isSome, (variableOf? o.name).bind e.get? with
  | false, some value =>
    if value = "" then .error .valueInvalid else .ok [(o.name, .environment, value)]
  | _, _ => .ok []

/-- The values of a level that has been read. -/
def finish (e : Environment) (p : Progress) : Except Refusal Values := do
  let p ← p.settle
  let added ← common.mapM (fromEnvironment e p)
  return p.values.map (fun (name, value) => (name, .commandLine, value)) ++ added.flatten

/-- The value of an option on two levels. The inner one counts, unless it comes from the environment
and the outer one was given. -/
def merged (outer inner : Values) (name : OptionName) : Option String :=
  match outer.lookup name, inner.lookup name with
  | some (.commandLine, value), some (.environment, _) => some value
  | _, some (_, value) => some value
  | value?, none => value?.map Prod.snd

/-! ## Whole command lines -/

def usualSchema : String := "./config.json"

def commandOf (name : CommandName) (value? : OptionName → Option String) : Except Refusal Command :=
  let path? (name : OptionName) : Option Path := (value? name).map Path.mk
  match name with
  | .configure =>
    .ok (.configure ((value? .input).getD usualSchema) (path? .output) (path? .header))
  | .load =>
    match path? .input with
    | none => .error .argumentMissing
    | some input => .ok (.load input ((value? .template).getD usualSchema) (path? .output)
        (path? .header) (value? .defaults).isSome)
  | .show => .ok (.show ((value? .input).getD usualSchema) (path? .saved))

/-- Whether help can be had on the names that follow its own. -/
def hasHelp : List String → Bool
  | [] => true
  | [name] => (turn? name []).isSome
  | _ => false

/-- Read the arguments of the program. The inner level is finished first. -/
def read (e : Environment) (arguments : List String) : Except Refusal Arguments := do
  let (p, turn?) ← readLevel outerLevel false ⟨[], none⟩ arguments
  match turn? with
  | some (.help names) => throw (if hasHelp names then .helpWanted else .commandUnknown)
  | some (.command name rest) =>
    let (q, _) ← readLevel name.level false ⟨[], none⟩ rest
    let inner ← finish e q
    let command ← commandOf name fun o => (inner.lookup o).map Prod.snd
    let outer ← finish e p
    let value? := merged outer inner
    return {
      verbose := (value? .verbose).isSome
      logFile? := (value? .logFile).map Path.mk
      settings? := (value? .settings).map Path.mk
      skipRepos := (value? .skipRepos).isSome
      command }
  | none =>
    let outer ← finish e p
    throw (if outer.isEmpty then .nothingGiven else .commandMissing)

end Arguments

end MakeConfig
