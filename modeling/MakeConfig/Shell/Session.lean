import MakeConfig.FileSystem.Change
import MakeConfig.Shell.Syntax

/-! # Sessions

The state that commands run in: the files, the open streams, and what a shell knows for itself:
its variables, functions, parameters, options and descriptors. A subshell has a copy of the
latter and shares the rest. Commands also stop the course of things: they leave loops and
functions, or end the shell.
-/

namespace MakeConfig.Shell

open Text

/-- What can be open. -/
inductive Stream where
  /-- It takes everything and gives nothing. -/
  | null
  /-- The output of the run. -/
  | output
  /-- A file with the place of the next byte. All that is written goes to the end if `append`. -/
  | file (location : Location) (offset : Nat) (append : Bool)
  /-- What was written is read from the other end. -/
  | pipe (content : Octets)

structure Variable where
  value? : Option Octets
  exported : Bool
  constant : Bool

structure Options where
  /-- Letters of the options that are on. -/
  letters : List Char

/-- What a shell knows for itself. -/
structure Context where
  name : Octets
  parameters : List Octets
  bindings : List (Octets × Variable)
  functions : List (Octets × Command)
  /-- The stream of each descriptor. -/
  descriptors : List (Nat × Nat)
  options : Options
  status : Nat
  line : Nat
  /-- How many loops go on around a command. -/
  loops : Nat
  /-- Variables as they were before the functions that go on, the innermost one first. -/
  frames : List (List (Octets × Option Variable))
  /-- What to do on signals. Number 0 is the end of the shell. -/
  traps : List (Nat × Octets)
  /-- The commands that were run in the background with their statuses, the latest first. -/
  jobs : List (Nat × Nat)
  /-- The built-in command that goes on, which complaints are made in the name of. -/
  speaker? : Option Octets
  /-- How much of the word before the next one was read as options. -/
  optionPlace : Nat
  /-- The status of the last nested command of an expansion, if there was one. -/
  nested? : Option Nat
  /-- The rights that new files are not given. It is kept, but has no effect. -/
  mask : Nat

structure Session where
  files : FileSystem
  output : Octets
  streams : Array Stream
  context : Context

/-- How the course of commands is left. -/
inductive Departure where
  | exit (status : Nat)
  /-- A fault that ends the shell, unless a command was asked for that may fail. -/
  | fault (status : Nat)
  | leave (loops : Nat)
  | again (loops : Nat)
  | return (status : Nat)
  /-- The steps that were allowed are used up. -/
  | exhausted

/-- What commands do. The state stays as it was when the course is left. -/
abbrev Act := ExceptT Departure (StateM Session)

namespace Act

def context : Act Context := do return (← get).context

def changeContext (f : Context → Context) : Act Unit :=
  modify fun s => { s with context := f s.context }

def files : Act FileSystem := do return (← get).files

def setFiles (files : FileSystem) : Act Unit := modify fun s => { s with files }

def status : Act Nat := do return (← context).status

def setStatus (status : Nat) : Act Unit := changeContext fun c => { c with status }

def setLine (line : Nat) : Act Unit := changeContext fun c => { c with line }

def option (letter : Char) : Act Bool := do return (← context).options.letters.contains letter

/-! ## Streams -/

/-- Open a stream, and give its number. -/
def openStream (stream : Stream) : Act Nat := do
  let number := (← get).streams.size
  modify fun s => { s with streams := s.streams.push stream }
  return number

def stream (number : Nat) : Act Stream := do return ((← get).streams[number]?).getD .null

def setStream (number : Nat) (stream : Stream) : Act Unit :=
  modify fun s => { s with streams := s.streams.setIfInBounds number stream }

/-- Put bytes at a place of a content, with zeros up to there if it is too short. -/
def splice (content : Octets) (offset : Nat) (bytes : Octets) : Octets :=
  let before := content.take offset
  before ++ List.replicate (offset - before.length) '\x00' ++ bytes ++
    content.drop (offset + bytes.length)

def contentAt (l : Location) : Act Octets := do
  return (((← files).contentAt? l).map Octets.ofBytes).getD []

/-- Write to a stream. What goes to a file that was removed is lost. -/
def writeTo (number : Nat) (bytes : Octets) : Act Unit := do
  if bytes.isEmpty then return
  match ← stream number with
  | .null => pure ()
  | .output => modify fun s => { s with output := s.output ++ bytes }
  | .pipe content => setStream number (.pipe (content ++ bytes))
  | .file l offset append =>
    let content ← contentAt l
    let place := if append then content.length else offset
    let fs ← files
    if (fs.contentAt? l).isSome then
      match fs.writeAt l (splice content place bytes).toBytes with
      | .ok fs => setFiles fs
      | .error _ => pure ()
    setStream number (.file l (place + bytes.length) append)

/-- Everything that is left to read of a stream. It stays there. -/
def ahead (number : Nat) : Act Octets := do
  match ← stream number with
  | .null | .output => return []
  | .pipe content => return content
  | .file l offset _ => return (← contentAt l).drop offset

/-- Go on behind so many bytes of a stream. -/
def advance (number count : Nat) : Act Unit := do
  match ← stream number with
  | .null | .output => pure ()
  | .pipe content => setStream number (.pipe (content.drop count))
  | .file l offset append => setStream number (.file l (offset + count) append)

/-! ## Descriptors -/

def streamOf? (descriptor : Nat) : Act (Option Nat) := do
  return (← context).descriptors.lookup descriptor

def connect (descriptor stream : Nat) : Act Unit :=
  changeContext fun c => { c with
    descriptors := (descriptor, stream) :: c.descriptors.filter fun x => x.1 != descriptor }

def disconnect (descriptor : Nat) : Act Unit :=
  changeContext fun c => { c with
    descriptors := c.descriptors.filter fun x => x.1 != descriptor }

/-- Write to a descriptor. Nothing is written to one that is closed. -/
def write (descriptor : Nat) (bytes : Octets) : Act Unit := do
  match ← streamOf? descriptor with
  | some n => writeTo n bytes
  | none => pure ()

def print (text : String) : Act Unit := write 1 (Octets.ofString text)

/-- Complain, with where the complaint comes from. -/
def complain (text : Octets) : Act Unit := do
  let c ← context
  let speaker := match c.speaker? with
    | some name => name ++ [':', ' ']
    | none => []
  write 2 (c.name ++ Octets.ofString (": " ++ toString c.line ++ ": ") ++ speaker ++ text ++ ['\n'])

/-- Complain about a fault, and leave with it. -/
def fail {α : Type} (text : Octets) (status : Nat) : Act α := do
  complain text
  throw (.fault status)

/-! ## Variables -/

def lookUp? (name : Octets) : Act (Option Variable) := do
  return (← context).bindings.lookup name

def setVariable (name : Octets) (v? : Option Variable) : Act Unit :=
  changeContext fun c => { c with
    bindings := match v? with
      | some v => (name, v) :: c.bindings.filter fun x => x.1 != name
      | none => c.bindings.filter fun x => x.1 != name }

def value? (name : Octets) : Act (Option Octets) := do
  return (← lookUp? name).bind Variable.value?

/-- Give a variable a value. One that is constant keeps its own. -/
def assign (name value : Octets) : Act Unit := do
  let v? ← lookUp? name
  let old := v?.getD ⟨none, ← option 'a', false⟩
  if old.constant then fail (name ++ Octets.ofString ": is read only") 2
  if name = "OPTIND".toList then changeContext fun c => { c with optionPlace := 0 }
  setVariable name (some { old with value? := some value })

/-- Remember a variable until the function that goes on is left. -/
def remember (name : Octets) : Act Unit := do
  let v? ← lookUp? name
  changeContext fun c => { c with
    frames := match c.frames with
      | frame :: frames =>
        (if frame.any fun x => x.1 = name then frame else (name, v?) :: frame) :: frames
      | [] => [] }

/-- The status that a shell ends with that does something and then nothing more. -/
def endOf (act : Act Unit) : Act Nat := do
  let (result, s) := act.run (← get)
  set s
  match result with
  | .ok () => status
  | .error (.exit status) | .error (.fault status) | .error (.return status) => return status
  | .error (.leave _) | .error (.again _) => return 0
  | .error .exhausted => throw .exhausted

/-- Do something, then something else whether or not the course was left. -/
def thenAlways {α : Type} (act : Act α) (after : Act Unit) : Act α := do
  let (result, s) := act.run (← get)
  set s
  after
  match result with
  | .ok a => return a
  | .error d => throw d

/-- Do something with a context of its own, which is forgotten afterwards. -/
def apart {α : Type} (act : Act α) : Act α := do
  let before ← get
  thenAlways act (modify fun s => { s with
    context := before.context
    files := { s.files with workingDirectory := before.files.workingDirectory } })

/-- Do something with the first output descriptor held back: what goes there is written at the end. -/
def heldBack {α : Type} (act : Act α) : Act α := do
  match ← streamOf? 1 with
  | none => act
  | some target =>
    let pipe ← openStream (.pipe [])
    connect 1 pipe
    thenAlways act do
      connect 1 target
      writeTo target (← ahead pipe)
      setStream pipe .null

end Act

end MakeConfig.Shell
