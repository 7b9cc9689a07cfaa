import MakeConfig.Shell.Builtin

/-! # Redirections

Descriptors that lead elsewhere while a command goes on: to files, to other descriptors, to a text in
place, or nowhere.
-/

namespace MakeConfig.Shell

open Text Act

/-- A redirection with its target expanded. A text in place is expanded later, when it is put there. -/
structure Route where
  descriptor : Nat
  opening : Opening
  target : Octets
  text : Word

namespace Route

/-- The streams of a process by the names that files have for them. -/
def standard? (target : Octets) : Option Nat :=
  [("/dev/stdin", 0), ("/dev/stdout", 1), ("/dev/stderr", 2), ("/dev/fd/0", 0), ("/dev/fd/1", 1),
    ("/dev/fd/2", 2)].lookup (String.ofList target)

/-- What is said of a file that cannot be opened or made. -/
def faultText (creates : Bool) (fault : FileFault) : String :=
  match fault with
  | .missing | .notDirectory => if creates then "Directory nonexistent" else "No such file"
  | fault => fault.message

def failToOpen {α : Type} (creates : Bool) (target : Octets) (fault : FileFault) : Act α :=
  let verb := if creates then "cannot create " else "cannot open "
  fail (Octets.ofString verb ++ target ++ Octets.ofString (": " ++ faultText creates fault)) 2

def connectNew (descriptor : Nat) (stream : Stream) : Act Unit := do
  connect descriptor (← openStream stream)

/-- Lead a descriptor where another one leads. -/
def copyFrom (descriptor other : Nat) : Act Unit := do
  match ← streamOf? other with
  | some n => connect descriptor n
  | none => fail (Octets.ofString (toString other ++ ": Bad file descriptor")) 2

def openInput (descriptor : Nat) (target : Octets) : Act Unit := do
  match (← files).find true ⟨Octets.toText target⟩ with
  | .error fault => failToOpen false target fault
  | .ok (_, .directory) => connectNew descriptor .null
  | .ok (l, _) => connectNew descriptor (.file l 0 false)

/-- Open a file to write to, which is made if it is not there and emptied if that is wanted. -/
def openOutput (descriptor : Nat) (target : Octets) (empty append force : Bool) : Act Unit := do
  let fs ← files
  match fs.resolve ⟨Octets.toText target⟩ with
  | .error fault => failToOpen true target fault
  | .ok l =>
    if fs.isFileAt l && empty && !force && (← option 'C') then
      failToOpen true target .alreadyThere
    else
      let content := if empty then ByteArray.empty else (fs.contentAt? l).getD ByteArray.empty
      match fs.writeAt l content with
      | .error fault => failToOpen true target fault
      | .ok fs =>
        setFiles fs
        connectNew descriptor (.file l 0 append)

variable (run : Command → Act Octets)

/-- Carry out a redirection. -/
def make (r : Route) : Act Unit := do
  match r.opening with
  | .here =>
    let ps ← Expansion.segments run false false r.text
    connectNew r.descriptor (.pipe (Expansion.textOf ps))
  | .duplicate =>
    match r.target with
    | ['-'] => disconnect r.descriptor
    | target => copyFrom r.descriptor ((Numeral.digits? 10 target).getD 0)
  | opening =>
    match standard? r.target with
    | some other => copyFrom r.descriptor other
    | none =>
      match opening with
      | .input => openInput r.descriptor r.target
      | .output force => openOutput r.descriptor r.target true false force
      | .append => openOutput r.descriptor r.target false true true
      | _ => openOutput r.descriptor r.target false false true

/-- Expand the target of a redirection. A descriptor is a digit or a hyphen. -/
def expand : Redirection → Act Route
  | .mk descriptor opening target => do
    match opening with
    | .here => return ⟨descriptor, opening, [], target⟩
    | .duplicate =>
      let text ← Expansion.single run target
      let isDescriptor : Bool := match text with
        | [c] => c.isDigit || c == '-'
        | _ => false
      if isDescriptor then return ⟨descriptor, opening, text, []⟩
      else fail (Octets.ofString "Syntax error: Bad fd number") 2
    | opening => return ⟨descriptor, opening, ← Expansion.single run target, []⟩

/-- Where the descriptors of some redirections lead before these are carried out. -/
def remember (routes : List Route) : Act (List (Nat × Option Nat)) :=
  routes.mapM fun r => do return (r.descriptor, ← streamOf? r.descriptor)

/-- Lead descriptors where they led before. -/
def restore (old : List (Nat × Option Nat)) : Act Unit := do
  for (descriptor, stream?) in old do
    match stream? with
    | some stream => connect descriptor stream
    | none => disconnect descriptor

/-- Do something with redirections in effect. If they cannot be made it is not done, and that is told. -/
def within (routes : List Route) (act : Act Unit) (otherwise : Act Unit) : Act Unit := do
  let old ← remember routes
  thenAlways (do
    let made ← try
        routes.forM (make run)
        pure true
      catch d =>
        match d with
        | .fault status =>
          setStatus status
          pure false
        | d => throw d
    if made then act else otherwise) (restore old)

end Route

end MakeConfig.Shell
