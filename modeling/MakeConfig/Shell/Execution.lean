import MakeConfig.Shell.Grammar
import MakeConfig.Shell.Redirect
import MakeConfig.Tool.All

/-! # Carrying out commands

What commands do: one after another, in pipes, in shells of their own, in loops and functions. A
name stands for a special command of the shell, a function, another command of the shell, or a
program. The steps are counted, and commands stop when those allowed are used up.
-/

namespace MakeConfig.Shell

open Text Act

/-! ## What names stand for -/

/-- The commands of the shell that run others. -/
inductive Runner where
  | dot
  | eval
  | exec
  | command
  | type
  | hash

inductive Meaning where
  | special (run : Builtin)
  | runner (r : Runner)
  | function (body : Command)
  | ordinary (run : Builtin)
  | program

def specialRunners : List (String × Runner) := [(".", .dot), ("eval", .eval), ("exec", .exec)]

def ordinaryRunners : List (String × Runner) := [("command", .command), ("type", .type), ("hash", .hash)]

def meaningOf (functions : List (Octets × Command)) (name : Octets) : Act Meaning := do
  let text := String.ofList name
  match Builtin.special.lookup text, specialRunners.lookup text with
  | some run, _ => return .special run
  | none, some r => return .runner r
  | none, none =>
    match functions.lookup name with
    | some body => return .function body
    | none =>
      match Builtin.ordinary.lookup text, ordinaryRunners.lookup text with
      | some run, _ => return .ordinary run
      | none, some r => return .runner r
      | none, none => return .program

/-- Whether the faults of a command end the shell, and assignments before it stay. -/
def Meaning.isSpecial : Meaning → Bool
  | .special _ | .runner .dot | .runner .eval | .runner .exec => true
  | _ => false

/-- Whether words that look like assignments are expanded like these. -/
def takesAssignments (name : Octets) : Bool :=
  ["export", "readonly", "local", "alias"].contains (String.ofList name)

/-! ## Programs -/

/-- A program that was found: a tool, or a file with a script. -/
inductive Program where
  | tool (name place : Octets)
  | script (content : Octets) (place : Octets)

def shellNames : List String := ["sh", "dash", "bash", "ash"]

def isTool (name : Octets) : Bool :=
  shellNames.contains (String.ofList name) || name == "which".toList ||
    (Tool.named? (fun _ => return .ok 0) name).isSome

/-- The program at a place. -/
def programAt (fs : FileSystem) (place : Octets) : Except FileFault Program :=
  let name := Tool.lastPart place
  if Tool.directories.contains (Tool.leadingPart place) ∧ isTool name then .ok (.tool name place)
  else
    match fs.find true (Tool.path place) with
    | .error fault => .error fault
    | .ok (l, .file content true) =>
      let _ := l
      .ok (.script (Octets.ofBytes content) place)
    | .ok _ => .error .notPermitted

def usualDirectories : Octets := "/usr/local/sbin:/usr/local/bin:/usr/sbin:/usr/bin:/sbin:/bin".toList

/-- The first program of a name in some directories, or why there is none. -/
def searched (fs : FileSystem) (name : Octets) : List Octets → Except FileFault Program
  | [] => .error .missing
  | directory :: rest =>
    let place := if directory.isEmpty then name else Tool.inDirectory directory name
    match programAt fs place with
    | .ok p => .ok p
    | .error _ => searched fs name rest

def programOf (name : Octets) : Act (Except FileFault Program) := do
  let fs ← files
  if name.contains '/' then return programAt fs name
  else
    let places := (← value? "PATH".toList).getD []
    return searched fs name (Text.split ':' places)

def Program.place : Program → Octets
  | .tool _ place | .script _ place => place

/-- The words after the mark of a script that names its interpreter. -/
def interpreter? (content : Octets) : Option (List Octets) :=
  match content with
  | '#' :: '!' :: rest =>
    let line := (rest.takeWhile (· != '\n')).dropWhile Tool.isWhite
    let name := line.takeWhile (!Tool.isWhite ·)
    let argument := ((line.drop name.length).dropWhile Tool.isWhite).reverse.dropWhile Tool.isWhite
    some (name :: if argument.isEmpty then [] else [argument.reverse])
  | _ => none

/-- What is said of a program that cannot be run, and the status. -/
def programFault (fault : FileFault) : String × Nat :=
  match fault with
  | .missing | .notDirectory => ("not found", 127)
  | .tooManyLinks | .tooLong => (fault.message, 127)
  | fault => (fault.message, 126)

/-! ## Finding out about names -/

/-- What a name stands for, in words or as it is to be written. -/
def described (name : Octets) (inWords : Bool) : Act (Option Octets) := do
  let say (text : String) (short : Octets) : Option Octets :=
    some (if inWords then name ++ Octets.ofString text else short)
  if (Keyword.ofText? name).isSome then return say " is a shell keyword" name
  match ← meaningOf (← context).functions name with
  | .special _ | .runner .dot | .runner .eval | .runner .exec =>
    return say " is a special shell builtin" name
  | .function _ => return say " is a shell function" name
  | .ordinary _ | .runner _ => return say " is a shell builtin" name
  | .program =>
    if name.contains '/' then
      let found := (← files).exists? (Tool.path name)
      return if found then say (" is " ++ String.ofList name) name else none
    match ← programOf name with
    | .ok p => return some (if inWords then name ++ Octets.ofString " is " ++ p.place else p.place)
    | .error _ => return none

def type : Builtin := fun names => do
  let mut status := 0
  for name in names do
    match ← described name true with
    | some text => Builtin.printLine text
    | none =>
      Builtin.printLine (name ++ Octets.ofString ": not found")
      status := 127
  return status

/-- What `command` tells of the first name. -/
def describe (inWords : Bool) : Builtin := fun names => do
  match names with
  | [] => return 0
  | name :: _ =>
    match ← described name inWords with
    | some text =>
      Builtin.printLine text
      return 0
    | none =>
      if inWords then Builtin.printLine (name ++ Octets.ofString ": not found")
      return 127

/-- Find out where programs are. Nothing is kept in mind. -/
def hash : Builtin := fun words => do
  let (_, names) ← Builtin.letters "rv" words
  let mut status := 0
  for name in names do
    match ← described name false with
    | some _ => pure ()
    | none =>
      complain (name ++ Octets.ofString ": not found")
      status := 1
  return status

def which : Tool := fun names => do
  let mut status := if names.isEmpty then 1 else 0
  for name in names.filter fun n => n.head? != some '-' do
    match ← programOf name with
    | .ok p => Builtin.printLine p.place
    | .error _ => status := 1
  return status

/-! ## Steps -/

/-- Do something in the name of a command. -/
def speaking {α : Type} (name : Octets) (act : Act α) : Act α := do
  let before := (← context).speaker?
  changeContext fun c => { c with speaker? := some name }
  thenAlways act (changeContext fun c => { c with speaker? := before })

/-- Carry out a command of the shell. Its faults give a status if it is not special. -/
def carryOut (isSpecial : Bool) (name : Octets) (run : Act Nat) : Act Unit := do
  let go : Act Unit := do setStatus (← speaking name run)
  if isSpecial then go
  else
    try go
    catch
      | .fault status => setStatus status
      | d => throw d

/-- Let a command of the shell print, at its end. That fails if there is nothing to print to. -/
def printing (name : Octets) (run : Act Nat) : Act Nat := do
  match ← streamOf? 1 with
  | some _ => heldBack run
  | none =>
    let pipe ← openStream (.pipe [])
    connect 1 pipe
    let status ← thenAlways run (disconnect 1)
    if (← ahead pipe).isEmpty then return status
    complain (name ++ Octets.ofString ": I/O error")
    return status ||| 1

/-- Leave the shell after a failure, if that is wanted and the failure was not asked for. -/
def check (tested : Bool) : Act Unit := do
  let status ← status
  if status ≠ 0 ∧ !tested ∧ (← option 'e') then throw (.exit status)

/-- How a turn of a loop ends. -/
inductive Turn where
  | onward
  | over

/-- Do something in a loop, and find out whether the loop goes on. -/
def turn (act : Act Unit) : Act Turn := do
  try
    act
    return .onward
  catch
    | .leave n => if n ≤ 1 then return .over else throw (.leave (n - 1))
    | .again n => if n ≤ 1 then return .onward else throw (.again (n - 1))
    | d => throw d

/-- Do something with one more loop around it. -/
def looping (act : Act Unit) : Act Unit := do
  let before := (← context).loops
  changeContext fun c => { c with loops := before + 1 }
  thenAlways act (changeContext fun c => { c with loops := before })

/-- Give variables values, one after another, and hand them on to programs if that is wanted. -/
def settle (run : Command → Act Octets) (exported : Bool) (assignments : List (Octets × Word)) :
    Act (List (Octets × Octets)) :=
  assignments.mapM fun (name, word) => do
    let value ← Expansion.valueOf run word
    assign name value
    match exported, ← lookUp? name with
    | true, some v => setVariable name (some { v with exported := true })
    | _, _ => pure ()
    return (name, value)

/-- Do something, and give variables back what they had before. -/
def borrowing (names : List Octets) (act : Act Unit) : Act Unit := do
  let before ← names.mapM fun name => do return (name, ← lookUp? name)
  thenAlways act do
    for (name, v?) in before do setVariable name v?

/-- Show a command before it is carried out, if that is wanted. -/
def trace (stream? : Option Nat) (settings : List (Octets × Octets)) (words : List Octets) :
    Act Unit := do
  match stream?, ← option 'x' with
  | some stream, true =>
    let start := (← value? "PS4".toList).getD []
    let texts := settings.map (fun (name, value) => name ++ '=' :: value) ++ words
    writeTo stream (start ++ List.intercalate [' '] texts ++ ['\n'])
  | _, _ => pure ()

/-- Do what a function does, with its own parameters and variables. -/
def calling (parameters : List Octets) (act : Act Unit) : Act Unit := do
  let before ← context
  changeContext fun c => { c with parameters, loops := 0, frames := [] :: c.frames }
  thenAlways
    (try act
     catch
      | .return status => setStatus status
      | d => throw d)
    (do
      match (← context).frames with
      | frame :: frames =>
        for (name, v?) in frame do setVariable name v?
        changeContext fun c => { c with frames }
      | [] => pure ()
      changeContext fun c => { c with parameters := before.parameters, loops := before.loops })

/-- The words after `command` that are to be run, if it is to run any. -/
def commanded : List Octets → Option (List Octets)
  | [] => none
  | w :: ws =>
    match w with
    | ['-', 'p'] => commanded ws
    | ['-', '-'] => some ws
    | '-' :: _ :: _ => none
    | _ => some (w :: ws)

/-- Take `command` away from the head of some words, as often as it stands there. -/
def unwrapped : Nat → List Octets → List Octets
  | 0, ws => ws
  | fuel + 1, ws =>
    match ws with
    | name :: rest =>
      if name = "command".toList then
        match commanded rest with
        | some (w :: more) => unwrapped fuel (w :: more)
        | _ => ws
      else ws
    | [] => []

/-- Expand the words of a command after those that are done. What looks like an assignment is one for
the commands that make them. -/
def expandWords (run : Command → Act Octets) : List Octets → List Word → Act (List Octets)
  | done, [] => return done
  | done, w :: ws => do
    let assigns := ((unwrapped done.length done).head?.map takesAssignments).getD false
    match if assigns then assignment? w else none with
    | some (name, value) =>
      let text ← Expansion.valueOf run value
      expandWords run (done ++ [name ++ '=' :: text]) ws
    | none => expandWords run (done ++ (← Expansion.fields run w)) ws

/-! ## Shells -/

/-- The options that a shell is started with. -/
structure Start where
  letters : List Char
  command : Bool
  words : List Octets

/-- Read the options of a shell, or give the one that it does not know. -/
def startOf : Start → List Octets → Except Octets Start
  | s, [] => .ok s
  | s, w :: ws =>
    match w with
    | ['-', '-'] | ['-'] => .ok { s with words := ws }
    | '-' :: letters =>
      let known := Builtin.optionNames.map Prod.snd
      match letters.find? fun c => !(c == 'c' || c == 'l' || c == 'o' || known.contains c) with
      | some c => .error (Octets.ofString "Illegal option -" ++ [c])
      | none =>
        let s := { s with
          letters := letters.filter known.contains ++ s.letters
          command := s.command || letters.contains 'c' }
        match letters.contains 'o', ws with
        | true, name :: ws =>
          match Builtin.optionNames.lookup (String.ofList name) with
          | some c => startOf { s with letters := c :: s.letters } ws
          | none => .error (Octets.ofString "Illegal option -o " ++ name)
        | _, ws => startOf s ws
    | '+' :: _ => startOf s ws
    | _ => .ok { s with words := w :: ws }

/-- The variables of a new shell. -/
def firstVariables (fs : FileSystem) (handedOn : List (Octets × Variable)) :
    List (Octets × Variable) :=
  let own : List (Octets × Variable) :=
    [("IFS".toList, ⟨some Expansion.usualSeparators, false, false⟩),
      ("OPTIND".toList, ⟨some ['1'], false, false⟩),
      ("PPID".toList, ⟨some "4241".toList, false, false⟩),
      ("PS4".toList, ⟨some ['+', ' '], false, false⟩),
      ("PWD".toList, ⟨some (Octets.ofString fs.workingDirectory.text), true, false⟩)]
  let path : List (Octets × Variable) := [("PATH".toList, ⟨some usualDirectories, false, false⟩)]
  let kept := handedOn.filter fun v => v.1 = "PS4".toList || (own.lookup v.1).isNone
  kept ++ own.filter (fun v => (kept.lookup v.1).isNone) ++
    path.filter fun v => (kept.lookup v.1).isNone

/-- What a new shell knows: its words, and the variables and descriptors that are handed on to it. -/
def freshContext (fs : FileSystem) (bindings : List (Octets × Variable))
    (descriptors : List (Nat × Nat)) (name : Octets) (parameters : List Octets)
    (letters : List Char) : Context where
  name := name
  parameters := parameters
  bindings := firstVariables fs (bindings.filter fun v => v.2.exported)
  functions := []
  descriptors := descriptors
  options := ⟨letters⟩
  status := 0
  line := 1
  loops := 0
  frames := []
  traps := []
  jobs := []
  speaker? := none
  optionPlace := 0
  nested? := none
  mask := 0o022

/-- Find the text of a file to be carried out in place. -/
def sourceOf (name : Octets) : Act (Octets × Octets) := do
  let fs ← files
  let directories := Text.split ':' ((← value? "PATH".toList).getD [])
  let places := directories.map fun d => if d.isEmpty then name else Tool.inDirectory d name
  match if name.contains '/' then some name else places.find? fun p => fs.isFile (Tool.path p) with
  | none => fail (name ++ Octets.ofString ": not found") 2
  | some place =>
    match ← Tool.contentOf place with
    | .ok text => return (place, text)
    | .error .isDirectory => return (place, [])
    | .error fault => Route.failToOpen false place fault

/-- Do something, and be on the same line as before afterwards. -/
def keepingLine {α : Type} (act : Act α) : Act α := do
  let before := (← context).line
  thenAlways act (setLine before)

/-! ## Commands -/

mutual

/-- Carry out a command. A failure that is tested does not end the shell. -/
def exec : Nat → Bool → Command → Act Unit
  | 0, _, _ => throw .exhausted
  | fuel + 1, tested, c => do
    if ← option 'n' then return
    match c with
    | .nothing => pure ()
    | .simple line assignments words redirections =>
      setLine line
      simple fuel tested assignments words redirections
      check tested
    | .pipeline parts =>
      pipeline fuel tested none parts
      check tested
    | .negated body =>
      exec fuel true body
      setStatus (if (← status) = 0 then 1 else 0)
    | .joined joint left right =>
      match joint with
      | .always =>
        exec fuel tested left
        exec fuel tested right
      | .onSuccess =>
        exec fuel true left
        if (← status) = 0 then exec fuel tested right
      | .onFailure =>
        exec fuel true left
        if (← status) ≠ 0 then exec fuel tested right
    | .background line body =>
      setLine line
      let ended ← subshell fuel do
        connect 0 (← openStream .null)
        exec fuel false body
      changeContext fun c =>
        { c with jobs := ((c.jobs.head?.map Prod.fst).getD 4242 + 1, ended) :: c.jobs }
      setStatus 0
    | .subshell line body =>
      setLine line
      setStatus (← subshell fuel (exec fuel tested body))
      check tested
    | .redirected line body redirections =>
      setLine line
      let routes ← redirections.mapM (Route.expand (substitute fuel))
      match body with
      | .subshell _ inner =>
        setStatus (← subshell fuel (do
          routes.forM (Route.make (substitute fuel))
          exec fuel tested inner))
        check tested
      | body => Route.within (substitute fuel) routes (exec fuel tested body) (pure ())
    | .conditional test body other =>
      exec fuel true test
      if (← status) = 0 then exec fuel tested body
      else
        match other with
        | .nothing => setStatus 0
        | other => exec fuel tested other
    | .loop onSuccess test body => looping (loop fuel tested onSuccess test body 0)
    | .forEach line name words body =>
      setLine line
      let values ← Expansion.allFields (substitute fuel) words
      if values.isEmpty then setStatus 0
      looping (forEach fuel tested name values body)
    | .choice line word branches =>
      setLine line
      choice fuel tested (← Expansion.single (substitute fuel) word) branches
    | .function name body =>
      changeContext fun c =>
        { c with functions := (name, body) :: c.functions.filter fun f => f.1 != name }
      setStatus 0

/-- Go on with a loop whose last turn had a status. -/
def loop : Nat → Bool → Bool → Command → Command → Nat → Act Unit
  | 0, _, _, _, _, _ => throw .exhausted
  | fuel + 1, tested, onSuccess, test, body, last => do
    match ← turn (exec fuel true test) with
    | .over => setStatus last
    | .onward =>
      if decide ((← status) = 0) = onSuccess then
        match ← turn (exec fuel tested body) with
        | .over => pure ()
        | .onward => loop fuel tested onSuccess test body (← status)
      else setStatus last

/-- A turn for each of some values. -/
def forEach : Nat → Bool → Octets → List Octets → Command → Act Unit
  | 0, _, _, _, _ => throw .exhausted
  | _, _, _, [], _ => pure ()
  | fuel + 1, tested, name, value :: values, body => do
    assign name value
    match ← turn (exec fuel tested body) with
    | .over => pure ()
    | .onward => forEach fuel tested name values body

/-- Carry out the first branch that has a pattern for a text. -/
def choice : Nat → Bool → Octets → List (List Word × Command) → Act Unit
  | 0, _, _, _ => throw .exhausted
  | _, _, _, [] => setStatus 0
  | fuel + 1, tested, text, (patterns, body) :: branches => do
    let found ← patterns.anyM fun w => do
      return Glob.agrees (← Expansion.pattern (substitute fuel) w) text
    if found then
      match body with
      | .nothing => setStatus 0
      | body => exec fuel tested body
    else choice fuel tested text branches

/-- Carry out commands each of which reads what the one before it wrote. -/
def pipeline : Nat → Bool → Option Nat → List Command → Act Unit
  | 0, _, _, _ => throw .exhausted
  | _, _, _, [] => pure ()
  | fuel + 1, tested, input?, part :: parts => do
    let output? ← if parts.isEmpty then pure none else some <$> openStream (.pipe [])
    let ended ← subshell fuel do
      match input? with
      | some n => connect 0 n
      | none => pure ()
      match output? with
      | some n => connect 1 n
      | none => pure ()
      exec fuel tested part
    match output? with
    | some _ => pipeline fuel tested output? parts
    | none => setStatus ended

/-- Let a shell do something and then what it has to do at its end. Give the status it ends with. -/
def finish : Nat → Act Unit → Act Nat
  | 0, _ => throw .exhausted
  | fuel + 1, act => do
    let ended ← endOf act
    match (← context).traps.lookup 0 with
    | none => return ended % 256
    | some text =>
      changeContext fun c =>
        { c with traps := c.traps.filter fun t => t.1 != 0, status := ended }
      (· % 256) <$> endOf do
        try
          let _ ← runLines fuel false (Reader.ofText text) 0
          setStatus ended
        catch
          | .exit status => throw (.exit status)
          | .exhausted => throw .exhausted
          | _ => throw (.exit ended)

/-- Do something in a shell of its own, and give the status that it ends with. -/
def subshell : Nat → Act Unit → Act Nat
  | 0, _ => throw .exhausted
  | fuel + 1, act => apart do
    changeContext fun c => { c with traps := c.traps.filter fun t => t.2.isEmpty }
    finish fuel act

/-- What a nested command prints. -/
def substitute : Nat → Command → Act Octets
  | 0, _ => throw .exhausted
  | fuel + 1, c => do
    let pipe ← openStream (.pipe [])
    let ended ← subshell fuel do
      connect 1 pipe
      exec fuel false c
    let text ← ahead pipe
    setStream pipe .null
    changeContext fun c => { c with nested? := some ended }
    return text

/-- Carry out a command of words. Redirections of `exec` stay when it runs nothing, and so do
assignments before a special command or without any. -/
def simple : Nat → Bool → List (Octets × Word) → List Word → List Redirection → Act Unit
  | 0, _, _, _, _ => throw .exhausted
  | fuel + 1, tested, assignments, words, redirections => do
    changeContext fun c => { c with nested? := none }
    let run := substitute fuel
    let words ← expandWords run [] words
    let routes ← redirections.mapM (Route.expand run)
    let errors? ← streamOf? 2
    match unwrapped words.length words with
    | [] =>
      let act : Act Unit := do
        trace errors? (← settle run false assignments) []
        setStatus ((← context).nested?.getD 0)
      Route.within run routes act (pure ())
    | name :: arguments =>
      let wrapped := decide (arguments.length + 1 < words.length)
      let functions := (← context).functions
      let meaning ← meaningOf (if wrapped then [] else functions) name
      let isSpecial := meaning.isSpecial && !wrapped
      let act : Act Unit := do
        trace errors? (← settle run (!isSpecial) assignments) words
        perform fuel tested isSpecial meaning name arguments
      let act := if isSpecial then act else borrowing (assignments.map Prod.fst) act
      match meaning, arguments with
      | .runner .exec, [] =>
        routes.forM (Route.make run)
        act
      | _, _ =>
        Route.within run routes act do
          if isSpecial then throw (.fault (← status))

/-- Carry out what a name means with some words. -/
def perform : Nat → Bool → Bool → Meaning → Octets → List Octets → Act Unit
  | 0, _, _, _, _, _ => throw .exhausted
  | fuel + 1, tested, isSpecial, meaning, name, words => do
    match meaning with
    | .special run | .ordinary run => carryOut isSpecial name (printing name (run words))
    | .runner r => carryOut isSpecial name (runWith fuel tested r words)
    | .function body => calling words (exec fuel tested body)
    | .program =>
      match ← callProgram fuel (name :: words) with
      | .ok status => setStatus status
      | .error fault =>
        let (text, status) := programFault fault
        complain (name ++ Octets.ofString (": " ++ text))
        setStatus status

/-- What a command does that runs others. -/
def runWith : Nat → Bool → Runner → List Octets → Act Nat
  | 0, _, _, _ => throw .exhausted
  | fuel + 1, tested, r, words => do
    match r with
    | .type => printing "type".toList (type words)
    | .hash => hash words
    | .command =>
      let (letters, names) ← Builtin.letters "pvV" words
      if letters.contains 'V' then heldBack (describe true names)
      else if letters.contains 'v' then heldBack (describe false names)
      else return 0
    | .eval =>
      let text := List.intercalate [' '] words
      keepingLine (runLines fuel tested (Reader.ofText text) 0)
    | .dot =>
      match words with
      | [] => return 0
      | name :: _ =>
        let (place, text) ← sourceOf name
        changeContext fun c => { c with speaker? := some place }
        try keepingLine (runLines fuel false (Reader.ofText text) 0)
        catch
          | .return status => return status
          | d => throw d
    | .exec =>
      match words with
      | [] => return 0
      | name :: _ =>
        match ← callProgram fuel words with
        | .ok status =>
          changeContext fun c => { c with traps := [] }
          throw (.exit status)
        | .error fault =>
          let (text, status) := programFault fault
          complain (name ++ Octets.ofString (": " ++ text))
          throw (.exit status)

/-- Carry out the commands of a text line by line. Give the status of the last one. -/
def runLines : Nat → Bool → Reader → Nat → Act Nat
  | 0, _, _, _ => throw .exhausted
  | fuel + 1, tested, reader, last => do
    let (result, reader) := reader.readLine
    match result with
    | .error text =>
      setLine reader.line
      fail (Octets.ofString ("Syntax error: " ++ text)) 2
    | .ok c =>
      let last ← match c with
        | .nothing => pure last
        | c =>
          exec fuel tested c
          status
      if reader.atEnd then return last else runLines fuel tested reader last

/-- Run a program, if there is one of that name. -/
def callProgram : Nat → List Octets → Act (Except FileFault Nat)
  | 0, _ => throw .exhausted
  | _, [] => return .ok 0
  | fuel + 1, name :: words => do
    match ← programOf name with
    | .error fault => return .error fault
    | .ok (.tool tool _) =>
      let act := match Tool.named? (callProgram fuel) tool with
        | some act => act words
        | none => if tool = "which".toList then which words else runShell fuel words
      .ok <$> apart do
        changeContext fun c => { c with speaker? := none }
        act
    | .ok (.script content place) =>
      match interpreter? content with
      | some interpreter => callProgram fuel (interpreter ++ place :: words)
      | none => .ok <$> runShell fuel (place :: words)

/-- Run a new shell with the words after its name. -/
def runShell : Nat → List Octets → Act Nat
  | 0, _ => throw .exhausted
  | fuel + 1, words => apart do
    let refuse (text : Octets) : Act Nat := do
      write 2 (Octets.ofString "sh: 0: " ++ text ++ ['\n'])
      return 2
    let live (start : Start) (name : Octets) (parameters : List Octets) (text : Octets) : Act Nat := do
      let fs ← files
      changeContext fun c =>
        freshContext fs c.bindings c.descriptors name parameters start.letters
      finish fuel do setStatus (← runLines fuel false (Reader.ofText text) 0)
    match startOf ⟨[], false, []⟩ words with
    | .error text => refuse text
    | .ok start =>
      match start.command, start.words with
      | false, [] => live start "sh".toList [] (← Tool.standardInput)
      | true, [] => refuse (Octets.ofString "-c requires an argument")
      | true, [text] => live start "sh".toList [] text
      | true, text :: name :: parameters => live start name parameters text
      | false, name :: parameters =>
        if start.letters.contains 's' then
          return ← live start "sh".toList start.words (← Tool.standardInput)
        match ← Tool.contentOf name with
        | .ok text => live start name parameters text
        | .error .isDirectory => live start name parameters []
        | .error fault =>
          let said := Route.faultText false fault
          refuse (Octets.ofString "cannot open " ++ name ++ Octets.ofString (": " ++ said))

end

end MakeConfig.Shell
