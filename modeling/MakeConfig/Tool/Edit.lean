import MakeConfig.Tool.EditScript

/-! # The stream editor

The commands of a script are carried out on one line after another. A line is printed at the end
of its turn, and after it the texts that were put behind it.
-/

namespace MakeConfig.Tool.Edit

open Text Shell Act

structure InputLine where
  text : Octets
  /-- Whether a line end follows. -/
  ended : Bool
  file : Octets

inductive RangeState where
  | active (stop? : Option Nat)
  | closed

/-- The state of an edit. -/
structure State where
  space : Octets
  hold : Octets
  number : Nat
  ended : Bool
  file : Octets
  input : List InputLine
  ranges : List (Nat × RangeState)
  replaced : Bool
  /-- What is to be printed after the line, or the file whose content it is. -/
  behind : List (Octets ⊕ Octets)
  lastRegex? : Option Regex
  output : Octets
  /-- Whether the output ends with a line that has no end yet. -/
  unended : Bool
  written : List (Octets × Octets)
  rest : List (Octets × List Octets)

/-- What is the same for all lines. -/
structure Setting where
  program : Array Instruction
  quiet : Bool
  lineEnd : Char
  contentOf : Octets → Option Octets

/-- How the turn of a line ends. -/
inductive Flow where
  | done
  | deleted
  | again
  | quit (print : Bool) (status : Nat)

abbrev Editing := StateM State

variable (g : Setting)

/-! ## Output -/

/-- End a line that has no end, before something else is printed. -/
def closeLine (lineEnd : Char) (s : State) : State :=
  if s.unended then { s with output := s.output ++ [lineEnd], unended := false } else s

def printText (text : Octets) : Editing Unit :=
  modify fun s =>
    let s := closeLine g.lineEnd s
    { s with output := s.output ++ text }

/-- Print a line, which ends if the line that was read does. -/
def printLine (text : Octets) : Editing Unit :=
  modify fun s =>
    let s := closeLine g.lineEnd s
    { s with
      output := s.output ++ text ++ (if s.ended then [g.lineEnd] else [])
      unended := !s.ended }

def writeFile (name text : Octets) : Editing Unit := do
  if name = oct "/dev/stdout" then printText g text
  else modify fun s => { s with
    written := s.written.map fun w => if w.1 = name then (name, w.2 ++ text) else w }

/-- Print what was put behind the line. -/
def flush : Editing Unit := do
  let s ← get
  set { s with behind := [] }
  for item in s.behind do
    match item with
    | .inl text => printText g text
    | .inr name => printText g ((g.contentOf name).getD [])

/-- Read the next line. -/
def nextLine? : Editing (Option Octets) := do
  let s ← get
  match s.input with
  | [] => return none
  | l :: input =>
    set { s with input, number := s.number + 1, ended := l.ended, file := l.file }
    return some l.text

/-! ## Addresses -/

def regexOf (p : Pattern) : Editing Regex := do
  match p.regex? with
  | some r =>
    modify fun s => { s with lastRegex? := some r }
    return r
  | none => return ((← get).lastRegex?).getD .empty

def holdsAt (a : Address) : Editing Bool := do
  let s ← get
  match a with
  | .line n => return s.number = n
  | .every first step =>
    if step = 0 then return s.number = first
    else return s.number ≥ first && (s.number - first) % step = 0
  | .last => return s.input.isEmpty
  | .like p => return (← regexOf p).matchesIn p.mode s.space
  | .ahead _ | .multiple _ => return false

def setRange (index : Nat) (r : RangeState) : Editing Unit :=
  modify fun s => { s with ranges := (index, r) :: s.ranges.filter fun x => x.1 != index }

/-- The line that a range ends with, if that is known when it begins. -/
def stopOf (n : Nat) : Address → Option Nat
  | .line m => some m
  | .ahead m => some (n + m)
  | .multiple m => some (if m = 0 then n else (n + m - 1) / m * m)
  | _ => none

/-- Whether a line is in a range. -/
def inRange (index : Nat) (first second : Address) : Editing Bool := do
  let s ← get
  let state : Option RangeState := match s.ranges.lookup index, first with
    | none, .line 0 => some (.active none)
    | state?, _ => state?
  match state with
  | some (.active (some stop)) =>
    if s.number ≥ stop then setRange index .closed
    return s.number ≤ stop
  | some (.active none) =>
    if ← holdsAt second then setRange index .closed
    return true
  | closed? =>
    let mayBegin := match closed?, first with
      | some .closed, .line _ => false
      | _, _ => true
    if mayBegin && (← holdsAt first) then
      match stopOf s.number second with
      | some stop => setRange index (if stop > s.number then .active (some stop) else .closed)
      | none => setRange index (.active none)
      return true
    else return false

def applies (index : Nat) (i : Instruction) : Editing Bool := do
  let b ← match i.first?, i.second? with
    | none, _ => pure true
    | some a, none => holdsAt a
    | some a, some b => inRange index a b
  return b != i.negated

/-! ## Substitution -/

inductive Mood where
  | plain
  | upper
  | lower

/-- A text in a mood, with what holds for its first letter only. -/
def inMood (mood : Mood) (once? : Option Mood) (text : Octets) : Octets :=
  let change : Mood → Char → Char
    | .plain, c => c
    | .upper, c => c.toUpper
    | .lower, c => c.toLower
  match once?, text.map (change mood), text with
  | some once, _ :: rest, c :: _ => change once c :: rest
  | _, changed, _ => changed

def replacement (groups : Nat → Octets) : Mood → Option Mood → List Part → Octets
  | _, _, [] => []
  | mood, once?, part :: parts =>
    let add (text : Octets) : Octets :=
      inMood mood once? text ++
        replacement groups mood (if text.isEmpty then once? else none) parts
    match part with
    | .char c => add [c]
    | .group n => add (groups n)
    | .casing .upper => replacement groups .upper none parts
    | .casing .lower => replacement groups .lower none parts
    | .casing .nextUpper => replacement groups mood (some .upper) parts
    | .casing .nextLower => replacement groups mood (some .lower) parts
    | .casing .stop => replacement groups .plain none parts

/-- Replace matches from a place on, of which so many came before. The place behind the last match
holds no empty one. -/
def substituteFrom (r : Regex) (sub : Substitution) (text : Octets) :
    Nat → Nat → Option Nat → Nat → Octets × Bool
  | 0, place, _, _ => (text.drop place, false)
  | fuel + 1, place, last?, count =>
    match r.find? sub.pattern.mode text place with
    | none => (text.drop place, false)
    | some found =>
      let before := (text.drop place).take (found.start - place)
      let empty := found.start == found.stop
      let skipped := if empty then (text.drop found.stop).take 1 else []
      let next := if empty then found.stop + 1 else found.stop
      let go (piece : Octets) (done : Bool) (count : Nat) : Octets × Bool :=
        let (rest, more) := substituteFrom r sub text fuel next (some found.stop) count
        (before ++ piece ++ skipped ++ rest, done || more)
      if empty ∧ last? = some found.start then go [] false count
      else if count < sub.count then go (found.textOf text 0) false (count + 1)
      else
        let piece := replacement (found.textOf text) .plain none sub.parts
        if sub.everywhere then go piece true (count + 1)
        else (before ++ piece ++ text.drop found.stop, true)

def substitute (sub : Substitution) : Editing Unit := do
  let r ← regexOf sub.pattern
  let s ← get
  let (text, done) := substituteFrom r sub s.space (s.space.length + 2) 0 none 1
  if done then
    set { s with space := text, replaced := true }
    if sub.print then printLine g text
    match sub.file? with
    | some file => writeFile g file (text ++ ['\n'])
    | none => pure ()

/-! ## Commands -/

/-- A line as it is shown unambiguously, in pieces that fit a line. -/
def listed (text : Octets) : Octets :=
  let one (c : Char) : Octets :=
    if c = '\\' then ['\\', '\\'] else if isPrintable c then [c] else escapeOf c
  let step (out : Octets × Nat) (piece : Octets) : Octets × Nat :=
    if out.2 + piece.length > 69 then (out.1 ++ ['\\', '\n'] ++ piece, piece.length)
    else (out.1 ++ piece, out.2 + piece.length)
  ((text.map one).foldl step ([], 0)).1 ++ ['$', '\n']

def firstLine (text : Octets) : Octets := text.takeWhile (· != '\n')

/-- The place behind the end of the block that begins at a place. -/
def blockEnd : Nat → Nat → List Instruction → Nat
  | place, _, [] => place
  | place, depth, i :: is =>
    match i.action with
    | .begin => blockEnd (place + 1) (depth + 1) is
    | .finish => if depth ≤ 1 then place + 1 else blockEnd (place + 1) (depth - 1) is
    | _ => blockEnd (place + 1) depth is

def labelPlace (name : Octets) : Nat :=
  if name.isEmpty then g.program.size
  else
    (g.program.toList.findIdx fun i => match i.action with
      | .label other => other == name
      | _ => false) + 1

/-- The next line of a file that is read line by line. -/
def lineOf (name : Octets) : Editing (Option Octets) := do
  let s ← get
  let lines := match s.rest.lookup name with
    | some lines => lines
    | none => bareLines ((g.contentOf name).getD [])
  set { s with rest := (name, lines.drop 1) :: s.rest.filter fun x => x.1 != name }
  return lines.head?

def putBehind (item : Octets ⊕ Octets) : Editing Unit :=
  modify fun s => { s with behind := s.behind ++ [item] }

/-- Carry out the commands from a place on. -/
def runFrom : Nat → Nat → Editing Flow
  | 0, _ => return .quit true 0
  | fuel + 1, place => do
    match g.program[place]? with
    | none => return .done
    | some i =>
      if !(← applies place i) then
        match i.action with
        | .begin => runFrom fuel (blockEnd place 0 (g.program.toList.drop place))
        | _ => runFrom fuel (place + 1)
      else
        let onward : Editing Flow := runFrom fuel (place + 1)
        let s ← get
        match i.action with
        | .begin | .finish | .label _ => onward
        | .jump name => runFrom fuel (labelPlace g name)
        | .jumpIf replaced name =>
          set { s with replaced := false }
          if s.replaced = replaced then runFrom fuel (labelPlace g name) else onward
        | .append text =>
          putBehind (.inl text)
          onward
        | .insert text =>
          printText g text
          onward
        | .change text =>
          let stillIn := match i.second?, i.negated, s.ranges.lookup place with
            | some _, false, some (.active _) => true
            | _, _, _ => false
          unless stillIn do printText g text
          return .deleted
        | .delete => return .deleted
        | .deleteLine =>
          if s.space.contains '\n' then
            set { s with space := (s.space.dropWhile (· != '\n')).drop 1 }
            return .again
          else return .deleted
        | .getHold =>
          set { s with space := s.hold }
          onward
        | .appendHold =>
          set { s with space := s.space ++ '\n' :: s.hold }
          onward
        | .hold =>
          set { s with hold := s.space }
          onward
        | .holdMore =>
          set { s with hold := s.hold ++ '\n' :: s.space }
          onward
        | .exchange =>
          set { s with space := s.hold, hold := s.space }
          onward
        | .next =>
          if s.input.isEmpty then return .quit true 0
          else
            unless g.quiet do printLine g s.space
            flush g
            let line ← nextLine?
            modify fun s => { s with space := line.getD [] }
            onward
        | .nextMore =>
          if s.input.isEmpty then return .quit true 0
          else
            flush g
            let line ← nextLine?
            modify fun s => { s with space := s.space ++ '\n' :: line.getD [] }
            onward
        | .print =>
          printLine g s.space
          onward
        | .printLine =>
          printText g (firstLine s.space ++ ['\n'])
          onward
        | .number =>
          printText g (nat s.number ++ ['\n'])
          onward
        | .list =>
          printText g (listed s.space)
          onward
        | .name =>
          printText g (s.file ++ ['\n'])
          onward
        | .clear =>
          set { s with space := [] }
          onward
        | .quit print status => return .quit print status
        | .read file =>
          putBehind (.inr file)
          onward
        | .readLine file =>
          match ← lineOf g file with
          | some line => putBehind (.inl (line ++ ['\n']))
          | none => pure ()
          onward
        | .write file =>
          writeFile g file (s.space ++ ['\n'])
          onward
        | .writeLine file =>
          writeFile g file (firstLine s.space ++ ['\n'])
          onward
        | .substitute sub =>
          substitute g sub
          onward
        | .translate table =>
          set { s with space := s.space.map fun c => (table.lookup c).getD c }
          onward

/-- More than the commands for one line take. -/
def maxSteps : Nat := 100000

/-- Take one line after another, and give the status in the end. -/
def runLines : Nat → Bool → Editing Nat
  | 0, _ => return 0
  | fuel + 1, again => do
    unless again do
      match ← nextLine? with
      | none => pure ()
      | some line => modify fun s => { s with space := line, replaced := false }
    let flow ← runFrom g maxSteps 0
    let finish (print : Bool) : Editing Unit := do
      if print && !g.quiet then printLine g (← get).space
      flush g
    match flow with
    | .done =>
      finish true
      if (← get).input.isEmpty then return 0 else runLines fuel false
    | .deleted =>
      finish false
      if (← get).input.isEmpty then return 0 else runLines fuel false
    | .again =>
      finish false
      runLines fuel true
    | .quit print status =>
      if print then finish true
      return status

/-! ## The program -/

def options : Options :=
  ⟨"bsnrzuEe:f:l:i::V:s", [("quiet", 'n', .nothing), ("silent", 'n', .nothing),
    ("expression", 'e', .something), ("file", 'f', .something), ("in-place", 'i', .maybe),
    ("regexp-extended", 'E', .nothing), ("separate", 's', .nothing), ("unbuffered", 'u', .nothing),
    ("null-data", 'z', .nothing), ("zero-terminated", 'z', .nothing), ("posix", 'p', .nothing),
    ("debug", 'p', .nothing), ("sandbox", 'p', .nothing), ("line-length", 'l', .something),
    ("follow-symlinks", 'p', .nothing)]⟩

def filesOf (is : List Instruction) : List Octets :=
  (is.filterMap fun i => match i.action with
    | .write file | .writeLine file => some file
    | .substitute sub => sub.file?
    | _ => none).eraseDups

def inputLines (lineEnd : Char) (file content : Octets) : List InputLine :=
  let parts := Text.split lineEnd content
  parts.dropLast.map (⟨·, true, file⟩) ++
    ((parts.getLast?.filter (!·.isEmpty)).map (⟨·, false, file⟩)).toList

/-- The text that tells how to call the program. -/
def help : Octets :=
  oct "Usage: sed [OPTION]... \x7bscript-only-if-no-other-script\x7d [input-file]...\n\n"

/-- The part of the script that a fault is in, counted from one, and the place in it. -/
def placeOf : Nat → Nat → List Octets → Nat × Nat
  | n, place, part :: next :: parts =>
    if place ≤ part.length then (n, place) else placeOf (n + 1) (place - part.length - 1) (next :: parts)
  | n, place, _ => (n, place)

def sayFault (scripts : List Octets) (fault : Fault) : Act Nat := do
  let whole := List.intercalate ['\n'] scripts
  let (n, place) := match fault.left? with
    | some left => placeOf 1 (whole.length - left) scripts
    | none => (scripts.length, 0)
  say "sed" (oct ("-e expression #" ++ toString n ++ ", char " ++ toString place ++ ": ") ++
    fault.message)
  return 1

/-- Whether an empty expression is used with none before it. -/
def lacksRegex : List Instruction → Bool
  | [] => false
  | i :: is =>
    let patterns := ([i.first?, i.second?].filterMap fun
      | some (.like p) => some p
      | _ => none) ++ (match i.action with
        | .substitute sub => [sub.pattern]
        | _ => [])
    match patterns with
    | p :: _ => p.regex?.isNone
    | [] => lacksRegex is

/-- Edit some lines, and leave what the commands write into files there. -/
def edit (g : Setting) (hold : Octets) (input : List InputLine) (written : List (Octets × Octets)) :
    Nat × State :=
  let start : State :=
    ⟨[], hold, 0, true, [], input, [], false, [], none, [], false, written, []⟩
  if input.isEmpty then (0, start)
  else (runLines g (2 * input.length + maxSteps) false).run start

def store (name content : Octets) : Act (Option FileFault) :=
  change fun fs => do fs.writeAt (← fs.resolve (path name)) content.toBytes

/-- Edit a file in its place, and keep what it was before if a suffix is given. -/
def editInPlace (g : Setting) (suffix : Octets) (written : List (Octets × Octets)) (name : Octets) :
    Act (Nat × List (Octets × Octets) × Bool) := do
  let fs ← files
  match fs.find true (path name) with
  | .error fault =>
    say "sed" (oct "can't read " ++ name ++ oct (": " ++ fault.message))
    return (2, written, false)
  | .ok (l, _) =>
    match fs.isFileAt l, fs.contentAt? l with
    | true, some bytes =>
      let content := Octets.ofBytes bytes
      let (status, s) := edit g [] (inputLines g.lineEnd name content) written
      unless suffix.isEmpty do
        let backup :=
          if suffix.contains '*' then suffix.flatMap fun c => if c = '*' then lastPart name else [c]
          else lastPart name ++ suffix
        let backup := if name.contains '/' ∧ !backup.contains '/' then
          inDirectory (leadingPart name) backup else backup
        let _ ← store backup content
      let _ ← store name s.output
      return (status, s.written, true)
    | _, _ =>
      say "sed" (oct "couldn't edit " ++ name ++ oct ": not a regular file")
      return (4, written, false)

def readAll (names : List Octets) (lineEnd : Char) : Act (List (List InputLine) × Nat) := do
  let mut found : List (List InputLine) := []
  let mut status := 0
  for name in names do
    match ← input name with
    | .ok content => found := found ++ [inputLines lineEnd name content]
    | .error .isDirectory =>
      say "sed" (oct "read error on " ++ name ++ oct ": Is a directory")
      status := 4
    | .error fault =>
      say "sed" (oct "can't read " ++ name ++ oct (": " ++ fault.message))
      status := max status 2
  return (found, status)

/-- Edit texts one by one. -/
def editEach (g : Setting) : List (List InputLine) → List (Octets × Octets) →
    Act (Nat × List (Octets × Octets))
  | [], written => return (0, written)
  | input :: inputs, written => do
    let (status, s) := edit g [] input written
    write 1 s.output
    if status = 0 then editEach g inputs s.written else return (status, s.written)

def run (given : Given) (scripts names : List Octets) : Act Nat := do
  let extended := given.has 'E' || given.has 'r'
  let whole := List.intercalate ['\n'] scripts
  match script extended whole with
  | .error fault => sayFault scripts fault
  | .ok is =>
    match missingLabel? is with
    | some name =>
      say "sed" (oct "can't find label for jump to \x60" ++ name ++ ['\''])
      return 4
    | none =>
      if lacksRegex is then return ← sayFault scripts ⟨oct "no previous regular expression", none⟩
      let fs ← files
      let contentOf (name : Octets) : Option Octets :=
        (fs.content? (path name)).map Octets.ofBytes
      let silent := whole = ['#', 'n'] || (whole.take 3) = ['#', 'n', '\n']
      let lineEnd := if given.has 'z' then '\x00' else '\n'
      let g : Setting := ⟨is.toArray, given.has 'n' || silent, lineEnd, contentOf⟩
      let start := (filesOf is).map fun name => (name, ([] : Octets))
      let (status, written) ← if given.has 'i' then do
          let mut status := 0
          let mut written := start
          for name in names do
            let (n, w, _) ← editInPlace g ((given.argument? 'i').getD []) written name
            status := max status n
            written := w
          pure (status, written)
        else do
          let (inputs, fault) ← readAll (if names.isEmpty then [['-']] else names) lineEnd
          let inputs := if given.has 's' then inputs else [inputs.flatten]
          let (status, written) ← editEach g inputs start
          pure (if status = 0 then fault else status, written)
      for (name, content) in written do
        unless name = oct "/dev/stdout" do
          let _ ← store name content
      return status

def sed : Tool := fun words => do
  match options.read true (sizeOf words) words with
  | .error e =>
    say "sed" e
    write 2 help
    return 1
  | .ok given =>
    let mut scripts : List Octets := []
    for (letter, text) in given.options do
      if letter = 'e' then scripts := scripts ++ [text]
      else if letter = 'f' then
        match ← input text with
        | .ok content =>
          let content := if content.getLast? = some '\n' then content.dropLast else content
          scripts := scripts ++ [content]
        | .error fault =>
          say "sed" (oct "couldn't open file " ++ text ++ oct (": " ++ fault.message))
          return 4
    let explicit := given.has 'e' || given.has 'f'
    match explicit, given.operands with
    | true, names => go given scripts names
    | false, text :: names => go given [text] names
    | false, [] =>
      write 2 help
      return 1
where
  go (given : Given) (scripts names : List Octets) : Act Nat := do
    if given.has 'i' && names.isEmpty then
      say "sed" (oct "no input files")
      return 1
    else run given scripts names

end MakeConfig.Tool.Edit
