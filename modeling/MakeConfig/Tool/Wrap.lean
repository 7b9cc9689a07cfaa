import MakeConfig.Shell.Pattern
import MakeConfig.Tool.Columns

/-! # Tools that call others

Tools that run a command that is among their words: with another environment, once for every few words
of the input, or for the files that are found. How a command is run is up to the caller.
-/

namespace MakeConfig.Tool

open Text Shell Act

/-- Run the program that some words name, if there is one. -/
abbrev Caller := List Octets → Act (Except FileFault Nat)

variable (call : Caller)

/-- Run a command, and complain in the name of another one if it cannot be run. -/
def callFor (program : String) (words : List Octets) : Act Nat := do
  match ← call words with
  | .ok status => return status
  | .error fault =>
    let name := words.head?.getD []
    let shown := match program with
      | "xargs" => shown name
      | "timeout" | "nohup" => oct "failed to run command " ++ quoted name
      | _ => quoted name
    sayFault program shown fault
    return if fault = .missing ∨ fault = .notDirectory then 127 else 126

/-! ## env -/

def envOptions : Options :=
  ⟨"iu:0C:", [("ignore-environment", 'i', .nothing), ("unset", 'u', .something),
    ("null", '0', .nothing), ("chdir", 'C', .something)]⟩

def exports : Act (List (Octets × Octets)) := do
  return (← context).bindings.filterMap fun (name, v) =>
    if v.exported then v.value?.map fun value => (name, value) else none

def exportAs (name value : Octets) : Act Unit := setVariable name (some ⟨some value, true, false⟩)

/-- The settings at the head of some words, and the words after them. -/
def settings : List Octets → List (Octets × Octets) × List Octets
  | [] => ([], [])
  | w :: ws =>
    match Text.splitOnce? '=' w with
    | some (name, value) =>
      let (more, rest) := settings ws
      ((name, value) :: more, rest)
    | none => ([], w :: ws)

def env : Tool := fun words => do
  let words := if words.head? = some ['-'] then ['-', 'i'] :: words.drop 1 else words
  match envOptions.read false (sizeOf words) words with
  | .error e => usage "env" e 125
  | .ok g => apart do
    if g.has 'i' then
      changeContext fun c => { c with bindings := c.bindings.filter fun v => !v.2.exported }
    for (letter, name) in g.options do
      if letter = 'u' then setVariable name none
    match g.argument? 'C' with
    | none => pure ()
    | some directory =>
      let fs ← files
      match fs.find true (path directory) with
      | .ok (l, .directory) => setFiles { fs with workingDirectory := path (textOf l) }
      | result =>
        let fault := match result with
          | .error fault => fault
          | .ok _ => .notDirectory
        sayFault "env" (oct "cannot change directory to " ++ quoted directory) fault
        return 125
    let (given, command) := settings g.operands
    for (name, value) in given do exportAs name value
    if command.isEmpty then
      for (name, value) in ← exports do write 1 (name ++ '=' :: value ++ ['\n'])
      return 0
    else callFor call "env" command

def printenv : Tool := reading "printenv" ⟨"0", [("null", '0', .nothing)]⟩ 2 fun g => do
  let all ← exports
  if g.operands.isEmpty then
    for (name, value) in all do write 1 (name ++ '=' :: value ++ ['\n'])
    return 0
  else
    let mut good := true
    for name in g.operands do
      match all.lookup name with
      | some value => write 1 (value ++ ['\n'])
      | none => good := false
    return statusOf good

/-- A decimal number with a letter for a unit of time. -/
def isDuration (text : Octets) : Bool :=
  let digits := if (text.getLast?.map fun c => "smhd".toList.contains c).getD false then text.dropLast
    else text
  match Print.leadingDecimal? digits with
  | some (_, _, []) => true
  | _ => false

def timeoutOptions : Options :=
  ⟨"k:s:v", [("preserve-status", 'p', .nothing), ("foreground", 'f', .nothing),
    ("kill-after", 'k', .something), ("signal", 's', .something)]⟩

/-- Run a command. None takes too long. -/
def timeout : Tool := fun words => do
  match timeoutOptions.read false (sizeOf words) words with
  | .error e => usage "timeout" e 125
  | .ok g =>
    match g.operands with
    | duration :: w :: ws =>
      if isDuration duration then callFor call "timeout" (w :: ws)
      else usage "timeout" (oct "invalid time interval " ++ cited duration) 125
    | _ =>
      write 2 (oct "Try 'timeout --help' for more information.\n")
      return 125

def nice : Tool := fun words => do
  match ({ letters := "n:", longs := [("adjustment", 'n', .something)] } : Options).read false
      (sizeOf words) words with
  | .error e => usage "nice" e 125
  | .ok g =>
    match g.operands with
    | [] =>
      print "0\n"
      return 0
    | command => callFor call "nice" command

def nohup : Tool := fun words => do
  match words with
  | [] => usage "nohup" (oct "missing operand") 125
  | command => callFor call "nohup" command

/-! ## xargs -/

def xargsOptions : Options :=
  ⟨"0a:d:E:I:i::L:l::n:oP:prs:tx", [("null", '0', .nothing), ("arg-file", 'a', .something),
    ("delimiter", 'd', .something), ("replace", 'i', .maybe), ("max-lines", 'L', .something),
    ("max-args", 'n', .something), ("no-run-if-empty", 'r', .nothing), ("verbose", 't', .nothing),
    ("max-procs", 'P', .something), ("max-chars", 's', .something)]⟩

/-- The words of a line and whether a quote in it is not closed. -/
def wordsOf : Nat → Option Octets → Octets → List Octets × Option Char
  | 0, word?, _ | _, word?, [] => (word?.toList, none)
  | fuel + 1, word?, c :: cs =>
    let word := word?.getD []
    if c = '\'' ∨ c = '"' then
      let inside := cs.takeWhile (· != c)
      if inside.length = cs.length then ([], some c)
      else wordsOf fuel (some (word ++ inside)) (cs.drop (inside.length + 1))
    else if c = '\\' then
      match cs with
      | d :: cs => wordsOf fuel (some (word ++ [d])) cs
      | [] => (word?.toList, none)
    else if c = ' ' ∨ c = '\t' ∨ c = '\n' then
      let (rest, quote?) := wordsOf fuel none cs
      (word?.toList ++ rest, quote?)
    else wordsOf fuel (some (word ++ [c])) cs

/-- A text with another one wherever a mark stands. -/
def replaceAll (mark other : Octets) : Nat → Octets → Octets
  | 0, text => text
  | _, [] => []
  | fuel + 1, c :: cs =>
    if !mark.isEmpty && mark.isPrefixOf (c :: cs) then
      other ++ replaceAll mark other fuel ((c :: cs).drop mark.length)
    else c :: replaceAll mark other fuel cs

/-- The words of the input, those of each line for themselves. -/
def inputWords (g : Given) (content : Octets) : Except Char (List (List Octets)) := do
  let whole (sep : Char) : List (List Octets) :=
    let parts := Text.split sep content
    let parts := if parts.getLast? = some [] then parts.dropLast else parts
    parts.map fun p => [p]
  if g.has '0' then return whole '\x00'
  else
    match g.argument? 'd' with
    | some d => return whole (separatorOf d)
    | none =>
      (bareLines content).mapM fun line =>
        match wordsOf (line.length + 1) none line with
        | (_, some c) => .error c
        | (ws, none) => .ok ws
where
  /-- The character that an option names. -/
  separatorOf (text : Octets) : Char :=
    match text with
    | '\\' :: cs => (Print.escape cs).1
    | c :: _ => c
    | [] => '\n'

/-- Run a command for the words that it is to have, and give the status of all runs so far. -/
def runOnce (g : Given) (status : Nat) (words : List Octets) : Act (Nat × Bool) := do
  if g.has 't' then write 2 (List.intercalate [' '] (words.map shown) ++ ['\n'])
  let null ← openStream .null
  let old? ← streamOf? 0
  connect 0 null
  let result ← thenAlways (call words) (match old? with
    | some old => connect 0 old
    | none => disconnect 0)
  match result with
  | .error fault =>
    sayFault "xargs" (shown (words.head?.getD [])) fault
    return (if fault = .missing then 127 else 126, true)
  | .ok 0 => return (status, false)
  | .ok 255 =>
    say "xargs" (words.head?.getD [] ++ oct ": exited with status 255; aborting")
    return (124, true)
  | .ok _ => return (123, false)

def runAll (g : Given) : Nat → List (List Octets) → Act Nat
  | status, [] => return status
  | status, words :: rest => do
    let (status, stop) ← runOnce call g status words
    if stop then return status else runAll g status rest

def xargs : Tool := fun words => do
  match xargsOptions.read false (sizeOf words) words with
  | .error e => usage "xargs" e 1
  | .ok g =>
    let command := if g.operands.isEmpty then [oct "echo"] else g.operands
    let content ← match g.argument? 'a' with
      | some name => do
        match ← contentOf name with
        | .ok content => pure (some content)
        | .error fault =>
          sayFault "xargs" (oct "Cannot open input file " ++ quoted name) fault
          pure none
      | none => do pure (some (← standardInput))
    match content with
    | none => return 1
    | some content =>
      let number (letter : Char) : Option Nat := (g.argument? letter).bind natural?
      let mark? := match g.argument? 'I', g.argument? 'i' with
        | some mark, _ => some mark
        | none, some [] => some (oct "\x7b\x7d")
        | none, mark? => mark?
      match mark? with
      | some mark =>
        let lines := ((bareLines content).map fun l => l.dropWhile isWhite).filter (!List.isEmpty ·)
        let lines :=
          if g.has '0' then (Text.split '\x00' content).filter (!List.isEmpty ·) else lines
        runAll call g 0 (lines.map fun line =>
          command.map fun w => replaceAll mark line (w.length + 1) w)
      | none =>
        match inputWords g content with
        | .error c =>
          let kind := if c = '\'' then "single" else "double"
          say "xargs" (oct ("unmatched " ++ kind ++ " quote; by default quotes are special to " ++
            "xargs unless you use the -0 option"))
          return 1
        | .ok lines =>
          let items := lines.flatten
          let groups :=
            match number 'n', number 'L' with
            | some n, _ => Text.chunks (max n 1) items
            | none, some n =>
              let lines := lines.filter (!List.isEmpty ·)
              (Text.chunks (max n 1) lines).map List.flatten
            | none, none => if items.isEmpty then [] else [items]
          if groups.isEmpty then
            if g.has 'r' then return 0 else runAll call g 0 [command]
          else runAll call g 0 (groups.map (command ++ ·))

/-! ## find -/

/-- What a file is asked, and what is done about it. -/
inductive Query where
  | name (glob : List Glob) (ignoreCase whole : Bool)
  | type (letters : Octets)
  | empty
  | size (sign? : Option Char) (n : Nat) (unit : Nat)
  | newer (other : Octets)
  | const (b : Bool)
  | print (last : Char)
  | run (words : List Octets)
  | gather (words : List Octets)
  | delete
  | prune
  | quit
  | not (q : Query)
  | and (a b : Query)
  | or (a b : Query)

instance : Inhabited Query := ⟨.const true⟩

namespace Query

/-- Whether anything is done, so that the names need not be printed. -/
def acts : Query → Bool
  | .print _ | .run _ | .gather _ | .delete | .quit => true
  | .not q => q.acts
  | .and a b | .or a b => a.acts || b.acts
  | _ => false

def deletes : Query → Bool
  | .delete => true
  | .not q => q.deletes
  | .and a b | .or a b => a.deletes || b.deletes
  | _ => false

end Query

/-- How deep to look. -/
structure Depths where
  least : Nat
  most? : Option Nat
  bottomUp : Bool

/-- Reading takes words from the front. A fault ends all. -/
abbrev QueryReading := StateT (List Octets × Depths) (Except Octets)

def globOf (text : Octets) : List Glob := Glob.ofText (text.map fun c => (c, false))

def missingArgument {α : Type} (name : String) : QueryReading α :=
  throw (oct ("missing argument to \x60" ++ name ++ "'"))

def takeArgument (name : String) : QueryReading Octets := do
  match ← get with
  | (w :: ws, d) =>
    set (ws, d)
    return w
  | ([], _) => missingArgument name

/-- The words of a command up to its end, and whether it takes all names at once. -/
def commandWords : List Octets → Option (List Octets × Bool × List Octets)
  | [] => none
  | w :: ws =>
    if w = [';'] then some ([], false, ws)
    else if w = ['\x7b', '\x7d'] ∧ ws.head? = some ['+'] then some ([], true, ws.drop 1)
    else (commandWords ws).map fun (words, all, rest) => (w :: words, all, rest)

def sizeQuery (text : Octets) : Query :=
  let (sign?, text) := match text with
    | '+' :: cs => (some '+', cs)
    | '-' :: cs => (some '-', cs)
    | cs => (none, cs)
  let n := (Numeral.digitsFrom? 10 0 (text.takeWhile Char.isDigit)).getD 0
  let unit := match text.getLast? with
    | some 'c' => 1
    | some 'w' => 2
    | some 'k' => 1024
    | some 'M' => 1048576
    | _ => 512
  .size sign? n unit

mutual

def queryPrimary : Nat → QueryReading Query
  | 0 => throw (oct "too many words")
  | fuel + 1 => do
    match ← get with
    | ([], _) => throw (oct "expected an expression")
    | (w :: ws, d) =>
      set (ws, d)
      let name := String.ofList w
      match name with
      | "(" =>
        let q ← queryEither fuel
        let _ ← takeArgument "("
        return q
      | "!" | "-not" => return .not (← queryPrimary fuel)
      | "-name" => return .name (globOf (← takeArgument name)) false false
      | "-iname" => return .name (globOf ((← takeArgument name).map Char.toLower)) true false
      | "-path" | "-wholename" => return .name (globOf (← takeArgument name)) false true
      | "-ipath" => return .name (globOf ((← takeArgument name).map Char.toLower)) true true
      | "-type" => return .type (← takeArgument name)
      | "-empty" => return .empty
      | "-size" => return sizeQuery (← takeArgument name)
      | "-newer" => return .newer (← takeArgument name)
      | "-true" | "-follow" | "-xdev" | "-mount" => return .const true
      | "-false" => return .const false
      | "-print" => return .print '\n'
      | "-print0" => return .print '\x00'
      | "-delete" =>
        modify fun (ws, d) => (ws, { d with bottomUp := true })
        return .delete
      | "-depth" =>
        modify fun (ws, d) => (ws, { d with bottomUp := true })
        return .const true
      | "-prune" => return .prune
      | "-quit" => return .quit
      | "-maxdepth" =>
        let n ← takeArgument name
        modify fun (ws, d) => (ws, { d with most? := natural? n })
        return .const true
      | "-mindepth" =>
        let n ← takeArgument name
        modify fun (ws, d) => (ws, { d with least := (natural? n).getD 0 })
        return .const true
      | "-exec" | "-execdir" | "-ok" =>
        match commandWords ws with
        | none => missingArgument name
        | some (words, all, rest) =>
          set (rest, d)
          return if all then .gather words else .run words
      | _ =>
        if w.head? = some '-' then throw (oct "unknown predicate \x60" ++ w ++ ['\''])
        else throw (oct "paths must precede expression: \x60" ++ w ++ ['\''])

def queryBoth : Nat → QueryReading Query
  | 0 => throw (oct "too many words")
  | fuel + 1 => do
    let first ← queryPrimary fuel
    match ← get with
    | (w :: ws, d) =>
      if w = oct "-a" ∨ w = oct "-and" then
        set (ws, d)
        return .and first (← queryBoth fuel)
      else if w = oct "-o" ∨ w = oct "-or" ∨ w = [')'] then return first
      else return .and first (← queryBoth fuel)
    | ([], _) => return first

def queryEither : Nat → QueryReading Query
  | 0 => throw (oct "too many words")
  | fuel + 1 => do
    let first ← queryBoth fuel
    match ← get with
    | (w :: ws, d) =>
      if w = oct "-o" ∨ w = oct "-or" then
        set (ws, d)
        return .or first (← queryEither fuel)
      else return first
    | ([], _) => return first

end

/-- What goes on during a search. -/
structure Progress where
  pruned : Bool
  stopped : Bool
  gathered : List Octets
  good : Bool

abbrev Searching := StateT Progress Act

def nameParts (name : Octets) (ignoreCase whole : Bool) : Octets :=
  let text := if whole then name else lastPart name
  if ignoreCase then text.map Char.toLower else text

/-- Ask about an entry, and do what is to be done. -/
def ask (name : Octets) (l : Location) (e : FileEntry) : Query → Searching Bool
  | .name glob ignoreCase whole => return Glob.agrees glob (nameParts name ignoreCase whole)
  | .type letters =>
    return letters.any fun c => match e with
      | .directory => c == 'd'
      | .file .. => c == 'f'
      | .link _ => c == 'l'
      | .device _ => c == 'c'
  | .empty => do
    let fs ← (files : Act FileSystem)
    return match e with
      | .directory => (fs.namesAt l).isEmpty
      | .file content _ => content.size == 0
      | _ => false
  | .size sign? n unit =>
    let bytes := match e with
      | .file content _ => content.size
      | _ => 4096
    let units := (bytes + unit - 1) / unit
    return match sign? with
      | some '+' => n < units
      | some _ => units < n
      | none => units == n
  | .newer other => do
    let fs ← (files : Act FileSystem)
    let age (place : Location) : Nat := fs.entries.findIdx fun e => e.1 = place
    return ((fs.locate? (path other)).map fun o => decide (age o < age l)).getD false
  | .const b => return b
  | .print last => do
    (write 1 (name ++ [last]) : Act Unit)
    return true
  | .run words => do
    let words := words.map fun w => replaceAll ['\x7b', '\x7d'] name (w.length + 1) w
    let status ← (callFor call "find" words : Act Nat)
    return status == 0
  | .gather _ => do
    modify fun s => { s with gathered := s.gathered ++ [name] }
    return true
  | .delete => do
    let fs ← (files : Act FileSystem)
    if name = ['.'] then return true
    else if FileEntry.isDirectory (some e) && !(fs.namesAt l).isEmpty then
      (sayFault "find" (oct "cannot delete " ++ quoted name) .notEmpty : Act Unit)
      modify fun s => { s with good := false }
      return false
    else
      (setFiles (fs.removeAt l) : Act Unit)
      return true
  | .prune => do
    modify fun s => { s with pruned := true }
    return true
  | .quit => do
    modify fun s => { s with stopped := true }
    return true
  | .not q => return !(← ask name l e q)
  | .and a b => do if ← ask name l e a then ask name l e b else return false
  | .or a b => do if ← ask name l e a then return true else ask name l e b

/-- Look at an entry and at those below it. -/
def visit (q : Query) (d : Depths) : Nat → Nat → Octets → Location → Searching Unit
  | 0, _, _, _ => pure ()
  | fuel + 1, depth, name, l => do
    if (← get).stopped then return
    let fs ← (files : Act FileSystem)
    match fs.entryAt? l with
    | none => pure ()
    | some e =>
      let here : Searching Unit := do
        unless depth < d.least || (← get).stopped do
          let _ ← ask call name l e q
      modify fun s => { s with pruned := false }
      unless d.bottomUp do here
      let pruned := (← get).pruned
      let deeper := !pruned && (d.most?.map fun m => decide (depth < m)).getD true
      if FileEntry.isDirectory (some e) && deeper then
        for n in fs.namesAt l do
          visit q d fuel (depth + 1) (inDirectory name (oct n)) (l ++ [n])
      if d.bottomUp then here

def gatherings : Query → List (List Octets)
  | .gather words => [words]
  | .not q => gatherings q
  | .and a b | .or a b => gatherings a ++ gatherings b
  | _ => []

def isQueryWord (w : Octets) : Bool :=
  w == ['('] || w == ['!'] || (w.head? == some '-' && w.length > 1)

def find : Tool := fun words => do
  let words := words.dropWhile fun w => w == oct "-L" || w == oct "-P" || w == oct "-H"
  let starts := words.takeWhile (!isQueryWord ·)
  let rest := words.drop starts.length
  let starts := if starts.isEmpty then [['.']] else starts
  let read : Except Octets (Query × List Octets × Depths) :=
    if rest.isEmpty then .ok (.print '\n', [], ⟨0, none, false⟩)
    else (queryEither (8 * rest.length + 8)).run (rest, ⟨0, none, false⟩)
  match read with
  | .error text =>
    say "find" text
    return 1
  | .ok (q, _ :: _, _) =>
    let _ := q
    say "find" (oct "invalid expression; you have used a binary operator with nothing before it.")
    return 1
  | .ok (q, [], d) =>
    let q := if q.acts then q else .and q (.print '\n')
    let mut search : Progress := ⟨false, false, [], true⟩
    for start in starts do
      let fs ← files
      let depth := (fs.entries.map fun e => e.1.length).foldl max 0 + 2
      match fs.find false (path start) with
      | .error fault =>
        sayFault "find" (quoted start) fault
        search := { search with good := false }
      | .ok (l, _) =>
        let (_, next) ← (visit call q d depth 0 start l).run search
        search := next
    let mut good := search.good
    for words in gatherings q do
      unless search.gathered.isEmpty do
        if (← callFor call "find" (words ++ search.gathered)) ≠ 0 then good := false
    return statusOf good

end MakeConfig.Tool
