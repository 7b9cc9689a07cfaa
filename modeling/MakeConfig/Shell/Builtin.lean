import MakeConfig.Shell.Condition
import MakeConfig.Shell.Expansion

/-! # Built-in commands

The commands that a shell carries out itself and that run no other commands. They change what the
shell knows, or read and print.
-/

namespace MakeConfig.Shell

open Text Act

/-- A built-in command takes the words after its name and gives a status. -/
abbrev Builtin := List Octets → Act Nat

namespace Builtin

/-! ## Words -/

def said (text : Octets) (more : String) : Octets := text ++ Octets.ofString more

/-- A number without a sign. -/
def number (text : Octets) : Act Nat :=
  match Numeral.digits? 10 text with
  | some n => if text.all Char.isDigit then return n else illegal
  | none => illegal
where
  illegal : Act Nat := fail (Octets.ofString "Illegal number: " ++ text) 2

/-- The option letters at the head of some words, and the words after them. No letter has an
argument. -/
def letters (known : String) : List Octets → Act (List Char × List Octets)
  | [] => return ([], [])
  | w :: ws =>
    match w with
    | ['-', '-'] => return ([], ws)
    | '-' :: c :: cs => do
      match (c :: cs).find? fun c => !known.toList.contains c with
      | some c => fail (Octets.ofString "Illegal option -" ++ [c]) 2
      | none =>
        let (more, rest) ← letters known ws
        return (c :: cs ++ more, rest)
    | _ => return ([], w :: ws)

/-- A text between single quotes, its own quotes between double quotes. -/
def quoted (text : Octets) : Octets :=
  let inner := text.flatMap fun c => if c = '\'' then "'\"'\"'".toList else [c]
  '\'' :: inner ++ ['\'']

/-- The name and the value that a word gives it, if it does. -/
def splitAssignment (word : Octets) : Octets × Option Octets :=
  match Text.splitOnce? '=' word with
  | some (name, value) => (name, some value)
  | none => (word, none)

/-- Complain about a text that is no name. -/
def checkName (name : Octets) : Act Unit :=
  unless isName name do fail (said name ": bad variable name") 2

def printLine (text : Octets) : Act Unit := write 1 (text ++ ['\n'])

/-! ## The course of commands -/

def leaveLoops (again : Bool) : Builtin := fun words => do
  let n ← match words.head? with
    | some w => number w
    | none => pure 1
  if n = 0 then fail (Octets.ofString "Illegal number: " ++ words.head?.getD []) 2
  let n := min n (← context).loops
  setStatus 0
  if n = 0 then return 0
  else if again then throw (.again n)
  else throw (.leave n)

def exit : Builtin := fun words => do
  match words.head? with
  | some w => throw (.exit (← number w))
  | none => throw (.exit (← status))

def leaveFunction : Builtin := fun words => do
  let status ← match words.head? with
    | some w => number w
    | none => status
  setStatus status
  throw (.return status)

/-! ## Variables and parameters -/

def sortedVariables : Act (List (Octets × Variable)) := do
  return (← context).bindings.mergeSort fun a b => !(b.1.map Char.toNat < a.1.map Char.toNat)

def showVariables (start : String) (shown : Variable → Bool) : Act Unit := do
  for (name, v) in ← sortedVariables do
    if shown v then
      let value := match v.value? with
        | some value => '=' :: quoted value
        | none => []
      printLine (Octets.ofString start ++ name ++ value)

/-- Mark variables, and give them values. -/
def mark (start : String) (shown : Variable → Bool) (change : Variable → Variable) : Builtin :=
  fun words => do
    let (flags, words) ← letters "p" words
    if words.isEmpty ∨ flags.contains 'p' then showVariables start shown
    else
      for word in words do
        let (name, value?) := splitAssignment word
        checkName name
        match value? with
        | some value => assign name value
        | none => pure ()
        setVariable name (some (change ((← lookUp? name).getD ⟨none, false, false⟩)))
    return 0

def markLocal : Builtin := fun words => do
  if (← context).frames.isEmpty then fail (Octets.ofString "not in a function") 2
  for word in words do
    let (name, value?) := splitAssignment word
    unless name = ['-'] do
      checkName name
      remember name
      match value? with
      | some value => assign name value
      | none => pure ()
  return 0

def unset : Builtin := fun words => do
  let (flags, words) ← letters "fv" words
  for name in words do
    if flags.contains 'f' then
      changeContext fun c => { c with functions := c.functions.filter fun f => f.1 != name }
    else
      checkName name
      match ← lookUp? name with
      | some ⟨_, _, true⟩ => fail (said name ": is read only") 2
      | _ => setVariable name none
  return 0

def shift : Builtin := fun words => do
  let n ← match words.head? with
    | some w => number w
    | none => pure 1
  if n > (← context).parameters.length then fail (Octets.ofString "can't shift that many") 2
  changeContext fun c => { c with parameters := c.parameters.drop n }
  return 0

def optionNames : List (String × Char) :=
  [("errexit", 'e'), ("noglob", 'f'), ("ignoreeof", 'I'), ("interactive", 'i'), ("monitor", 'm'),
    ("noexec", 'n'), ("stdin", 's'), ("xtrace", 'x'), ("verbose", 'v'), ("vi", 'V'),
    ("emacs", 'E'), ("noclobber", 'C'), ("allexport", 'a'), ("notify", 'b'), ("nounset", 'u')]

def switch (letter : Char) (on : Bool) : Act Unit := do
  unless optionNames.any fun o => o.2 = letter do
    fail (Octets.ofString "Illegal option -" ++ [letter]) 2
  changeContext fun c =>
    let others := c.options.letters.filter (· != letter)
    { c with options := ⟨if on then letter :: others else others⟩ }

def switchNamed (name : Octets) (on : Bool) : Act Unit :=
  match optionNames.lookup (String.ofList name) with
  | some letter => switch letter on
  | none => fail (Octets.ofString "Illegal option -o " ++ name) 2

def showOptions : Act Unit := do
  print "Current option settings\n"
  for (name, letter) in optionNames do
    let padding := String.ofList (List.replicate (16 - name.length) ' ')
    print (name ++ padding ++ (if ← Act.option letter then "on" else "off") ++ "\n")

/-- Switch options at the head of some words, and give the words after them, if there are to be new
parameters. -/
def switches : List Octets → Act (Option (List Octets))
  | [] => return none
  | w :: ws => do
    match w with
    | ['-', '-'] => return some ws
    | ['-'] =>
      switch 'x' false
      switch 'v' false
      return if ws.isEmpty then none else some ws
    | sign :: letters =>
      if sign = '-' ∨ sign = '+' then
        for letter in letters do
          unless letter = 'o' do switch letter (sign == '-')
        if letters.contains 'o' then
          match ws with
          | name :: ws =>
            switchNamed name (sign == '-')
            switches ws
          | [] =>
            showOptions
            return none
        else switches ws
      else return some (w :: ws)
    | [] => return some (w :: ws)

def set : Builtin := fun words => do
  if words.isEmpty then showVariables "" fun v => v.value?.isSome
  else
    match ← switches words with
    | some parameters => changeContext fun c => { c with parameters }
    | none => pure ()
  return 0

/-! ## Directories -/

/-- The text of a path with the components that are there only to be left taken out. -/
def tidied (text : String) : String :=
  let step (names : List String) : Path.Component → List String
    | .root => []
    | .here => names
    | .up => names.dropLast
    | .name n => names ++ [n]
  "/" ++ "/".intercalate ((Path.components ⟨text⟩).foldl step [])

def moveTo (directory : Octets) : Act Unit := do
  let fs ← files
  let old := fs.workingDirectory
  let path : Path := ⟨tidied (old.join ⟨Octets.toText directory⟩).text⟩
  if directory.isEmpty then return
  if fs.isDirectory path then
    setFiles { fs with workingDirectory := path }
    let keep (name : String) (path : Path) : Act Unit := do
      let name := name.toList
      setVariable name (some ⟨some (Octets.ofString path.text), true, false⟩)
    keep "OLDPWD" old
    keep "PWD" path
  else fail (Octets.ofString "can't cd to " ++ directory) 2

def physical : Act Octets := do
  let fs ← files
  match fs.locate? fs.workingDirectory with
  | some l => return Octets.ofString ("/" ++ "/".intercalate l)
  | none => return Octets.ofString fs.workingDirectory.text

def here : Act Octets := do return Octets.ofString (← files).workingDirectory.text

def cd : Builtin := fun words => do
  let (flags, words) ← letters "LP" words
  let (directory, shown) ← match words.head? with
    | none => pure ((← value? "HOME".toList).getD [], false)
    | some ['-'] => pure ((← value? "OLDPWD".toList).getD [], true)
    | some w => pure (w, false)
  moveTo directory
  if flags.contains 'P' then
    let path : Path := ⟨Octets.toText (← physical)⟩
    setFiles { ← files with workingDirectory := path }
  if shown then printLine (← here)
  return 0

def pwd : Builtin := fun words => do
  let (flags, _) ← letters "LP" words
  printLine (← if flags.contains 'P' then physical else here)
  return 0

/-! ## Printing, reading and finding out -/

def echo : Builtin := fun words => do
  write 1 (Print.echo words)
  return 0

def printf : Builtin := fun words => do
  let words := if words.head? = some ['-', '-'] then words.drop 1 else words
  match words with
  | [] => fail (Octets.ofString "usage: printf format [arg ...]") 2
  | w :: ws =>
    if w.head? = some '-' ∧ w.length > 1 then
      fail (Octets.ofString "Illegal option -" ++ (w.drop 1).take 1) 2
    let printed := Print.format w ws
    for flaw in printed.flaws do complain flaw
    write 1 printed.text
    return printed.status

def test (name : Octets) : Builtin := fun words => do
  match Condition.test (← files) name words with
  | .ok b => return if b then 0 else 1
  | .error text => fail text 2

/-- A line of the input: its characters with whether they were quoted, and whether a line end came. -/
def lineOf (raw : Bool) : Nat → Octets → List Marked × Octets × Bool
  | 0, cs => ([], cs, false)
  | _, [] => ([], [], false)
  | fuel + 1, c :: cs =>
    let more (marked : List Marked) (rest : Octets) : List Marked × Octets × Bool :=
      let (line, rest, ended) := lineOf raw fuel rest
      (marked ++ line, rest, ended)
    if c = '\n' then ([], cs, true)
    else if c = '\x00' then more [] cs
    else if c = '\\' ∧ !raw then
      match cs with
      | '\n' :: cs => more [] cs
      | d :: cs => more [(d, true)] cs
      | [] => ([], [], false)
    else more [(c, false)] cs

def isWhite (separators : Octets) (m : Marked) : Bool :=
  !m.2 && Expansion.isWhite m.1 && separators.contains m.1

def separates (separators : Octets) (m : Marked) : Bool := !m.2 && separators.contains m.1

/-- What follows a field: white space with one other separator at most. -/
def afterField (separators : Octets) (cs : List Marked) : List Marked :=
  match cs.dropWhile (isWhite separators) with
  | m :: rest =>
    if separates separators m then rest.dropWhile (isWhite separators) else m :: rest
  | [] => []

/-- The fields of a line for so many names. The last one takes all that is left. -/
def fieldsFor (separators : Octets) : Nat → List Marked → List Octets
  | 0, _ => []
  | 1, cs =>
    let kept := (cs.reverse.dropWhile (isWhite separators)).reverse
    let first := kept.takeWhile fun m => !separates separators m
    if (afterField separators (kept.drop first.length)).isEmpty then [first.map Prod.fst]
    else [kept.map Prod.fst]
  | n + 1, cs =>
    let first := cs.takeWhile fun m => !separates separators m
    first.map Prod.fst :: fieldsFor separators n (afterField separators (cs.drop first.length))

def withoutPrompt (words : List Octets) : List Octets :=
  match words with
  | ['-', 'p'] :: _ :: rest => rest
  | ['-', 'r'] :: ['-', 'p'] :: _ :: rest => ['-', 'r'] :: rest
  | words => words

def read : Builtin := fun words => do
  let (flags, names) ← letters "r" (withoutPrompt words)
  if names.isEmpty then fail (Octets.ofString "arg count") 2
  let number? ← streamOf? 0
  let ahead ← match number? with
    | some n => Act.ahead n
    | none => pure []
  let (line, rest, ended) := lineOf (flags.contains 'r') ahead.length ahead
  match number? with
  | some n => advance n (ahead.length - rest.length)
  | none => pure ()
  let separators ← Expansion.separators
  let texts := fieldsFor separators names.length (line.dropWhile (isWhite separators))
  for (name, text) in names.zip texts do
    checkName name
    assign name text
  return if ended then 0 else 1

/-- Three digits of a mask. -/
def maskDigits (mask : Nat) : List Nat := [mask / 64 % 8, mask / 8 % 8, mask % 8]

/-- A mask as the rights that are given. -/
def rightsText (mask : Nat) : String :=
  let rights (digit : Nat) : String :=
    (if digit / 4 % 2 = 0 then "r" else "") ++ (if digit / 2 % 2 = 0 then "w" else "") ++
      (if digit % 2 = 0 then "x" else "")
  let named := ["u=", "g=", "o="].zip ((maskDigits mask).map rights)
  ",".intercalate (named.map fun (who, what) => who ++ what)

def umask : Builtin := fun words => do
  let (flags, words) ← letters "S" words
  match words with
  | [] =>
    let mask := (← context).mask
    let digits := String.join ((maskDigits mask).map toString)
    print (if flags.contains 'S' then rightsText mask ++ "\n" else "0" ++ digits ++ "\n")
  | w :: _ =>
    if (w.head?.map Char.isDigit).getD false then
      match if w.all fun c => '0' ≤ c ∧ c ≤ '7' then Numeral.digits? 8 w else none with
      | some mask => changeContext fun c => { c with mask := mask % 512 }
      | none => fail (Octets.ofString "Illegal number: " ++ w) 2
    else
      let clauses := Text.split ',' w
      unless clauses.all fun clause => clause.any fun c => c == '=' || c == '+' || c == '-' do
        fail (Octets.ofString "Illegal mode: " ++ w) 2
  return 0

def wait : Builtin := fun words => do
  let (_, words) ← letters "" words
  let mut status := 0
  for w in words do
    status := ((← context).jobs.lookup (← number w)).getD 127
  return status

/-- What acts on jobs finds none of them still going on. -/
def needsJob : Builtin := fun _ => fail (Octets.ofString "No current job") 2

def times : Builtin := fun _ => do
  print "0m0.000000s 0m0.000000s\n0m0.000000s 0m0.000000s\n"
  return 0

/-! ## Options of scripts -/

/-- What there is to learn about the next option of some words. -/
inductive NextOption where
  | none
  | unknown (letter : Char)
  | missing (letter : Char)
  | found (letter : Char) (argument : Octets)

/-- The letters that are left at a place and the words after them: those of the word before the index
if it is not used up, or else those of the word there. -/
def optionLetters (words : List Octets) (index place : Nat) : Octets × List Octets :=
  let rest := words.drop (index - 1)
  let left := if place = 0 ∨ index < 2 then [] else ((words[index - 2]?).getD []).drop place
  if !left.isEmpty then (left, rest)
  else
    match rest with
    | ['-', '-'] :: after => ([], after)
    | ('-' :: c :: cs) :: after => (c :: cs, after)
    | _ => ([], rest)

/-- The next option of some words from a place on, and the words and letters after it. A colon stands
behind the letters of which an argument is known to follow. -/
def nextOption (known : Octets) (words : List Octets) (index place : Nat) :
    NextOption × List Octets × Octets :=
  match optionLetters words index place with
  | ([], after) => (.none, after, [])
  | (c :: cs, after) =>
    match if c = ':' then [] else known.dropWhile (· != c) with
    | [] => (.unknown c, after, cs)
    | _ :: ':' :: _ =>
      match cs, after with
      | [], [] => (.missing c, [], [])
      | [], argument :: after => (.found c argument, after, [])
      | cs, after => (.found c cs, after, [])
    | _ => (.found c [], after, cs)

def getopts : Builtin := fun words => do
  match words with
  | known :: name :: given =>
    let c ← context
    let arguments := if given.isEmpty then c.parameters else given
    let index := ((← value? "OPTIND".toList).bind (Numeral.digits? 10)).getD 1
    let (option, after, left) := nextOption known arguments index c.optionPlace
    let setArgument (text? : Option Octets) : Act Unit :=
      match text? with
      | some text => assign "OPTARG".toList text
      | none => setVariable "OPTARG".toList none
    let fault (letter mark : Char) (complaint : Octets) : Act Char := do
      if known.head? = some ':' then
        setArgument (some [letter])
        return mark
      else
        write 2 (complaint ++ ['\n'])
        setArgument none
        return '?'
    let answer ← match option with
      | .none => pure '?'
      | .unknown letter => fault letter '?' (Octets.ofString "Illegal option -" ++ [letter])
      | .missing letter =>
        fault letter ':' (Octets.ofString "No arg for -" ++ [letter] ++ Octets.ofString " option")
      | .found letter argument =>
        setArgument (some argument)
        pure letter
    let index := arguments.length - after.length + 1
    assign "OPTIND".toList (toString index).toList
    let word := (arguments[index - 2]?).getD []
    changeContext fun c =>
      { c with optionPlace := if left.isEmpty then 0 else word.length - left.length }
    assign name [answer]
    return match option with
      | .none => 1
      | _ => 0
  | _ => fail (Octets.ofString "Usage: getopts optstring var [arg]") 2

/-! ## Traps -/

/-- Names of signals by their numbers. The first one is no signal, but the end of the shell. -/
def signalNames : List String :=
  ["EXIT", "HUP", "INT", "QUIT", "ILL", "TRAP", "ABRT", "BUS", "FPE", "KILL", "USR1", "SEGV",
    "USR2", "PIPE", "ALRM", "TERM", "STKFLT", "CHLD", "CONT", "STOP", "TSTP", "TTIN", "TTOU", "URG",
    "XCPU", "XFSZ", "VTALRM", "PROF", "WINCH", "IO", "PWR", "SYS"]

def maxSignal : Nat := 64

def signalNumber? (word : Octets) : Option Nat :=
  match Numeral.digits? 10 word with
  | some n => if n ≤ maxSignal then some n else none
  | none => signalNames.idxOf? (String.ofList word).toUpper

def showTraps : Act Unit := do
  let traps := (← context).traps.mergeSort fun a b => a.1 ≤ b.1
  for (n, action) in traps do
    let name := (signalNames[n]?).getD (toString n)
    printLine (Octets.ofString "trap -- " ++ quoted action ++ Octets.ofString (" " ++ name))

/-- Say what to do on signals and at the end. -/
def trap : Builtin := fun words => do
  let (_, words) ← letters "" words
  match words with
  | [] =>
    showTraps
    return 0
  | first :: rest =>
    let unsets := rest.isEmpty || (Numeral.digits? 10 first).isSome
    let (action?, signals) : Option Octets × List Octets :=
      if unsets then (none, words) else (if first = ['-'] then none else some first, rest)
    for signal in signals do
      match signalNumber? signal with
      | none =>
        write 2 (Octets.ofString "trap: " ++ signal ++ Octets.ofString ": bad trap\n")
        return 1
      | some n => changeContext fun c =>
        let others := c.traps.filter fun t => t.1 != n
        { c with traps := (action?.map fun action => (n, action)).toList ++ others }
    return 0

/-! ## All of them -/

def done (status : Nat) : Builtin := fun _ => return status

/-- The commands after which assignments before them stay, and whose faults end the shell. -/
def special : List (String × Builtin) :=
  [(":", done 0), ("break", leaveLoops false), ("continue", leaveLoops true), ("exit", exit),
    ("export", mark "export " Variable.exported fun v => { v with exported := true }),
    ("readonly", mark "readonly " Variable.constant fun v => { v with constant := true }),
    ("return", leaveFunction), ("set", set), ("shift", shift), ("times", times), ("trap", trap),
    ("unset", unset), ("local", markLocal)]

def ordinary : List (String × Builtin) :=
  [("true", done 0), ("false", done 1), ("cd", cd), ("chdir", cd), ("pwd", pwd), ("echo", echo),
    ("printf", printf), ("test", test "test".toList), ("[", test ['[']), ("read", read),
    ("umask", umask), ("wait", wait), ("getopts", getopts), ("alias", done 0),
    ("unalias", done 0), ("kill", done 0), ("jobs", done 0),
    ("ulimit", done 0), ("fg", needsJob), ("bg", needsJob)]

end Builtin

end MakeConfig.Shell
