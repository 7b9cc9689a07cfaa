import MakeConfig.Shell.Session
import MakeConfig.Numeral.Integer
import MakeConfig.Text.Blank

/-! # Tools

What the programs that shells call have in common: how they read their options, how they show names
in complaints, and where they take their input from.
-/

namespace MakeConfig

/-- A program takes the words after its name and gives a status. -/
abbrev Tool := List Text.Octets → Shell.Act Nat

namespace Tool

open Text Shell Act

/-! ## Names in complaints -/

/-- Characters that are not for a shell to see outside quotes. -/
def isTouchy (first : Bool) (c : Char) : Bool :=
  " !\"$&()*;<=>[^|?'\\\n\r\t\x60".toList.contains c || (first && (c == '#' || c == '~'))

def isPrintable (c : Char) : Bool := 32 ≤ c.toNat && c.toNat < 127

def needsQuotes (name : Octets) : Bool :=
  let brace := name == ['\x7b'] || name == ['\x7d']
  let rest := (name.drop 1).any (isTouchy false)
  name.isEmpty || brace || (name.head?.map (isTouchy true)).getD false || rest ||
    name.any (!isPrintable ·)

/-- Characters that mean the same between double quotes as between single ones. -/
def isCalm (first : Bool) (c : Char) : Bool :=
  c.isAlphanum || " '%+,-./:]_".toList.contains c ||
    (first && (c == '#' || c == '~' || c == '\x7b' || c == '\x7d'))

def octalDigits (c : Char) : Octets :=
  let n := c.toNat
  [Char.ofNat (48 + n / 64), Char.ofNat (48 + n / 8 % 8), Char.ofNat (48 + n % 8)]

def escapeOf (c : Char) : Octets :=
  match c with
  | '\x07' => ['\\', 'a']
  | '\x08' => ['\\', 'b']
  | '\x0c' => ['\\', 'f']
  | '\n' => ['\\', 'n']
  | '\r' => ['\\', 'r']
  | '\t' => ['\\', 't']
  | '\x0b' => ['\\', 'v']
  | c => '\\' :: octalDigits c

/-- A name between single quotes, with escapes for what cannot stand there. -/
def shellQuotes (escaping : Bool) : Octets → Octets
  | [] => if escaping then ['\'', '\''] else []
  | c :: cs =>
    if !isPrintable c then
      (if escaping then [] else ['\'', '$', '\'']) ++ escapeOf c ++ shellQuotes true cs
    else if c = '\'' then
      (if escaping then ['\\', '\''] else ['\'', '\\', '\'', '\'']) ++ shellQuotes false cs
    else (if escaping then ['\'', '\''] else []) ++ c :: shellQuotes false cs

/-- A name as a shell could read it, always between quotes. -/
def quoted (name : Octets) : Octets :=
  let calm := (name.take 1).all (isCalm (name.length == 1)) && (name.drop 1).all (isCalm false)
  if name.contains '\'' && calm then '"' :: name ++ ['"']
  else '\'' :: shellQuotes false name ++ ['\'']

/-- A name as a shell could read it. -/
def shown (name : Octets) : Octets := if needsQuotes name then quoted name else name

/-- A text between quotes, with backslashes before what would not be itself. -/
def cited (text : Octets) : Octets :=
  let one (c : Char) : Octets :=
    if c = '\'' ∨ c = '\\' then ['\\', c] else if isPrintable c then [c] else escapeOf c
  '\'' :: text.flatMap one ++ ['\'']

/-! ## Complaints -/

def oct (text : String) : Octets := Octets.ofString text

/-- Print a complaint with the name of the program. -/
def say (name : String) (text : Octets) : Act Unit :=
  write 2 (oct (name ++ ": ") ++ text ++ ['\n'])

/-- Say what the fault with a file is. -/
def sayFault (name : String) (text : Octets) (fault : FileFault) : Act Unit :=
  say name (text ++ oct (": " ++ fault.message))

/-- Say where help is to be had, after a complaint. -/
def usage (name : String) (text : Octets) (status : Nat) : Act Nat := do
  say name text
  write 2 (oct ("Try '" ++ name ++ " --help' for more information.\n"))
  return status

/-! ## Options -/

/-- Whether an option has an argument. -/
inductive Takes where
  | nothing
  | something
  | maybe
  deriving DecidableEq

/-- The options that a program knows. A colon follows the letters that take an argument, two follow
those that may. Each long one stands for a letter. -/
structure Options where
  letters : String
  longs : List (String × Char × Takes)

structure Given where
  options : List (Char × Octets)
  operands : List Octets

namespace Given

def has (g : Given) (letter : Char) : Bool := g.options.any fun o => o.1 = letter

/-- The argument of an option where it was given last. -/
def argument? (g : Given) (letter : Char) : Option Octets :=
  (g.options.reverse.find? fun o => o.1 = letter).map Prod.snd

/-- Which of some options was given last. -/
def last? (g : Given) (letters : String) : Option Char :=
  (g.options.reverse.find? fun o => letters.toList.contains o.1).map Prod.fst

def add (letter : Char) (argument : Octets) (g : Given) : Given :=
  { g with options := (letter, argument) :: g.options }

end Given

namespace Options

def takes? (o : Options) (letter : Char) : Option Takes :=
  if letter = ':' then none
  else
    match o.letters.toList.dropWhile (· != letter) with
    | [] => none
    | _ :: ':' :: ':' :: _ => some .maybe
    | _ :: ':' :: _ => some .something
    | _ => some .nothing

/-- A long option by its name or by a start of it that no other one has. -/
def long (o : Options) (name : String) : Except String (String × Char × Takes) :=
  match o.longs.find? fun x => x.1 = name with
  | some x => .ok x
  | none =>
    match o.longs.filter fun x => x.1.startsWith name with
    | [x] => .ok x
    | [] => .error ("unrecognized option '--" ++ name ++ "'")
    | x :: xs =>
      if xs.all fun y => y.2 = x.2 then .ok x
      else .error ("option '--" ++ name ++ "' is ambiguous; possibilities:" ++
        String.join ((x :: xs).map fun y => " '--" ++ y.1 ++ "'"))

/-- Read the options of a word and give the rest of the words. Options may stand after operands, but
not after two hyphens. -/
def read (o : Options) (anywhere : Bool) : Nat → List Octets → Except Octets Given
  | 0, ws => .ok ⟨[], ws⟩
  | _, [] => .ok ⟨[], []⟩
  | fuel + 1, w :: ws =>
    match w with
    | ['-', '-'] => .ok ⟨[], ws⟩
    | '-' :: '-' :: text =>
      let name := String.ofList (text.takeWhile (· != '='))
      let value? := (Text.splitOnce? '=' text).map Prod.snd
      match o.long name with
      | .error e => .error (oct e)
      | .ok (full, letter, takes) =>
        match takes, value?, ws with
        | .nothing, some _, _ => .error (oct ("option '--" ++ full ++ "' doesn't allow an argument"))
        | .something, none, value :: ws => (read o anywhere fuel ws).map (.add letter value)
        | .something, none, [] => .error (oct ("option '--" ++ full ++ "' requires an argument"))
        | _, value?, ws => (read o anywhere fuel ws).map (.add letter (value?.getD []))
    | '-' :: c :: cs =>
      match o.takes? c with
      | none => .error (oct "invalid option -- '" ++ c :: ['\''])
      | some .nothing =>
        let rest := if cs.isEmpty then ws else ('-' :: cs) :: ws
        (read o anywhere fuel rest).map (.add c [])
      | some .maybe => (read o anywhere fuel ws).map (.add c cs)
      | some .something =>
        match cs, ws with
        | [], value :: ws => (read o anywhere fuel ws).map (.add c value)
        | [], [] => .error (oct "option requires an argument -- '" ++ c :: ['\''])
        | cs, ws => (read o anywhere fuel ws).map (.add c cs)
    | w =>
      if anywhere then
        (read o anywhere fuel ws).map fun g => { g with operands := w :: g.operands }
      else .ok ⟨[], w :: ws⟩

end Options

def sizeOf (words : List Octets) : Nat := words.foldl (fun n w => n + w.length + 1) 1

/-- A program that reads its options first. -/
def reading (name : String) (options : Options) (status : Nat) (run : Given → Act Nat) : Tool :=
  fun words =>
    match options.read true (sizeOf words) words with
    | .ok g => run g
    | .error e => usage name e status

/-! ## Files -/

def path (name : Octets) : Path := ⟨Octets.toText name⟩

/-- The content of a file. -/
def contentOf (name : Octets) : Act (Except FileFault Octets) := do
  let fs ← files
  return do
    let (l, entry) ← fs.find true (path name)
    if FileEntry.isDirectory (some entry) then throw .isDirectory
    return (Octets.ofBytes ((fs.contentAt? l).getD ByteArray.empty))

/-- All that is left of the standard input. -/
def standardInput : Act Octets := do
  match ← streamOf? 0 with
  | none => return []
  | some n =>
    let content ← ahead n
    advance n content.length
    return content

/-- The content of a file, or the standard input if the name is one for that. -/
def input (name : Octets) : Act (Except FileFault Octets) := do
  if name = ['-'] ∨ name = "/dev/stdin".toList then return .ok (← standardInput) else contentOf name

/-- Do something with the name and the content of each operand, the standard input if there are none.
Those that cannot be read are complained about and left out, and the answer tells if there were any. -/
def forInputs (complain : Octets → FileFault → Act Unit) (operands : List Octets)
    (act : Octets → Octets → Act Unit) : Act Bool := do
  let operands := if operands.isEmpty then [['-']] else operands
  let mut good := true
  for operand in operands do
    match ← input operand with
    | .ok content => act operand content
    | .error fault =>
      complain operand fault
      good := false
  return good

/-- The contents of the operands with their names, and whether all can be read. -/
def inputs (complain : Octets → FileFault → Act Unit) (operands : List Octets) :
    Act (List (Octets × Octets) × Bool) := do
  let operands := if operands.isEmpty then [['-']] else operands
  let mut found : List (Octets × Octets) := []
  let mut good := true
  for operand in operands do
    match ← input operand with
    | .ok content => found := found ++ [(operand, content)]
    | .error fault =>
      complain operand fault
      good := false
  return (found, good)

/-- Change the files, or say why that fails. -/
def change (result : FileSystem → Except FileFault FileSystem) : Act (Option FileFault) := do
  match result (← files) with
  | .ok fs =>
    setFiles fs
    return none
  | .error fault => return some fault

def statusOf (good : Bool) : Nat := if good then 0 else 1

/-! ## Lines -/

/-- The lines of a text with their ends. -/
def linesOf (text : Octets) : List Octets :=
  let parts := Text.split '\n' text
  parts.dropLast.map (· ++ ['\n']) ++ (parts.getLast?.filter (!·.isEmpty)).toList

/-- The lines of a text without their ends. -/
def bareLines (text : Octets) : List Octets :=
  let parts := Text.split '\n' text
  if parts.getLast? = some [] then parts.dropLast else parts

def unlines (lines : List Octets) : Octets := lines.flatMap (· ++ ['\n'])

/-- Bytes in the order of their values. -/
def before (a b : Octets) : Bool := a.map Char.toNat < b.map Char.toNat

def nat (n : Nat) : Octets := (toString n).toList

def natural? (text : Octets) : Option Nat :=
  if text.all Char.isDigit then Numeral.digits? 10 text else none

end Tool

end MakeConfig
