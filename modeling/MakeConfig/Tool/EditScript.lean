import MakeConfig.Shell.Print
import MakeConfig.Text.RegexSyntax
import MakeConfig.Tool.Lines

/-! # Scripts of the stream editor

The commands of `sed` as a script gives them: the lines that they are for and what they do. Reading
stops at the first fault, with the place where it is found.
-/

namespace MakeConfig.Tool.Edit

open Text

/-- An expression with its flags. An empty one is the one that was used last. -/
structure Pattern where
  regex? : Option Regex
  mode : Regex.Mode

inductive Address where
  | line (n : Nat)
  | every (first step : Nat)
  | last
  | like (p : Pattern)
  /-- So many lines behind the first address. -/
  | ahead (n : Nat)
  /-- The next line with a number that is a multiple. -/
  | multiple (n : Nat)

/-- How letters are changed in a replacement. -/
inductive Casing where
  | upper
  | lower
  | nextUpper
  | nextLower
  | stop

inductive Part where
  | char (c : Char)
  | group (n : Nat)
  | casing (c : Casing)

structure Substitution where
  pattern : Pattern
  parts : List Part
  everywhere : Bool
  print : Bool
  count : Nat
  file? : Option Octets

inductive Action where
  | begin
  | finish
  | label (name : Octets)
  | jump (label : Octets)
  | jumpIf (replaced : Bool) (label : Octets)
  | append (text : Octets)
  | insert (text : Octets)
  | change (text : Octets)
  | delete
  | deleteLine
  | getHold
  | appendHold
  | hold
  | holdMore
  | exchange
  | next
  | nextMore
  | print
  | printLine
  | number
  | list
  | name
  | clear
  | quit (print : Bool) (status : Nat)
  | read (file : Octets)
  | readLine (file : Octets)
  | write (file : Octets)
  | writeLine (file : Octets)
  | substitute (s : Substitution)
  | translate (table : List (Char × Char))

structure Instruction where
  first? : Option Address
  second? : Option Address
  negated : Bool
  action : Action

/-- What is wrong with a script, and how much of it was left. -/
structure Fault where
  message : Octets
  left? : Option Nat

/-- Reading takes characters from the rest of a script. -/
abbrev Reading := StateT Octets (Except Fault)

def fail {α : Type} (message : String) : Reading α := do
  throw ⟨oct message, some (← get).length⟩

def peek : Reading (Option Char) := do return (← get).head?

def take : Reading (Option Char) := do
  let cs ← get
  set (cs.drop 1)
  return cs.head?

/-- Take characters of a kind. -/
def takeSpan (p : Char → Bool) : Reading Octets := do
  let cs ← get
  set (cs.dropWhile p)
  return cs.takeWhile p

def isBlank (c : Char) : Bool := c == ' ' || c == '\t'

def skipBlanks : Reading Unit := do
  let _ ← takeSpan isBlank

def number : Reading Nat := do
  return (Numeral.digitsFrom? 10 0 (← takeSpan Char.isDigit)).getD 0

/-! ## Expressions -/

/-- The text up to a delimiter, which is taken too. In an expression one inside brackets does not
count; a backslash before the delimiter goes, one before another character stays. -/
def delimited (delimiter : Char) (isRegex : Bool) : Nat → Bool → Octets → Option (Octets × Octets)
  | 0, _, _ | _, _, [] => none
  | fuel + 1, inside, c :: cs =>
    let more (text : Octets) (inside : Bool) (rest : Octets) : Option (Octets × Octets) :=
      (delimited delimiter isRegex fuel inside rest).map fun (t, rest) => (text ++ t, rest)
    if c = delimiter ∧ !inside then some ([], cs)
    else if c = '\n' ∧ isRegex then none
    else if c = '\\' ∧ !inside then
      match cs with
      | [] => none
      | d :: rest =>
        if d = 'n' ∧ isRegex then more ['\n'] inside rest
        else if d = delimiter ∧ (isRegex ∨ d ≠ '&') then more [d] inside rest
        else more ['\\', d] inside rest
    else if c = '\\' ∧ isRegex ∧ cs.head? = some 'n' then more ['\n'] inside (cs.drop 1)
    else if isRegex ∧ c = '[' ∧ !inside then
      match cs with
      | '^' :: ']' :: rest => more ['[', '^', ']'] true rest
      | '^' :: rest => more ['[', '^'] true rest
      | ']' :: rest => more ['[', ']'] true rest
      | rest => more ['['] true rest
    else if isRegex ∧ inside ∧ c = '[' ∧ cs.head? = some ':' then
      let name := cs.takeWhile (· != ']')
      more (c :: name ++ [']']) inside (cs.drop (name.length + 1))
    else more [c] (inside && c != ']') cs

/-- Escapes of characters in an expression, which no operator is made of. -/
def withoutEscapes : Nat → Octets → Octets
  | 0, cs => cs
  | _, [] => []
  | fuel + 1, c :: cs =>
    if c ≠ '\\' then c :: withoutEscapes fuel cs
    else
      match cs with
      | 't' :: rest => '\t' :: withoutEscapes fuel rest
      | 'f' :: rest => '\x0c' :: withoutEscapes fuel rest
      | 'v' :: rest => '\x0b' :: withoutEscapes fuel rest
      | 'a' :: rest => '\x07' :: withoutEscapes fuel rest
      | 'r' :: rest => '\r' :: withoutEscapes fuel rest
      | 'x' :: a :: b :: rest =>
        match Numeral.digits? 16 [a, b] with
        | some n => Char.ofNat n :: withoutEscapes fuel rest
        | none => '\\' :: 'x' :: withoutEscapes fuel (a :: b :: rest)
      | d :: rest => '\\' :: d :: withoutEscapes fuel rest
      | [] => ['\\']

variable (extended : Bool)

/-- An expression with the flags after it, and how many groups it has. -/
def pattern (text : Octets) (mode : Regex.Mode) : Reading (Pattern × Nat) := do
  if text.isEmpty then return (⟨none, mode⟩, 9)
  else
    match Regex.ofText extended (withoutEscapes text.length text) with
    | .ok (r, groups) => return (⟨some r, mode⟩, groups)
    | .error fault => fail fault.message

def unterminated {α : Type} (message : String) : Reading α := do
  set ([] : Octets)
  fail message

/-- An address in slashes, after the first one. -/
def likeAddress (delimiter : Char) : Reading Address := do
  let cs ← get
  match delimited delimiter true (cs.length + 1) false cs with
  | none => unterminated "unterminated address regex"
  | some (text, rest) =>
    set rest
    let flags ← takeSpan fun c => c == 'I' || c == 'M'
    return .like (← pattern extended text ⟨flags.contains 'I', flags.contains 'M'⟩).1

def address? : Reading (Option Address) := do
  match ← peek with
  | some '/' =>
    let _ ← take
    return some (← likeAddress extended '/')
  | some '\\' =>
    let _ ← take
    match ← take with
    | some c => return some (← likeAddress extended c)
    | none => fail "unterminated address regex"
  | some '$' =>
    let _ ← take
    return some .last
  | some c =>
    if c.isDigit then
      let n ← number
      skipBlanks
      if (← peek) = some '~' then
        let _ ← take
        return some (.every n (← number))
      else return some (.line n)
    else return none
  | none => return none

/-- The second address after a comma. -/
def secondAddress : Reading Address := do
  match ← peek with
  | some '+' =>
    let _ ← take
    return .ahead (← number)
  | some '~' =>
    let _ ← take
    return .multiple (← number)
  | _ =>
    match ← address? extended with
    | some a => return a
    | none => fail "unexpected \x60,'"

/-! ## Replacements -/

/-- The parts of a replacement. -/
def parts : Nat → Octets → List Part
  | 0, _ | _, [] => []
  | fuel + 1, c :: cs =>
    if c = '&' then .group 0 :: parts fuel cs
    else if c ≠ '\\' then .char c :: parts fuel cs
    else
      match cs with
      | [] => [.char '\\']
      | d :: rest =>
        if d.isDigit then .group (d.toNat - '0'.toNat) :: parts fuel rest
        else
          match d with
          | 'U' => .casing .upper :: parts fuel rest
          | 'L' => .casing .lower :: parts fuel rest
          | 'u' => .casing .nextUpper :: parts fuel rest
          | 'l' => .casing .nextLower :: parts fuel rest
          | 'E' => .casing .stop :: parts fuel rest
          | 'n' => .char '\n' :: parts fuel rest
          | 't' => .char '\t' :: parts fuel rest
          | 'f' => .char '\x0c' :: parts fuel rest
          | 'v' => .char '\x0b' :: parts fuel rest
          | 'a' => .char '\x07' :: parts fuel rest
          | 'r' => .char '\r' :: parts fuel rest
          | 'x' =>
            match Numeral.digits? 16 (rest.take 2) with
            | some n => .char (Char.ofNat n) :: parts fuel (rest.drop 2)
            | none => .char 'x' :: parts fuel rest
          | d => .char d :: parts fuel rest

/-- The name of a file up to the end of a line. -/
def fileName : Reading Octets := do
  skipBlanks
  let name ← takeSpan (· != '\n')
  if name.isEmpty then fail "missing filename in r/R/w/W commands" else return name

structure Flags where
  everywhere : Bool
  print : Bool
  count? : Option Nat
  ignoreCase : Bool
  multiline : Bool
  file? : Option Octets

/-- The flags of a substitution. -/
def flags : Nat → Flags → Reading Flags
  | 0, f => return f
  | fuel + 1, f => do
    match ← peek with
    | none => return f
    | some c =>
      if c = '}' ∨ c = '#' ∨ c = ';' ∨ c = '\n' then return f
      else if c.isDigit then
        let n ← number
        if f.count?.isSome then fail "multiple number options to \x60s' command"
        else if n = 0 then fail "number option to \x60s' command may not be zero"
        else flags fuel { f with count? := some n }
      else
        let _ ← take
        match c with
        | ' ' | '\t' | '\r' => flags fuel f
        | 'g' =>
          if f.everywhere then fail "multiple \x60g' options to \x60s' command"
          else flags fuel { f with everywhere := true }
        | 'p' =>
          if f.print then fail "multiple \x60p' options to \x60s' command"
          else flags fuel { f with print := true }
        | 'i' | 'I' => flags fuel { f with ignoreCase := true }
        | 'm' | 'M' => flags fuel { f with multiline := true }
        | 'e' => flags fuel f
        | 'w' => return { f with file? := some (← fileName) }
        | _ => fail "unknown option to \x60s'"

def substitution : Reading Action := do
  let bad {α : Type} : Reading α := unterminated "unterminated \x60s' command"
  match ← take with
  | none => bad
  | some delimiter =>
    let cs ← get
    match delimited delimiter true (cs.length + 1) false cs with
    | none => bad
    | some (text, cs) =>
      match delimited delimiter false (cs.length + 1) false cs with
      | none => bad
      | some (replacement, cs) =>
        set cs
        let f ← flags (cs.length + 1) ⟨false, false, none, false, false, none⟩
        let (p, groups) ← pattern extended text ⟨f.ignoreCase, f.multiline⟩
        let ps := parts (replacement.length + 1) replacement
        let highest := (ps.map fun
          | .group n => n
          | _ => 0).foldl max 0
        if highest > groups then
          fail ("invalid reference \\" ++ toString highest ++ " on \x60s' command's RHS")
        else return .substitute ⟨p, ps, f.everywhere, f.print, f.count?.getD 1, f.file?⟩

/-- The characters of a table, with its escapes taken out. -/
def tableChars (delimiter : Char) : Octets → Octets
  | [] => []
  | '\\' :: c :: cs =>
    (if c = 'n' then ['\n'] else if c = 't' then ['\t'] else if c = '\\' ∨ c = delimiter then [c]
      else ['\\', c]) ++ tableChars delimiter cs
  | c :: cs => c :: tableChars delimiter cs

def readTable : Reading Action := do
  let bad {α : Type} : Reading α := unterminated "unterminated \x60y' command"
  match ← take with
  | none => bad
  | some delimiter =>
    let cs ← get
    match delimited delimiter false (cs.length + 1) false cs with
    | none => bad
    | some (source, cs) =>
      match delimited delimiter false (cs.length + 1) false cs with
      | none => bad
      | some (target, cs) =>
        set cs
        let source := tableChars delimiter source
        let target := tableChars delimiter target
        if source.length = target.length then return .translate (source.zip target)
        else fail "strings for \x60y' command are different lengths"

/-! ## Texts and labels -/

/-- A text up to a line end that has no backslash, without the backslashes. -/
def textFrom : Nat → Octets → Octets × Octets
  | 0, cs => ([], cs)
  | _, [] => ([], [])
  | fuel + 1, c :: cs =>
    let more (c : Char) (rest : Octets) : Octets × Octets :=
      let (text, rest) := textFrom fuel rest
      (c :: text, rest)
    if c = '\n' then ([], cs)
    else if c = '\\' then
      match cs with
      | [] => ([], [])
      | 't' :: rest => more '\t' rest
      | d :: rest => more d rest
    else more c cs

/-- The text of a command that adds lines. -/
def addedText : Reading Octets := do
  skipBlanks
  match ← peek with
  | none => fail "expected \\ after \x60a', \x60c' or \x60i'"
  | some '\\' =>
    let _ ← take
    let cs ← get
    match cs.dropWhile isBlank with
    | '\n' :: rest => set rest
    | _ => pure ()
  | some _ => pure ()
  let cs ← get
  let (text, rest) := textFrom (cs.length + 1) cs
  set rest
  return if cs.isEmpty then [] else text ++ ['\n']

def labelName : Reading Octets := do
  skipBlanks
  takeSpan fun c => c != '\n' && c != ';' && !isBlank c

/-! ## Commands -/

/-- Nothing may follow a command on its line but the end of a block or another command. -/
def ending : Reading Unit := do
  skipBlanks
  match ← peek with
  | none | some '}' | some '#' => pure ()
  | some c =>
    let _ ← take
    unless c = ';' ∨ c = '\n' do fail "extra characters after command"

def exitStatus : Reading Nat := do
  skipBlanks
  number

/-- The action of a command letter. -/
def action (c : Char) : Reading Action := do
  let simple (a : Action) : Reading Action := do
    ending
    return a
  match c with
  | '{' => return .begin
  | 's' => do
    let a ← substitution extended
    ending
    return a
  | 'y' => do
    let a ← readTable
    ending
    return a
  | 'a' => return .append (← addedText)
  | 'i' => return .insert (← addedText)
  | 'c' => return .change (← addedText)
  | ':' => do
    let name ← labelName
    if name.isEmpty then fail "\":\" lacks a label" else simple (.label name)
  | 'b' => do simple (.jump (← labelName))
  | 't' => do simple (.jumpIf true (← labelName))
  | 'T' => do simple (.jumpIf false (← labelName))
  | 'r' => return .read (← fileName)
  | 'R' => return .readLine (← fileName)
  | 'w' => return .write (← fileName)
  | 'W' => return .writeLine (← fileName)
  | 'q' => do
    let n ← exitStatus
    simple (.quit true n)
  | 'Q' => do
    let n ← exitStatus
    simple (.quit false n)
  | 'l' => do
    let _ ← exitStatus
    simple .list
  | 'd' => simple .delete
  | 'D' => simple .deleteLine
  | 'g' => simple .getHold
  | 'G' => simple .appendHold
  | 'h' => simple .hold
  | 'H' => simple .holdMore
  | 'x' => simple .exchange
  | 'n' => simple .next
  | 'N' => simple .nextMore
  | 'p' => simple .print
  | 'P' => simple .printLine
  | '=' => simple .number
  | 'F' => simple .name
  | 'z' => simple .clear
  | 'v' => do
    let _ ← labelName
    simple (.label [])
  | c => fail (String.ofList ("unknown command: \x60".toList ++ [c, '\'']))

/-- An address that is no line before the first one is allowed as the first of two only. -/
def checkAddresses (first? second? : Option Address) (c : Char) : Reading Unit := do
  match first?, second? with
  | some (.line 0), some (.like _) => pure ()
  | some (.line 0), _ => fail "invalid usage of line address 0"
  | some _, some _ =>
    if c = 'q' ∨ c = 'Q' then fail "command only uses one address"
    else if c = ':' then fail ": doesn't want any addresses"
  | some _, none =>
    if c = ':' then fail ": doesn't want any addresses"
  | none, _ => pure ()

/-- The instructions of a script, with so many blocks open. -/
def instructions : Nat → Nat → Reading (List Instruction)
  | 0, _ => return []
  | fuel + 1, depth => do
    let _ ← takeSpan fun c => isBlank c || c == ';' || c == '\n'
    match ← peek with
    | none =>
      if depth > 0 then throw ⟨oct "unmatched \x60\x7b'", none⟩ else return []
    | some '#' =>
      let _ ← takeSpan (· != '\n')
      instructions fuel depth
    | some '}' =>
      let _ ← take
      if depth = 0 then fail "unexpected \x60\x7d'"
      else
        ending
        return ⟨none, none, false, .finish⟩ :: (← instructions fuel (depth - 1))
    | some _ =>
      let first? ← address? extended
      skipBlanks
      let second? ← match first?, ← peek with
        | some _, some ',' => do
          let _ ← take
          skipBlanks
          pure (some (← secondAddress extended))
        | _, _ => pure none
      skipBlanks
      let bangs ← takeSpan fun c => c == '!' || isBlank c
      if bangs.countP (· == '!') > 1 then fail "multiple \x60!'s"
      match ← take with
      | none => fail "missing command"
      | some c =>
        checkAddresses first? second? c
        let a ← action extended c
        let i : Instruction := ⟨first?, second?, bangs.contains '!', a⟩
        let depth := match a with
          | .begin => depth + 1
          | _ => depth
        return i :: (← instructions fuel depth)

/-- The label that is jumped to and is not there. -/
def missingLabel? (is : List Instruction) : Option Octets :=
  let labels := is.filterMap fun i => match i.action with
    | .label name => some name
    | _ => none
  let targets := is.filterMap fun i => match i.action with
    | .jump name | .jumpIf _ name => some name
    | _ => none
  targets.find? fun name => !name.isEmpty && !labels.contains name

def script (text : Octets) : Except Fault (List Instruction) :=
  ((instructions extended (text.length + 1) 0).run text).map Prod.fst

end MakeConfig.Tool.Edit
