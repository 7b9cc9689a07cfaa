import MakeConfig.Shell.Arithmetic
import MakeConfig.Shell.Pattern
import MakeConfig.Shell.Session

/-! # Expansion

What words come to: parameters, nested commands and arithmetic are replaced by their texts, what
came of them outside quotes is cut into fields at separators, and fields that are patterns stand
for the names of files that are like them. How nested commands are run is up to the caller.
-/

namespace MakeConfig.Shell.Expansion

open Text Act

/-- A part of what a word comes to. -/
inductive Piece where
  /-- A character, which separates fields or not. -/
  | char (c : Char) (quoted splits : Bool)
  /-- A field that is there even if it is empty. -/
  | quotes
  /-- The end of a field. -/
  | cut

def pieces (quoted splits : Bool) (text : Octets) : List Piece :=
  text.map fun c => .char c quoted splits

def Piece.text : Piece → Octets
  | .char c _ _ => [c]
  | .quotes => []
  | .cut => [' ']

def textOf (ps : List Piece) : Octets := ps.flatMap Piece.text

/-- The characters with whether they were quoted, for a pattern. -/
def marked (ps : List Piece) : List Marked :=
  ps.filterMap fun
    | .char c quoted _ => some (c, quoted)
    | _ => none

/-! ## Fields -/

/-- A text is being cut: the field that has begun, and whether white space has ended the last one, so
that a separator right after it does not end another one. -/
structure Cutting where
  field? : Option (List Marked)
  closed : Bool

def isWhite (c : Char) : Bool := c == ' ' || c == '\t' || c == '\n'

/-- Cut pieces into fields at separators. White space separates as much as there is of it. -/
def cut (separators : Octets) : Cutting → List Piece → List (List Marked)
  | s, [] => s.field?.toList
  | s, .quotes :: ps => cut separators { s with field? := some (s.field?.getD []) } ps
  | s, .cut :: ps => s.field?.toList ++ cut separators ⟨none, false⟩ ps
  | s, .char c quoted splits :: ps =>
    if splits ∧ separators.contains c then
      match s.field? with
      | some f => f :: cut separators ⟨none, isWhite c⟩ ps
      | none =>
        if isWhite c then cut separators s ps
        else if s.closed then cut separators ⟨none, false⟩ ps
        else [] :: cut separators ⟨none, false⟩ ps
    else cut separators { s with field? := some (s.field?.getD [] ++ [(c, quoted)]) } ps

def usualSeparators : Octets := [' ', '\t', '\n']

def separators : Act Octets := do
  match ← lookUp? "IFS".toList with
  | some v => return v.value?.getD []
  | none => return usualSeparators

/-! ## Parameters -/

def flagLetters (o : Options) : Octets := o.letters

/-- The text of a parameter, if it is set. -/
def textOf? (p : Parameter) : Act (Option Octets) := do
  let c ← context
  match p with
  | .name x => value? x
  | .position 0 => return some c.name
  | .position (n + 1) => return c.parameters[n]?
  | .each | .joined =>
    let separator := ((← separators).head?).toList
    if c.parameters.isEmpty then return none
    else return some (List.intercalate separator c.parameters)
  | .count => return some (toString c.parameters.length).toList
  | .status => return some (toString c.status).toList
  | .flags => return some (flagLetters c.options)
  | .process => return some "4242".toList
  | .background => return c.jobs.head?.map fun job => (toString job.1).toList

def nameOf : Parameter → Octets
  | .name x => x
  | .position n => (toString n).toList
  | .each => ['@']
  | .joined => ['*']
  | .count => ['#']
  | .status => ['?']
  | .flags => ['-']
  | .process => ['$']
  | .background => ['!']

def unset (p : Parameter) : Act Unit := do
  if ← option 'u' then
    match p with
    | .name _ | .position _ | .background =>
      fail (nameOf p ++ Octets.ofString ": parameter not set") 2
    | _ => pure ()

/-- Texts as fields of their own. -/
def severalFields (quoted : Bool) (texts : List Octets) : List Piece :=
  List.intercalate [.cut] (texts.map fun text =>
    (if quoted then [.quotes] else []) ++ pieces quoted (!quoted) text)

/-- Whether a parameter stands for fields of their own where fields are made. -/
def isSeveral (quoted : Bool) : Parameter → Bool
  | .each => true
  | .joined => !quoted
  | _ => false

/-- The pieces of a parameter as it is. -/
def plain (makesFields quoted : Bool) (p : Parameter) : Act (List Piece) := do
  if makesFields && isSeveral quoted p then
    return severalFields quoted (← context).parameters
  match ← textOf? p with
  | some text => return pieces quoted (!quoted) text
  | none =>
    unset p
    return []

/-! ## Arithmetic -/

def faultText (text : Octets) : Arithmetic.Fault → Octets
  | .expecting what =>
    Octets.ofString ("arithmetic expression: expecting " ++ what ++ ": \"") ++ text ++ ['"']
  | .divisionByZero =>
    Octets.ofString "arithmetic expression: division by zero: \"" ++ text ++ ['"']
  | .notNumber value => Octets.ofString "Illegal number: " ++ value

def compute (text : Octets) : Act Octets := do
  let vs := (← context).bindings
  let lookup (x : Octets) : Option Octets := (vs.lookup x).bind Variable.value?
  match (Arithmetic.read text).bind fun e => Arithmetic.evaluate lookup e [] with
  | .error fault => fail (faultText text fault) 2
  | .ok (v, changes) =>
    for (x, new) in changes.reverse do
      assign x (toString new).toList
    return (toString v).toList

/-! ## Words -/

/-- The text that nested commands print, without the line ends at its end. -/
def chomp (text : Octets) : Octets :=
  ((text.filter (· != '\x00')).reverse.dropWhile (· == '\n')).reverse

/-- The unquoted characters at the head of a text up to a slash or its end, or a colon if that counts,
and what follows them, if nothing else stands there. -/
def plainHead? (colons : Bool) : Word → Option (Octets × Word)
  | [] => some ([], [])
  | .char c quoted :: rest =>
    if c = '/' ∨ (colons ∧ c = ':') then some ([], .char c quoted :: rest)
    else if quoted then none
    else (plainHead? colons rest).map fun (name, rest) => (c :: name, rest)
  | _ :: _ => none

/-- The name after a tilde at the start of a text, and what follows it. -/
def tilde? (colons : Bool) : Word → Option (Octets × Word)
  | .char '~' false :: rest => plainHead? colons rest
  | _ => none

/-- The home directories of those that are known by their names. -/
def homes : List (String × String) := [("root", "/root")]

variable (run : Command → Act Octets)

mutual

/-- The pieces of a segment, of which fields may be made or one text. In the word of a parameter, what
stands outside quotes is cut too. -/
def segment (makesFields nested : Bool) : Segment → Act (List Piece)
  | .char c quoted => return [.char c quoted (nested && !quoted)]
  | .quotes => return [.quotes]
  | .command body quoted => do return pieces quoted (!quoted) (chomp (← run body))
  | .arithmetic text quoted => do
    let text ← segments false false text
    return pieces quoted (!quoted) (← compute (textOf text))
  | .parameter p use word quoted => do
    let value? ← textOf? p
    let missing (emptyToo : Bool) : Bool := value?.isNone || (emptyToo && value? == some [])
    match use with
    | .plain => plain makesFields quoted p
    | .length =>
      if value?.isNone then unset p
      return pieces quoted (!quoted) (toString (value?.getD []).length).toList
    | .default emptyToo =>
      if missing emptyToo then segments makesFields (!quoted) word else plain makesFields quoted p
    | .alternative emptyToo =>
      if missing emptyToo then return [] else segments makesFields (!quoted) word
    | .assign emptyToo =>
      if missing emptyToo then
        let text := textOf (← segments false false word)
        match p with
        | .name x =>
          assign x text
          return pieces quoted (!quoted) text
        | p => fail (nameOf p ++ Octets.ofString ": bad variable name") 2
      else plain makesFields quoted p
    | .demand emptyToo =>
      if missing emptyToo then
        let text := textOf (← segments false false word)
        let usual := if emptyToo then "parameter not set or null" else "parameter not set"
        fail (nameOf p ++ [':', ' '] ++ (if word.isEmpty then Octets.ofString usual else text)) 2
      else plain makesFields quoted p
    | .trim side longest =>
      if value?.isNone then unset p
      let pattern := Glob.ofText (marked (← segments false false word))
      if makesFields && isSeveral quoted p then
        let texts := (← context).parameters
        return severalFields quoted (Glob.trimAll (side == .back) longest pattern texts)
      else
        return pieces quoted (!quoted)
          (Glob.trim (side == .back) longest pattern (value?.getD []))
    | .unknown => fail (Octets.ofString "Bad substitution") 2

def segments (makesFields nested : Bool) : List Segment → Act (List Piece)
  | [] => return []
  | s :: ss => do
    let first ← segment makesFields nested s
    return first ++ (← segments makesFields nested ss)

end

/-- The home directory of a name, or of no one else, as pieces that mean nothing else. -/
def home (name : Octets) : Act (List Piece) := do
  let own ← value? "HOME".toList
  let known := (homes.lookup (String.ofList name)).map String.toList
  match if name.isEmpty then own else known with
  | some text => return pieces true false text
  | none => return pieces true false ('~' :: name)

/-- The pieces of a word, at the start of which a tilde counts. -/
def word (makesFields colons : Bool) (w : Word) : Act (List Piece) := do
  match tilde? colons w with
  | some (name, rest) => return (← home name) ++ (← segments run makesFields false rest)
  | none => segments run makesFields false w

/-- The parts of a word that end before a colon, with the colon. -/
def splitAtColons : Word → List Word
  | [] => [[]]
  | s :: ss =>
    match s, splitAtColons ss with
    | .char ':' false, parts => [s] :: parts
    | s, part :: parts => (s :: part) :: parts
    | s, [] => [[s]]

/-- The text of a value that a variable is given. A tilde counts after each colon too. -/
def valueOf (w : Word) : Act Octets := do
  let parts ← (splitAtColons w).mapM (word run false true)
  return textOf parts.flatten

/-- The text of a word that is not cut. -/
def single (w : Word) : Act Octets := do return textOf (← word run false false w)

/-- The pattern that a word is. -/
def pattern (w : Word) : Act (List Glob) := do
  return Glob.ofText (marked (← word run false false w))

/-! ## Names of files -/

def plainText (f : List Marked) : Octets := f.map Prod.fst

/-- The parts of a field between slashes. -/
def parts (f : List Marked) : List (List Marked) :=
  match f with
  | [] => [[]]
  | m :: ms =>
    if m.1 = '/' then [] :: parts ms
    else
      match parts ms with
      | p :: ps => (m :: p) :: ps
      | [] => [[m]]

def sorted (texts : List Octets) : List Octets :=
  texts.mergeSort fun a b => !(b.map Char.toNat < a.map Char.toNat)

/-- The names in a directory that are like a pattern. Those that begin with a dot need one there. -/
def namesLike (fs : FileSystem) (directory : Octets) (f : List Marked) : List Octets :=
  let gs := Glob.ofText f
  let hidden := f.head?.map Prod.fst == some '.'
  let path : Path := ⟨if directory.isEmpty then "." else Octets.toText directory⟩
  match fs.locate? path with
  | none => []
  | some l =>
    let names := (fs.namesAt l).map Octets.ofString
    let names := if hidden then [['.'], ['.', '.']] ++ names else names
    names.filter fun n => (hidden || n.head? != some '.') && Glob.agrees gs n

def present (fs : FileSystem) (text : Octets) : Bool :=
  (fs.find false ⟨Octets.toText text⟩).isOk

/-- The paths that are like the parts of a field, after what leads to them. -/
def pathsLike (fs : FileSystem) (leading : Octets) : List (List Marked) → List Octets
  | [] => []
  | [last] =>
    if Glob.isSpecial last then (namesLike fs leading last).map (leading ++ ·)
    else if present fs (leading ++ plainText last) then [leading ++ plainText last]
    else []
  | part :: rest =>
    if Glob.isSpecial part then
      ((namesLike fs leading part).filter fun n =>
        fs.isDirectory ⟨Octets.toText (leading ++ n)⟩).flatMap fun n =>
          pathsLike fs (leading ++ n ++ ['/']) rest
    else pathsLike fs (leading ++ plainText part ++ ['/']) rest

/-- What a field stands for: the files that are like it, or itself. -/
def filesFor (f : List Marked) : Act (List Octets) := do
  if Glob.isSpecial f ∧ !(← option 'f') then
    match pathsLike (← files) [] (parts f) with
    | [] => return [plainText f]
    | paths => return sorted paths
  else return [plainText f]

/-- The fields of a word. -/
def fields (w : Word) : Act (List Octets) := do
  let ps ← word run true false w
  let fs := cut (← separators) ⟨none, false⟩ ps
  return (← fs.mapM filesFor).flatten

def allFields (ws : List Word) : Act (List Octets) := do
  return (← ws.mapM (fields run)).flatten

end MakeConfig.Shell.Expansion
