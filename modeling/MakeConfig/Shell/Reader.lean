import MakeConfig.Shell.Syntax
import MakeConfig.Text.Blank

/-! # Tokens and the text they are read from

What the reader of commands keeps in mind: the text that is left, the line it stands on, and the
last token, which it may look at once more. A backslash before a line end joins two lines
wherever it is not inside single quotes.
-/

namespace MakeConfig.Shell

open Text

inductive Keyword where
  | bang
  | case
  | do
  | done
  | elif
  | else
  | esac
  | fi
  | for
  | if
  | in
  | then
  | until
  | while
  | leftBrace
  | rightBrace
  deriving DecidableEq, Repr

namespace Keyword

def all : List (String × Keyword) :=
  [("!", bang), ("case", case), ("do", .do), ("done", done), ("elif", elif), ("else", .else),
    ("esac", esac), ("fi", fi), ("for", .for), ("if", .if), ("in", .in), ("then", .then),
    ("until", «until»), ("while", «while»), ("\x7b", leftBrace), ("\x7d", rightBrace)]

def ofText? (text : Octets) : Option Keyword := all.lookup (String.ofList text)

def text (k : Keyword) : String := ((all.find? fun x => x.2 = k).map Prod.fst).getD ""

/-- The keywords that can stand where a list of commands ends. -/
def endsList : Keyword → Bool
  | .do | done | elif | .else | esac | fi | .then | rightBrace => true
  | _ => false

end Keyword

inductive Token where
  | finish
  | newline
  | semicolon
  | ampersand
  | both
  | either
  | pipe
  | leftParen
  | rightParen
  | branchEnd
  /-- The start of a redirection. Tabs at the start of the lines of a text in place can be dropped. -/
  | redirect (descriptor : Nat) (opening : Opening) (dropTabs : Bool)
  | word (w : Word)
  | keyword (k : Keyword)

instance : Inhabited Token := ⟨.finish⟩

namespace Token

def name : Token → String
  | finish => "end of file"
  | newline => "newline"
  | semicolon => "\";\""
  | ampersand => "\"&\""
  | both => "\"&&\""
  | either => "\"||\""
  | pipe => "\"|\""
  | leftParen => "\"(\""
  | rightParen => "\")\""
  | branchEnd => "\";;\""
  | redirect .. => "redirection"
  | word _ => "word"
  | keyword k => "\"" ++ k.text ++ "\""

def endsList : Token → Bool
  | finish | rightParen | branchEnd => true
  | keyword k => k.endsList
  | _ => false

/-- A word that is written like a keyword, where keywords count. -/
def withKeyword : Token → Token
  | word w => ((w.bare?.bind Keyword.ofText?).map keyword).getD (word w)
  | t => t

end Token

structure Reader where
  rest : List Char
  line : Nat
  /-- Lines that were taken out of the rest of the text before the next line end. -/
  skipped : Nat
  token : Token
  /-- Whether the last token is to be read again. -/
  again : Bool
  /-- Whether the next token is the first one that is no line end. -/
  newlines : Bool
  /-- Whether the next token may be a keyword. -/
  keywords : Bool

def Reader.ofText (text : Octets) : Reader := ⟨text, 1, 0, .finish, false, false, false⟩

/-- Reading fails with what is wrong about the text. -/
abbrev Reading := ExceptT String (StateM Reader)

namespace Reading

/-- Leave out joined lines at the head of a text, and count them. -/
def withoutJoins : List Char → Nat → List Char × Nat
  | '\\' :: '\n' :: cs, n => withoutJoins cs (n + 1)
  | cs, n => (cs, n)

/-- The next character. -/
def peek : Reading (Option Char) := do
  let r ← get
  let (rest, joins) := withoutJoins r.rest 0
  set { r with rest, line := r.line + joins }
  return rest.head?

/-- Take the next character, whatever it is. -/
def takeAny : Reading (Option Char) := do
  let r ← get
  match r.rest with
  | [] => return none
  | c :: rest =>
    if c = '\n' then set { r with rest, line := r.line + 1 + r.skipped, skipped := 0 }
    else set { r with rest }
    return some c

def take : Reading (Option Char) := do
  let _ ← peek
  takeAny

/-- Take the next character if it is the given one. -/
def takeIf (c : Char) : Reading Bool := do
  if (← peek) = some c then
    let _ ← takeAny
    return true
  else return false

/-- Read the last token again. -/
def pushBack : Reading Unit := modify fun r => { r with again := true }

/-- Say where the next token stands: whether line ends before it do not count, and whether it may be
a keyword. -/
def expecting (newlines keywords : Bool) : Reading Unit :=
  modify fun r => { r with newlines, keywords }

def line : Reading Nat := do return (← get).line

def unexpected {α : Type} (t : Token) : Reading α := throw (t.name ++ " unexpected")

def unexpectedFor {α : Type} (t wanted : Token) : Reading α :=
  throw (t.name ++ " unexpected (expecting " ++ wanted.name ++ ")")

end Reading

/-! ## Texts in place -/

/-- What the characters of a line stand in. -/
inductive Quoting where
  | plain
  | single
  | double
  | comment

/-- The text up to the line end that ends a line of commands, and the text after it. -/
def splitLine (blank : Bool) : Quoting → List Char → List Char × List Char
  | _, [] => ([], [])
  | .plain, '\\' :: c :: cs => consTwo '\\' c (splitLine false .plain cs)
  | .plain, '\'' :: cs => cons '\'' (splitLine false .single cs)
  | .plain, '"' :: cs => cons '"' (splitLine false .double cs)
  | .plain, c :: cs =>
    if c = '\n' then ([], cs)
    else if c = '#' ∧ blank then cons c (splitLine false .comment cs)
    else cons c (splitLine (isMeta c) .plain cs)
  | .single, c :: cs => cons c (splitLine false (if c = '\'' then .plain else .single) cs)
  | .double, '\\' :: c :: cs => consTwo '\\' c (splitLine false .double cs)
  | .double, c :: cs => cons c (splitLine false (if c = '"' then .plain else .double) cs)
  | .comment, c :: cs => if c = '\n' then ([], cs) else cons c (splitLine false .comment cs)
where
  cons (c : Char) (parts : List Char × List Char) := (c :: parts.1, parts.2)
  consTwo (c d : Char) (parts : List Char × List Char) := (c :: d :: parts.1, parts.2)

/-- The lines up to the one that is the delimiter, the text after it, and how many lines were read. -/
def readPlace (delimiter : Octets) (dropTabs : Bool) :
    List (List Char) → List Char × List (List Char) × Nat
  | [] => ([], [], 0)
  | line :: lines =>
    let line := if dropTabs then line.dropWhile (· == '\t') else line
    if line = delimiter then ([], lines, 1)
    else if lines.isEmpty then (line, [], 0)
    else
      let (text, rest, n) := readPlace delimiter dropTabs lines
      (line ++ '\n' :: text, rest, n + 1)

/-- Take the text in place that the next line begins. -/
def Reading.takePlace (delimiter : Octets) (dropTabs : Bool) : Reading Octets := do
  let r ← get
  let (head, tail) := splitLine true .plain r.rest
  let (text, lines, n) := readPlace delimiter dropTabs (Text.split '\n' tail)
  let rest := head ++ '\n' :: List.intercalate ['\n'] lines
  set { r with rest, skipped := r.skipped + n }
  return text

end MakeConfig.Shell
