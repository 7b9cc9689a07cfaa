import MakeConfig.FileSystem
import MakeConfig.Shell.Print

/-! # Conditions

What `test` finds of its words: comparisons of texts and numbers, kinds of files, and what is made
of them with negation, conjunction, disjunction and parentheses. An operator that could be an
operand is one if that makes sense of the words.
-/

namespace MakeConfig.Shell.Condition

open Text

/-- What a word is where it stands. -/
inductive Token where
  | finish
  | operand
  | unary (name : String)
  | binary (name : String)
  | not
  | and
  | or
  | leftParen
  | rightParen
  deriving DecidableEq

def unaryNames : List String :=
  ["-r", "-w", "-x", "-e", "-f", "-d", "-c", "-b", "-p", "-u", "-g", "-k", "-s", "-t", "-z", "-n",
    "-h", "-O", "-G", "-L", "-S"]

def binaryNames : List String :=
  ["=", "!=", "<", ">", "-eq", "-ne", "-ge", "-gt", "-le", "-lt", "-nt", "-ot", "-ef"]

def operator? (word : Octets) : Option Token :=
  let name := String.ofList word
  if unaryNames.contains name then some (.unary name)
  else if binaryNames.contains name then some (.binary name)
  else
    match name with
    | "!" => some .not
    | "-a" => some .and
    | "-o" => some .or
    | "(" => some .leftParen
    | ")" => some .rightParen
    | _ => none

def isBinary (word : Octets) : Bool :=
  match operator? word with
  | some (.binary _) => true
  | _ => false

/-- What the first of some words is. -/
def token : List Octets → Token
  | [] => .finish
  | word :: rest =>
    let standsForItself : Bool := match rest with
      | [] => true
      | [_] => false
      | next :: _ => isBinary next
    match operator? word with
    | some (.unary name) => if standsForItself then .operand else .unary name
    | some .leftParen => if rest.isEmpty then .operand else .leftParen
    | some t => t
    | none => .operand

/-- The finding, or what is wrong with the words. -/
abbrev Finding := Except Octets

def fault {α : Type} (subject : Octets) (text : String) : Finding α :=
  .error (if subject.isEmpty then Octets.ofString text else subject ++ Octets.ofString (": " ++ text))

def maxInt64 : Int := 0x7FFFFFFFFFFFFFFF

def number (word : Octets) : Finding Int :=
  let (negative, cs) := Print.signed word
  let ds := cs.takeWhile Char.isDigit
  let rest := cs.drop ds.length
  let n : Int := (Numeral.digitsFrom? 10 0 ds).getD 0
  if ds.isEmpty ∨ !rest.all Print.isSpace ∨ n > maxInt64 then
    .error (Octets.ofString "Illegal number: " ++ word)
  else .ok (if negative then -n else n)

section Files

variable (fs : FileSystem)

def pathOf (word : Octets) : Path := ⟨Octets.toText word⟩

/-- The place of an entry among the others: those that were changed later stand behind. -/
def ageOf? (word : Octets) : Option Nat :=
  (fs.locate? (pathOf word)).bind fun l =>
    if (fs.entryAt? l).isSome then some (fs.entries.findIdx fun x => x.1 = l) else none

def unary (name : String) (word : Octets) : Finding Bool :=
  let p := pathOf word
  match name with
  | "-z" => .ok word.isEmpty
  | "-n" => .ok (!word.isEmpty)
  | "-t" => (number word).map fun _ => false
  | "-e" | "-r" | "-w" | "-O" | "-G" => .ok (fs.exists? p)
  | "-x" => .ok (((fs.locate? p).map fs.executableAt).getD false)
  | "-f" => .ok (fs.isFile p)
  | "-d" => .ok (fs.isDirectory p)
  | "-s" => .ok (fs.isDirectory p ||
      (fs.isFile p && ((fs.content? p).map fun c => c.size != 0).getD false))
  | "-c" => .ok (match fs.entry? p with
    | some (.device _) => true
    | _ => false)
  | "-h" | "-L" => .ok (match fs.find false p with
    | .ok (_, .link _) => true
    | _ => false)
  | _ => .ok false

def compare (f : Int → Int → Bool) (a b : Octets) : Finding Bool := do
  return f (← number a) (← number b)

def binary (name : String) (a b : Octets) : Finding Bool :=
  match name with
  | "=" => .ok (a == b)
  | "!=" => .ok (a != b)
  | "<" => .ok (a.map Char.toNat < b.map Char.toNat)
  | ">" => .ok (b.map Char.toNat < a.map Char.toNat)
  | "-eq" => compare (· == ·) a b
  | "-ne" => compare (· != ·) a b
  | "-ge" => compare (fun x y => y ≤ x) a b
  | "-gt" => compare (fun x y => y < x) a b
  | "-le" => compare (fun x y => x ≤ y) a b
  | "-lt" => compare (fun x y => x < y) a b
  | "-nt" => .ok (match ageOf? fs a, ageOf? fs b with
    | some x, some y => y < x
    | _, _ => false)
  | "-ot" => .ok (match ageOf? fs a, ageOf? fs b with
    | some x, some y => x < y
    | _, _ => false)
  | _ => .ok (match fs.locate? (pathOf a), fs.locate? (pathOf b) with
    | some l, some l' => l == l' && (fs.entryAt? l).isSome
    | _, _ => false)

/-! Each step gives the finding and the words from the last one on that it looked at. -/

mutual

def either : Nat → Token → List Octets → Finding (Bool × List Octets)
  | 0, _, ws => .ok (false, ws)
  | fuel + 1, t, ws => do
    let (first, ws) ← both fuel t ws
    if token (ws.drop 1) = .or then
      let ws := ws.drop 2
      let (rest, ws) ← either fuel (token ws) ws
      return (first || rest, ws)
    else return (first, ws)

def both : Nat → Token → List Octets → Finding (Bool × List Octets)
  | 0, _, ws => .ok (false, ws)
  | fuel + 1, t, ws => do
    let (first, ws) ← negated fuel t ws
    if token (ws.drop 1) = .and then
      let ws := ws.drop 2
      let (rest, ws) ← both fuel (token ws) ws
      return (first && rest, ws)
    else return (first, ws)

def negated : Nat → Token → List Octets → Finding (Bool × List Octets)
  | 0, _, ws => .ok (false, ws)
  | fuel + 1, t, ws => do
    if t = .not then
      let next := token (ws.drop 1)
      let ws := if next = .finish then ws else ws.drop 1
      let (b, ws) ← negated fuel next ws
      return (!b, ws)
    else primary fuel t ws

def primary : Nat → Token → List Octets → Finding (Bool × List Octets)
  | 0, _, ws => .ok (false, ws)
  | fuel + 1, t, ws => do
    match t with
    | .finish => return (false, ws)
    | .leftParen =>
      let ws := ws.drop 1
      if token ws = .rightParen then return (false, ws)
      else
        let (b, ws) ← either fuel (token ws) ws
        let ws := ws.drop 1
        if token ws = .rightParen then return (b, ws) else fault [] "closing paren expected"
    | .unary name =>
      match ws.drop 1 with
      | [] => fault name.toList "argument expected"
      | word :: rest => return (← unary fs name word, word :: rest)
    | _ =>
      match ws, token (ws.drop 1) with
      | left :: _, .binary name =>
        match ws.drop 2 with
        | [] => fault name.toList "argument expected"
        | right :: rest => return (← binary fs name left right, right :: rest)
      | word :: rest, _ => return (!word.isEmpty, word :: rest)
      | [], _ => return (false, [])

end

/-- The finding of all words, of which none may be left over. -/
def whole (t : Token) (ws : List Octets) : Finding Bool := do
  let (b, rest) ← either fs (4 * ws.length + 4) t ws
  match rest with
  | word :: _ :: _ => fault word "unexpected operator"
  | _ => return b

/-- The words with parentheses around them taken away. -/
def bare (ws : List Octets) : List Octets :=
  if ws.head? = some ['('] ∧ ws.getLast? = some [')'] then ws.dropLast.drop 1 else ws

/-- The finding of the words. Few words have a meaning that does not depend on what else they could
mean. -/
def find : Nat → Bool → List Octets → Finding Bool
  | 0, _, _ => .ok false
  | fuel + 1, negative, ws =>
    let plain (ws : List Octets) : Finding Bool := do
      return (← whole fs (token ws) ws) != negative
    let negation (ws : List Octets) : Finding Bool :=
      if bare ws ≠ ws then plain (bare ws)
      else if ws.head? = some ['!'] then find fuel true (ws.drop 1)
      else plain ws
    match ws with
    | [] => .ok negative
    | [_, op, _] =>
      if isBinary op then do return (← whole fs .operand ws) != negative else negation ws
    | [_, _, _, _] => negation ws
    | ws => plain ws

end Files

/-- The finding of the words of a command, which end with a bracket if it is named by one. -/
def test (fs : FileSystem) (name : Octets) (words : List Octets) : Finding Bool :=
  if name.head? = some '[' then
    if words.getLast? = some [']'] then find fs (words.length + 1) false words.dropLast
    else fault [] "missing ]"
  else find fs (words.length + 1) false words

end MakeConfig.Shell.Condition
