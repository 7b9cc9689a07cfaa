import MakeConfig.Numeral.Integer
import MakeConfig.Text.Regex

/-! # Reading regular expressions

Expressions in the basic notation, in which most operators have a backslash, and in the extended
one, in which they have none. An operator with nothing before it stands for itself.
-/

namespace MakeConfig.Text.Regex

inductive Fault where
  | openBracket
  | openParenthesis
  | closeParenthesis
  | openBrace
  | badCount
  | nothingBefore
  | lastBackslash
  | badReference
  | badRange
  deriving DecidableEq

/-- What is wrong, as the reader of a notation says it. -/
def Fault.message : Fault → String
  | openBracket => "Unmatched [, [^, [:, [., or [="
  | openParenthesis => "Unmatched ( or \\("
  | closeParenthesis => "Unmatched ) or \\)"
  | openBrace => "Unmatched \\\x7b"
  | badCount => "Invalid content of \\\x7b\\\x7d"
  | nothingBefore => "Invalid preceding regular expression"
  | lastBackslash => "Trailing backslash"
  | badReference => "Invalid back reference"
  | badRange => "Invalid range end"

/-- A piece of an expression as it is written. -/
inductive Token where
  | plain (r : Regex)
  | star
  | plus
  | question
  | bar
  | leftParen
  | rightParen
  | caret
  | dollar
  | count (least : Nat) (most? : Option Nat)

def char (c : Char) : Regex := .one false [.range c c]

def wordMembers : List Member := [.named isWordChar]

/-- What a backslash before a letter stands for in both notations. -/
def escaped? (c : Char) : Option Regex :=
  match c with
  | 'w' => some (.one false wordMembers)
  | 'W' => some (.one true wordMembers)
  | 's' => some (.one false [.named fun c => c == ' ' || (9 ≤ c.toNat && c.toNat ≤ 13)])
  | 'S' => some (.one true [.named fun c => c == ' ' || (9 ≤ c.toNat && c.toNat ≤ 13)])
  | 'b' => some (.wordEdge true)
  | 'B' => some (.wordEdge false)
  | '<' => some .wordStart
  | '>' => some .wordEnd
  | '\x60' => some .textStart
  | '\'' => some .textEnd
  | c => if c.isDigit && c != '0' then some (.back (c.toNat - '0'.toNat)) else none

/-- A count after its opening brace: the bounds, and the text after the closing one. -/
def count? (extended : Bool) (cs : Octets) : Option (Nat × Option Nat × Octets) :=
  let first := cs.takeWhile Char.isDigit
  let least? := Numeral.digits? 10 first
  let finish (rest : Octets) : Option Octets :=
    match rest with
    | '}' :: rest => if extended then some rest else none
    | '\\' :: '}' :: rest => if extended then none else some rest
    | _ => none
  match cs.drop first.length with
  | ',' :: rest =>
    let second := rest.takeWhile Char.isDigit
    (finish (rest.drop second.length)).map fun rest =>
      (least?.getD 0, Numeral.digits? 10 second, rest)
  | rest =>
    least?.bind fun n => (finish rest).map fun rest => (n, some n, rest)

def isBackwards : Member → Bool
  | .range first last => last.toNat < first.toNat
  | .named _ => false

/-- The set after an opening bracket. -/
def setIn (cs : Octets) : Except Fault (Regex × Octets) :=
  let (negated, cs) := match cs with
    | '^' :: cs => (true, cs)
    | cs => (false, cs)
  let marked := cs.map fun c => (c, false)
  match CharSet.members? (cs.length + 1) true marked with
  | none => .error .openBracket
  | some (ms, rest) =>
    if ms.any isBackwards then .error .badRange else .ok (.one negated ms, rest.map Prod.fst)

/-- The tokens of a text. -/
def tokens (extended : Bool) : Nat → Octets → Except Fault (List Token)
  | 0, _ | _, [] => .ok []
  | fuel + 1, c :: cs =>
    let more (t : Token) (rest : Octets) : Except Fault (List Token) :=
      (tokens extended fuel rest).map (t :: ·)
    let operator (d : Char) (rest : Octets) : Except Fault (List Token) :=
      match d with
      | '(' => more .leftParen rest
      | ')' => more .rightParen rest
      | '|' => more .bar rest
      | '+' => more .plus rest
      | '?' => more .question rest
      | '{' =>
        match count? extended rest with
        | some (least, most?, rest) =>
          if most?.any fun most => most < least then .error .badCount
          else more (.count least most?) rest
        | none => if extended then more (.plain (char '{')) rest else .error .openBrace
      | d => more (.plain (char d)) rest
    let isOperator (d : Char) : Bool := "()|+?\x7b".toList.contains d
    match c with
    | '\\' =>
      match cs with
      | [] => .error .lastBackslash
      | d :: rest =>
        match escaped? d with
        | some r => more (.plain r) rest
        | none =>
          if isOperator d && !extended then operator d rest else more (.plain (char d)) rest
    | '.' => more (.plain .any) cs
    | '*' => more .star cs
    | '^' => more .caret cs
    | '$' => more .dollar cs
    | '[' =>
      match setIn cs with
      | .ok (r, rest) => more (.plain r) rest
      | .error fault => .error fault
    | c => if isOperator c && extended then operator c cs else more (.plain (char c)) cs

/-- Whether a caret is an anchor after the tokens before it, and a dollar sign before those after it. -/
def isAnchor (extended : Bool) (neighbour? : Option Token) : Bool :=
  extended || match neighbour? with
    | none | some .leftParen | some .rightParen | some .bar => true
    | _ => false

/-- Tokens with the carets and dollar signs that are no anchors turned into characters. -/
def settle (extended : Bool) : Option Token → List Token → List Token
  | _, [] => []
  | last?, t :: ts =>
    let afterOpening : Bool := match last? with
      | some .rightParen => false
      | last? => isAnchor extended last?
    let beforeClosing : Bool := match ts.head? with
      | some .leftParen => false
      | next? => isAnchor extended next?
    let t : Token := match t with
      | .caret => if extended || afterOpening then .caret else .plain (char '^')
      | .dollar => if extended || beforeClosing then .dollar else .plain (char '$')
      | t => t
    t :: settle extended (some t) ts

/-- A reader of tokens: those that are left, and how many groups were opened. -/
structure Reader where
  rest : List Token
  groups : Nat

abbrev Reading := StateT Reader (Except Fault)

def next? : Reading (Option Token) := do
  let r ← get
  match r.rest with
  | [] => return none
  | t :: rest =>
    set { r with rest }
    return some t

def pushBack (t : Token) : Reading Unit := modify fun r => { r with rest := t :: r.rest }

/-- Put the repetitions that come next around an expression. -/
def repetitions : Nat → Regex → Reading Regex
  | 0, r => return r
  | fuel + 1, r => do
    match ← next? with
    | some .star => repetitions fuel (.repeated 0 none r)
    | some .plus => repetitions fuel (.repeated 1 none r)
    | some .question => repetitions fuel (.repeated 0 (some 1) r)
    | some (.count least most?) => repetitions fuel (.repeated least most? r)
    | some t =>
      pushBack t
      return r
    | none => return r

variable (extended : Bool)

mutual

def readAlternatives : Nat → Nat → Reading Regex
  | 0, _ => return .empty
  | fuel + 1, depth => do
    let first ← readSequence fuel depth true
    match ← next? with
    | some .bar => return .alt first (← readAlternatives fuel depth)
    | some t =>
      pushBack t
      return first
    | none => return first

def readSequence : Nat → Nat → Bool → Reading Regex
  | 0, _, _ => return .empty
  | fuel + 1, depth, leading => do
    let follow (r : Regex) : Reading Regex := do
      let r ← repetitions fuel r
      return .seq r (← readSequence fuel depth false)
    let itself (c : Char) : Reading Regex :=
      if extended || !leading then throw .nothingBefore else follow (char c)
    match ← next? with
    | none => return .empty
    | some t =>
      match t with
      | .bar =>
        pushBack t
        return .empty
      | .rightParen =>
        if depth > 0 then
          pushBack t
          return .empty
        else throw .closeParenthesis
      | .leftParen =>
        let index := (← get).groups + 1
        modify fun r => { r with groups := index }
        let body ← readAlternatives fuel (depth + 1)
        match ← next? with
        | some .rightParen => follow (.group index body)
        | _ => throw .openParenthesis
      | .caret =>
        if extended then follow .lineStart
        else return .seq .lineStart (← readSequence fuel depth true)
      | .dollar => follow .lineEnd
      | .plain r =>
        match r with
        | .back index => if index > (← get).groups then throw .badReference else follow r
        | r => follow r
      | .star => itself '*'
      | .plus => itself '+'
      | .question => itself '?'
      | .count .. => throw .nothingBefore

end

/-- Read an expression, and tell how many groups it has. -/
def ofText (text : Octets) : Except Fault (Regex × Nat) := do
  let ts ← tokens extended text.length text
  let (r, reader) ← (readAlternatives extended (4 * ts.length + 4) 0).run
    ⟨settle extended none ts, 0⟩
  match reader.rest with
  | [] => return (r, reader.groups)
  | _ => throw .closeParenthesis

/-- An expression that matches a text itself. -/
def literal (text : Octets) : Regex := text.foldr (fun c r => .seq (char c) r) .empty

end MakeConfig.Text.Regex
