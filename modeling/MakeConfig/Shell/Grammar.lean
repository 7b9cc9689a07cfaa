import MakeConfig.Numeral.Integer
import MakeConfig.Shell.Reader

/-! # Reading commands

The grammar of the shell language. Commands are read one line at a time, so that those before a
fault are carried out. Words hold other commands, so words and commands are read together; the
steps are bounded by the length of the text.
-/

namespace MakeConfig.Shell

open Text Reading

/-- What ends a text. -/
inductive Stop where
  | word
  | quote
  | brace
  | parentheses
  | finish
  deriving DecidableEq

/-- Where a text stands. -/
structure Place where
  stop : Stop
  quoted : Bool
  /-- Whether braces around it are to be closed. -/
  braced : Bool
  /-- Whether a dollar sign means nothing. -/
  raw : Bool

namespace Place

def word : Place := ⟨.word, false, false, false⟩

/-- The word that ends a text in place. -/
def delimiter : Place := ⟨.word, false, false, true⟩

/-- Whether a backslash takes effect before a character. -/
def escapes (p : Place) (c : Char) : Bool :=
  !p.quoted || c == '\\' || c == backquote || c == '$' ||
    (c == '"' && (p.stop != .finish || p.braced)) || (c == '}' && p.braced)

/-- The fault of a text that does not end. -/
def fault (p : Place) : Option String :=
  match p.stop with
  | .word | .finish => none
  | .quote => some "Unterminated quoted string"
  | .brace => some (if p.quoted then "Unterminated quoted string" else "Missing '\x7d'")
  | .parentheses => some "Missing '))'"

end Place

def special? : Char → Option Parameter
  | '@' => some .each
  | '*' => some .joined
  | '#' => some .count
  | '?' => some .status
  | '-' => some .flags
  | '$' => some .process
  | '!' => some .background
  | c => if c.isDigit then some (.position (c.toNat - '0'.toNat)) else none

/-- The longest text of characters of a kind. -/
def takeWhileIs (p : Char → Bool) : Nat → Reading Octets
  | 0 => return []
  | fuel + 1 => do
    match ← peek with
    | none => return []
    | some c =>
      if p c then
        let _ ← take
        return c :: (← takeWhileIs p fuel)
      else return []

/-- The rest of a text between single quotes. -/
def singleQuoted : Nat → Reading Word
  | 0 => throw "Unterminated quoted string"
  | fuel + 1 => do
    match ← takeAny with
    | none => throw "Unterminated quoted string"
    | some '\'' => return []
    | some c => return .char c true :: (← singleQuoted fuel)

/-- The text of a command between backquotes, without the backslashes that take effect there. -/
def backquoted (quoted : Bool) : Nat → Reading Octets
  | 0 => throw "EOF in backquote substitution"
  | fuel + 1 => do
    match ← take with
    | none => throw "EOF in backquote substitution"
    | some '\\' =>
      match ← take with
      | none => throw "EOF in backquote substitution"
      | some c =>
        if c = '\\' ∨ c = backquote ∨ c = '$' ∨ (quoted ∧ c = '"') then
          return c :: (← backquoted quoted fuel)
        else return '\\' :: c :: (← backquoted quoted fuel)
    | some c =>
      if c = backquote then return []
      else return c :: (← backquoted quoted fuel)

/-- The use of a parameter that a character begins, if it begins one. -/
def useOf? (emptyToo : Bool) : Char → Option Use
  | '-' => some (.default emptyToo)
  | '=' => some (.assign emptyToo)
  | '?' => some (.demand emptyToo)
  | '+' => some (.alternative emptyToo)
  | _ => none

/-- What stands between braces before the word, and whether a word follows. A character that means
nothing there is taken all the same. -/
def readUse : Reading (Use × Bool) := do
  match ← peek with
  | some '}' =>
    let _ ← take
    return (.plain, false)
  | some ':' =>
    let _ ← take
    let c? ← take
    if c? = some '}' then return (.plain, true)
    else return ((c?.bind (useOf? true)).getD .unknown, true)
  | some '%' =>
    let _ ← take
    return (.trim .back (← takeIf '%'), true)
  | some '#' =>
    let _ ← take
    return (.trim .front (← takeIf '#'), true)
  | c? =>
    let _ ← take
    return ((c?.bind (useOf? false)).getD .unknown, true)

/-- A parameter by its name or its number. -/
def namedParameter? (fuel : Nat) : Reading (Option Parameter) := do
  match ← peek with
  | none => return none
  | some c =>
    if isNameStart c then return some (.name (← takeWhileIs isNameChar fuel))
    else if c.isDigit then
      let digits ← takeWhileIs Char.isDigit fuel
      return some (.position ((Numeral.digits? 10 digits).getD 0))
    else return none

/-- A parameter after an opening brace, what is done with it, and whether a word follows. After a number
sign, one that is closed right away is asked for its length. -/
def readParameter (fuel : Nat) : Reading (Parameter × Use × Bool) := do
  match ← namedParameter? fuel with
  | some p => withUse p
  | none =>
    match ← peek with
    | some '#' =>
      let _ ← take
      match ← namedParameter? fuel with
      | some p => return if ← takeIf '}' then (p, .length, false) else (p, .unknown, true)
      | none =>
        let r ← get
        match ← take, ← peek with
        | some c, some '}' =>
          if c = '}' then
            set r
            withUse .count
          else
            let _ ← take
            match special? c with
            | some p => return (p, .length, false)
            | none => return (.count, .unknown, false)
        | _, _ =>
          set r
          withUse .count
    | some c =>
      match special? c with
      | some p =>
        let _ ← take
        withUse p
      | none => return (.count, .unknown, true)
    | none => return (.count, .unknown, true)
where
  withUse (p : Parameter) : Reading (Parameter × Use × Bool) := do
    let (u, more) ← readUse
    return (p, u, more)

/-- A word that gives a variable a value, with the name of the variable. -/
def assignment? (w : Word) : Option (Octets × Word) :=
  go [] w
where
  go (name : Octets) : Word → Option (Octets × Word)
    | .char c false :: rest =>
      if c = '=' then if isName name.reverse then some (name.reverse, rest) else none
      else go (c :: name) rest
    | _ => none

/-- Commands that a function may not be named like. -/
def specialCommands : List String :=
  [".", ":", "break", "continue", "eval", "exec", "exit", "export", "readonly", "return", "set",
    "shift", "times", "trap", "unset"]

/-- One command after another. -/
def follow : Command → Command → Command
  | .nothing, second => second
  | first, second => .joined .always first second

mutual

/-- The text at a place up to its end. Between double quotes inside braces, a quote turns those
inside on and off; between parentheses, those that are open are counted. -/
def readText : Nat → Place → Bool → Nat → Reading Word
  | 0, _, _, _ => throw "text too long"
  | fuel + 1, place, inner, depth => do
    match ← peek with
    | none =>
      match place.fault with
      | some fault => throw fault
      | none => return []
    | some c =>
      let literal : Reading Word := do
        let _ ← take
        return .char c place.quoted :: (← readText fuel place inner depth)
      if place.stop = .word ∧ isMeta c then return []
      else if c = '\\' then
        let _ ← take
        match ← takeAny with
        | none => return .char '\\' true :: (← readText fuel place inner depth)
        | some d =>
          let rest ← readText fuel place inner depth
          if place.escapes d then return .char d true :: rest
          else return .char '\\' true :: .char d true :: rest
      else if c = '\'' then
        if place.quoted then literal
        else
          let _ ← takeAny
          let inside ← singleQuoted fuel
          return .quotes :: inside ++ (← readText fuel place inner depth)
      else if c = '"' then
        match place.stop, place.quoted with
        | .quote, _ =>
          let _ ← take
          return []
        | .brace, true =>
          let _ ← take
          return .quotes :: (← readText fuel place (!inner) depth)
        | _, true => literal
        | _, false =>
          let _ ← take
          let inside ← readText fuel { place with stop := .quote, quoted := true } false 0
          let rest ← readText fuel place inner depth
          match inside with
          | [.parameter .each .plain _ _] => return inside ++ rest
          | _ => return .quotes :: inside ++ rest
      else if c = '$' ∧ !place.raw then
        let _ ← take
        let segment ← readDollar fuel place.quoted
        return segment :: (← readText fuel place inner depth)
      else if c = backquote ∧ !place.raw then
        let _ ← take
        let text ← backquoted place.quoted fuel
        let body ← readInside fuel text
        return .command body place.quoted :: (← readText fuel place inner depth)
      else if c = '}' ∧ place.stop = .brace ∧ !inner then
        let _ ← take
        return []
      else if c = '(' ∧ place.stop = .parentheses then
        let _ ← take
        return .char c true :: (← readText fuel place inner (depth + 1))
      else if c = ')' ∧ place.stop = .parentheses then
        let _ ← take
        if depth > 0 then return .char c true :: (← readText fuel place inner (depth - 1))
        else if ← takeIf ')' then return []
        else return .char c true :: (← readText fuel place inner depth)
      else literal

/-- What follows a dollar sign. -/
def readDollar : Nat → Bool → Reading Segment
  | 0, _ => throw "text too long"
  | fuel + 1, quoted => do
    match ← peek with
    | some '(' =>
      let _ ← take
      if ← takeIf '(' then
        return .arithmetic (← readText fuel ⟨.parentheses, true, false, false⟩ false 0) quoted
      else return .command (← readNested fuel) quoted
    | some '{' =>
      let _ ← take
      let (p, use, more) ← readParameter fuel
      if more then
        let quotedWord := match use with
          | .trim .. => false
          | _ => quoted
        let word ← readText fuel ⟨.brace, quotedWord, true, false⟩ false 0
        return .parameter p use word quoted
      else return .parameter p use [] quoted
    | some c =>
      if isNameStart c then
        return .parameter (.name (← takeWhileIs isNameChar fuel)) .plain [] quoted
      else
        match special? c with
        | some p =>
          let _ ← take
          return .parameter p .plain [] quoted
        | none => return .char '$' quoted
    | none => return .char '$' quoted

/-- Commands up to a closing parenthesis, with the tokens around them kept. -/
def readNested : Nat → Reading Command
  | 0 => throw "text too long"
  | fuel + 1 => do
    let outer ← get
    set { outer with again := false, newlines := false, keywords := false }
    let body ← readList fuel false true .nothing
    match ← nextToken fuel with
    | .rightParen => pure ()
    | t => unexpectedFor t .rightParen
    modify fun r => { outer with rest := r.rest, line := r.line, skipped := r.skipped }
    return body

/-- Commands in a text of their own. -/
def readInside : Nat → Octets → Reading Command
  | 0, _ => throw "text too long"
  | fuel + 1, text => do
    let outer ← get
    set { outer with rest := text, again := false, newlines := false, keywords := false }
    let body ← readList fuel false true .nothing
    modify fun _ => outer
    return body

/-- A token, as it stands. -/
def readToken : Nat → Bool → Reading Token
  | 0, _ => throw "text too long"
  | fuel + 1, raw => do
    let either (c : Char) (two one : Token) : Reading Token := do
      if ← takeIf c then return two else return one
    match ← peek with
    | none => return .finish
    | some c =>
      let redirect (descriptor? : Option Nat) : Reading Token := do
        let make (usual : Nat) (opening : Opening) : Reading Token :=
          return .redirect (descriptor?.getD usual) opening false
        match ← take with
        | some '>' =>
          if ← takeIf '>' then make 1 .append
          else if ← takeIf '|' then make 1 (.output true)
          else if ← takeIf '&' then make 1 .duplicate
          else make 1 (.output false)
        | _ =>
          if ← takeIf '<' then return .redirect (descriptor?.getD 0) .here (← takeIf '-')
          else if ← takeIf '&' then make 0 .duplicate
          else if ← takeIf '>' then make 0 .both
          else make 0 .input
      match c with
      | ' ' | '\t' =>
        let _ ← take
        readToken fuel raw
      | '#' =>
        modify fun r => { r with rest := r.rest.dropWhile (· != '\n') }
        readToken fuel raw
      | '\n' =>
        let _ ← take
        return .newline
      | '&' =>
        let _ ← take
        either '&' .both .ampersand
      | '|' =>
        let _ ← take
        either '|' .either .pipe
      | ';' =>
        let _ ← take
        either ';' .branchEnd .semicolon
      | '(' =>
        let _ ← take
        return .leftParen
      | ')' =>
        let _ ← take
        return .rightParen
      | '<' | '>' => redirect none
      | c =>
        if c.isDigit then
          let start ← get
          let _ ← take
          match ← peek with
          | some '<' | some '>' => return ← redirect (some (c.toNat - '0'.toNat))
          | _ => set start
        let place := if raw then Place.delimiter else Place.word
        return .word (← readText fuel place false 0)

/-- Tokens up to one that is no line end. -/
def skipLineEnds : Nat → Token → Reading Token
  | 0, _ => throw "text too long"
  | fuel + 1, t => do
    match t with
    | .newline => skipLineEnds fuel (← readToken fuel false)
    | t => return t

/-- The next token, or the last one again. -/
def nextToken : Nat → Reading Token
  | 0 => throw "text too long"
  | fuel + 1 => do
    let r ← get
    set { r with again := false, newlines := false, keywords := false }
    let t ← if r.again then pure r.token else readToken fuel false
    let t ← if r.newlines then skipLineEnds fuel t else pure t
    let t := if r.keywords then t.withKeyword else t
    modify fun r => { r with token := t }
    return t

/-- The commands of a line, or those up to a token that ends them. Inside other commands line ends
go on; there may be none after those that are done if `mayEnd` says so. -/
def readList : Nat → Bool → Bool → Command → Reading Command
  | 0, _, _, _ => throw "text too long"
  | fuel + 1, whole, mayEnd, done => do
    expecting (!whole) true
    let t ← nextToken fuel
    match t with
    | .newline => return done
    | .finish =>
      pushBack
      return done
    | _ => pure ()
    pushBack
    if mayEnd ∧ t.endsList then return done
    let start ← line
    let c ← readAndOr fuel
    let t ← nextToken fuel
    let done := follow done (match t with
      | .ampersand => .background start c
      | _ => c)
    match t with
    | .finish =>
      pushBack
      return done
    | .newline =>
      pushBack
      readList fuel whole (!whole) done
    | .ampersand | .semicolon => readList fuel whole (!whole) done
    | t =>
      if whole then unexpected t
      else
        pushBack
        return done

def readAndOr : Nat → Reading Command
  | 0 => throw "text too long"
  | fuel + 1 => do readAndOrFrom fuel (← readPipeline fuel)

def readAndOrFrom : Nat → Command → Reading Command
  | 0, _ => throw "text too long"
  | fuel + 1, left => do
    let go (joint : Joint) : Reading Command := do
      expecting true true
      let right ← readPipeline fuel
      readAndOrFrom fuel (.joined joint left right)
    match ← nextToken fuel with
    | .both => go .onSuccess
    | .either => go .onFailure
    | _ =>
      pushBack
      return left

def readPipeline : Nat → Reading Command
  | 0 => throw "text too long"
  | fuel + 1 => do
    match ← nextToken fuel with
    | .keyword .bang =>
      expecting false true
      return .negated (← readChain fuel)
    | _ =>
      pushBack
      readChain fuel

/-- Commands with pipes between them. -/
def readChain : Nat → Reading Command
  | 0 => throw "text too long"
  | fuel + 1 => do
    let first ← readCommand fuel
    match ← readPiped fuel with
    | [] => return first
    | more => return .pipeline (first :: more)

def readPiped : Nat → Reading (List Command)
  | 0 => throw "text too long"
  | fuel + 1 => do
    match ← nextToken fuel with
    | .pipe =>
      expecting true true
      let c ← readCommand fuel
      return c :: (← readPiped fuel)
    | _ =>
      pushBack
      return []

def expectKeyword : Nat → Keyword → Reading Unit
  | 0, _ => throw "text too long"
  | fuel + 1, k => do
    match ← nextToken fuel with
    | .keyword k' => if k = k' then return else unexpectedFor (.keyword k') (.keyword k)
    | t => unexpectedFor t (.keyword k)

def readCommand : Nat → Reading Command
  | 0 => throw "text too long"
  | fuel + 1 => do
    let t ← nextToken fuel
    let start ← line
    match t with
    | .keyword .if =>
      let c ← readConditional fuel
      readRedirected fuel start c
    | .keyword .while =>
      let test ← readList fuel false false .nothing
      expectKeyword fuel .do
      let body ← readList fuel false false .nothing
      expectKeyword fuel .done
      readRedirected fuel start (.loop true test body)
    | .keyword .until =>
      let test ← readList fuel false false .nothing
      expectKeyword fuel .do
      let body ← readList fuel false false .nothing
      expectKeyword fuel .done
      readRedirected fuel start (.loop false test body)
    | .keyword .for =>
      let c ← readForEach fuel start
      readRedirected fuel start c
    | .keyword .case =>
      let c ← readChoice fuel start
      readRedirected fuel start c
    | .leftParen =>
      let body ← readList fuel false false .nothing
      match ← nextToken fuel with
      | .rightParen => pure ()
      | t => unexpectedFor t .rightParen
      readRedirected fuel start (.subshell start body)
    | .keyword .leftBrace =>
      let body ← readList fuel false false .nothing
      expectKeyword fuel .rightBrace
      readRedirected fuel start body
    | .word _ | .redirect .. =>
      pushBack
      readSimple fuel start true [] [] []
    | t => unexpected t

/-- What follows the keyword that begins a conditional, up to its end. -/
def readConditional : Nat → Reading Command
  | 0 => throw "text too long"
  | fuel + 1 => do
    let test ← readList fuel false false .nothing
    expectKeyword fuel .then
    let body ← readList fuel false false .nothing
    match ← nextToken fuel with
    | .keyword .elif => return .conditional test body (← readConditional fuel)
    | .keyword .else =>
      let other ← readList fuel false false .nothing
      expectKeyword fuel .fi
      return .conditional test body other
    | .keyword .fi => return .conditional test body .nothing
    | t => unexpectedFor t (.keyword .fi)

def readForEach : Nat → Nat → Reading Command
  | 0, _ => throw "text too long"
  | fuel + 1, start => do
    let name ← match ← nextToken fuel with
      | .word w =>
        match w.bare? with
        | some name => if isName name then pure name else throw "Bad for loop variable"
        | none => throw "Bad for loop variable"
      | _ => throw "Bad for loop variable"
    expecting true true
    let words ← match ← nextToken fuel with
      | .keyword .in => readWords fuel
      | .semicolon => pure [[.parameter .each .plain [] true]]
      | _ =>
        pushBack
        pure [[.parameter .each .plain [] true]]
    expecting true true
    expectKeyword fuel .do
    let body ← readList fuel false false .nothing
    expectKeyword fuel .done
    return .forEach start name words body

/-- Words up to the end of a line. -/
def readWords : Nat → Reading (List Word)
  | 0 => throw "text too long"
  | fuel + 1 => do
    match ← nextToken fuel with
    | .word w => return w :: (← readWords fuel)
    | .newline | .semicolon => return []
    | t => unexpected t

def readChoice : Nat → Nat → Reading Command
  | 0, _ => throw "text too long"
  | fuel + 1, start => do
    match ← nextToken fuel with
    | .word w =>
      expecting true true
      expectKeyword fuel .in
      return .choice start w (← readBranches fuel)
    | t => unexpectedFor t (.word [])

def readBranches : Nat → Reading (List (List Word × Command))
  | 0 => throw "text too long"
  | fuel + 1 => do
    expecting true true
    let t ← nextToken fuel
    match t with
    | .keyword .esac => return []
    | _ =>
      let first ← match t with
        | .leftParen => nextToken fuel
        | t => pure t
      let patterns ← readPatterns fuel first
      let body ← readList fuel false true .nothing
      expecting true true
      match ← nextToken fuel with
      | .keyword .esac => return [(patterns, body)]
      | .branchEnd => return (patterns, body) :: (← readBranches fuel)
      | t => unexpectedFor t .branchEnd

/-- The patterns of a branch, from its first token on. -/
def readPatterns : Nat → Token → Reading (List Word)
  | 0, _ => throw "text too long"
  | fuel + 1, t => do
    let w : Word ← match t with
      | .word w => pure w
      | .keyword k => pure (k.text.toList.map fun c => .char c false)
      | .finish => unexpectedFor t .rightParen
      | t => pure (t.name.toList.map fun c => .char c false)
    match ← nextToken fuel with
    | .pipe => return w :: (← readPatterns fuel (← nextToken fuel))
    | .rightParen => return [w]
    | t => unexpectedFor t .rightParen

/-- The redirections after a command that is made of others. -/
def readRedirected : Nat → Nat → Command → Reading Command
  | 0, _, _ => throw "text too long"
  | fuel + 1, start, c => do
    expecting false true
    match ← readRedirections fuel with
    | [] => return c
    | rs => return .redirected start c rs

def readRedirections : Nat → Reading (List Redirection)
  | 0 => throw "text too long"
  | fuel + 1 => do
    match ← nextToken fuel with
    | .redirect d opening dropTabs =>
      let r ← readTarget fuel d opening dropTabs
      return r :: (← readRedirections fuel)
    | _ =>
      pushBack
      return []

/-- What a redirection leads to. -/
def readTarget : Nat → Nat → Opening → Bool → Reading Redirection
  | 0, _, _, _ => throw "text too long"
  | fuel + 1, d, opening, dropTabs => do
    match opening with
    | .here =>
      match ← readToken fuel true with
      | .word w =>
        let text ← takePlace w.literal dropTabs
        if w.bare?.isSome then
          let outer ← get
          set { outer with rest := text }
          let body ← readText fuel ⟨.finish, true, false, false⟩ false 0
          set outer
          return .mk d .here body
        else return .mk d .here (text.map fun c => .char c true)
      | t => unexpected t
    | opening =>
      match ← nextToken fuel with
      | .word w => return .mk d opening w
      | t => unexpected t

/-- A command of words, or a function with its body. Assignments stand before the first word. -/
def readSimple : Nat → Nat → Bool → List (Octets × Word) → List Word → List Redirection →
    Reading Command
  | 0, _, _, _, _, _ => throw "text too long"
  | fuel + 1, start, leading, assignments, words, redirections => do
    match ← nextToken fuel with
    | .word w =>
      match if leading then assignment? w else none with
      | some a => readSimple fuel start true (assignments ++ [a]) words redirections
      | none => readSimple fuel start false assignments (words ++ [w]) redirections
    | .redirect d opening dropTabs =>
      let r ← readTarget fuel d opening dropTabs
      readSimple fuel start leading assignments words (redirections ++ [r])
    | .leftParen =>
      match assignments, words, redirections with
      | [], [w], [] =>
        match ← nextToken fuel with
        | .rightParen => pure ()
        | t => unexpectedFor t .rightParen
        match w.bare? with
        | some name =>
          if isName name ∧ !specialCommands.contains (String.ofList name) then
            expecting true true
            return .function name (← readCommand fuel)
          else throw "Bad function name"
        | none => throw "Bad function name"
      | _, _, _ =>
        pushBack
        return .simple start assignments words redirections
    | _ =>
      pushBack
      return .simple start assignments words redirections

end

/-- What a text holds next: commands, perhaps none, with whether the text ends after them. -/
def Reader.readLine (r : Reader) : Except String Command × Reader :=
  (readList (16 * r.rest.length + 256) true false .nothing).run r

def Reader.atEnd (r : Reader) : Bool :=
  match r.again, r.token with
  | true, .finish => true
  | _, _ => false

end MakeConfig.Shell
