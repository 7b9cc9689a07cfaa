import MakeConfig.Toml.Scalar

/-! # TOML documents

The reader of whole documents: lines with a key and a value, headers of tables, and headers
of arrays of tables. A document that breaks a rule anywhere has no value.
-/

namespace MakeConfig.Toml

/-! ## Space between the parts -/

/-- Skip the rest of a comment. -/
def skipComment : List Char → Option (List Char)
  | [] => some []
  | c :: cs =>
    if (lineEnd? (c :: cs)).isSome then some (c :: cs)
    else if isControl c then none
    else skipComment cs

def skipSpace (cs : List Char) : List Char := cs.dropWhile isSpace

/-- Go to the end of a line on which nothing but a comment is left. -/
def endLine? (cs : List Char) : Option (List Char) :=
  match skipSpace cs with
  | [] => some []
  | '#' :: cs => do
    let cs ← skipComment cs
    if cs = [] then return [] else lineEnd? cs
  | cs => lineEnd? cs

/-- Skip white space, line ends and comments. The length of the text bounds the steps. -/
def skipLines : Nat → List Char → Option (List Char)
  | 0, _ => none
  | fuel + 1, cs =>
    match skipSpace cs with
    | [] => some []
    | c :: rest =>
      if c = '#' then (skipComment rest).bind (skipLines fuel)
      else
        match lineEnd? (c :: rest) with
        | some rest => skipLines fuel rest
        | none => some (c :: rest)

def skipAll (cs : List Char) : Option (List Char) := skipLines (cs.length + 1) cs

/-! ## Keys -/

def isKeyChar (c : Char) : Bool := c.isAlphanum || c == '_' || c == '-'

/-- One part of a key, which may be quoted on one line. -/
def readKeyPart (cs : List Char) : Option (String × List Char) :=
  match cs with
  | [] => none
  | c :: rest =>
    if isQuote c ∨ isApostrophe c then
      if (tripled? isQuote cs).isSome ∨ (tripled? isApostrophe cs).isSome then none
      else readString cs
    else
      let chars := (c :: rest).takeWhile isKeyChar
      if chars = [] then none else some (String.ofList chars, cs.drop chars.length)

/-- The most parts of a key, and the most arrays and tables in braces inside one another. -/
def maxDepth : Nat := 80

/-- Up to so many parts of a key with dots between them, and the text after the space that
follows. -/
def readParts : Nat → List Char → Option (List String × List Char)
  | 0, _ => none
  | parts + 1, cs => do
    let (part, cs) ← readKeyPart (skipSpace cs)
    match skipSpace cs with
    | '.' :: cs =>
      let (more, rest) ← readParts parts cs
      return (part :: more, rest)
    | rest => return ([part], rest)

def readKey (cs : List Char) : Option (List String × List Char) := readParts maxDepth cs

/-! ## Values -/

def isWordChar (c : Char) : Bool :=
  c.isAlphanum || c == '+' || c == '-' || c == '_' || c == '.' || c == ':'

/-- A word without quotes. A space may stand between a date and a time. -/
def readWord (cs : List Char) : Option (Toml × List Char) := do
  let word := cs.takeWhile isWordChar
  let rest := cs.drop word.length
  let longer := match rest with
    | ' ' :: c :: more =>
      if c.isDigit ∧ date? word = some [] then word ++ ' ' :: (c :: more).takeWhile isWordChar
      else word
    | _ => word
  let value ← ofWord? longer
  return (value, cs.drop longer.length)

mutual

/-- A value at the head of a text, with so many levels left for what stands in brackets or braces.
The length of the text bounds the steps. -/
def readValue : Nat → Nat → List Char → Option (Toml × List Char)
  | 0, _, _ => none
  | fuel + 1, levels, cs =>
    match cs, levels with
    | [], _ => none
    | '[' :: _, 0 | '\x7b' :: _, 0 => none
    | '[' :: cs, levels + 1 => do
      let (items, rest) ← readItems fuel levels (← skipAll cs)
      return (.array items, rest)
    | '\x7b' :: cs, levels + 1 => do
      let (entries, rest) ← readEntries fuel levels [] (← skipAll cs)
      return (.table (entriesToToml entries), rest)
    | c :: _, _ =>
      if isQuote c ∨ isApostrophe c then
        (readString cs).map fun (s, rest) => (.string s, rest)
      else readWord cs

/-- The items of an array up to its end. A comma may stand after the last one. -/
def readItems : Nat → Nat → List Char → Option (List Toml × List Char)
  | 0, _, _ => none
  | _ + 1, _, ']' :: cs => some ([], cs)
  | fuel + 1, levels, cs => do
    let (item, cs) ← readValue fuel levels cs
    match ← skipAll cs with
    | ']' :: cs => return ([item], cs)
    | ',' :: cs =>
      let (items, rest) ← readItems fuel levels (← skipAll cs)
      return (item :: items, rest)
    | _ => none

/-- The entries of a table in braces up to its end. A comma may stand after the last one, and a
line may end before and after an equals sign. -/
def readEntries : Nat → Nat → Entries → List Char → Option (Entries × List Char)
  | 0, _, _, _ => none
  | _ + 1, _, entries, '\x7d' :: cs => some (entries, cs)
  | fuel + 1, levels, entries, cs => do
    let (key, cs) ← readKey cs
    let cs ← expect? '=' (← skipAll cs)
    let (value, cs) ← readValue fuel levels (← skipAll cs)
    let (_, entries) ← addDotted key value .header entries
    match ← skipAll cs with
    | '\x7d' :: cs => return (entries, cs)
    | ',' :: cs => readEntries fuel levels entries (← skipAll cs)
    | _ => none

end

/-! ## Lines -/

/-- A document up to some line: its tables, and the header that the next lines belong to. -/
structure Progress where
  entries : Entries
  header : List String

def Progress.change (p : Progress) (grow : Growth) (path : List String) : Option Progress :=
  (inside false grow path .header p.entries).map fun (_, entries) => { p with entries }

/-- Take in a header. -/
def Progress.open (p : Progress) (key : List String) (grow : String → Growth) : Option Progress := do
  let last ← key.getLast?
  let p ← p.change (grow last) key.dropLast
  return { p with header := key }

/-- Take in a line that is not blank, and give the text after it. -/
def readLine (fuel : Nat) (p : Progress) (cs : List Char) : Option (Progress × List Char) :=
  match cs with
  | '[' :: '[' :: cs => do
    let (key, cs) ← readKey cs
    let cs ← expect? ']' (← expect? ']' cs)
    return (← p.open key addToTables, cs)
  | '[' :: cs => do
    let (key, cs) ← readKey cs
    return (← p.open key addTable, ← expect? ']' cs)
  | cs => do
    let (key, cs) ← readKey cs
    let (value, cs) ← readValue fuel maxDepth (skipSpace (← expect? '=' cs))
    return (← p.change (addDotted key value) p.header, cs)

def readDocument : Nat → Progress → List Char → Option Entries
  | 0, _, _ => none
  | fuel + 1, p, cs =>
    match skipAll cs with
    | none => none
    | some [] => some p.entries
    | some cs => do
      let (p, cs) ← readLine (cs.length + 1) p cs
      readDocument fuel p (← endLine? cs)

/-- The mark that may stand at the start of a text. -/
def withoutMark : List Char → List Char
  | c :: cs => if c.toNat = 0xFEFF then cs else c :: cs
  | [] => []

/-- The table that a whole text is. -/
def ofText? (text : String) : Option Toml :=
  let cs := withoutMark text.toList
  (readDocument (cs.length + 1) ⟨[], []⟩ cs).map fun entries => .table (entriesToToml entries)

end MakeConfig.Toml
