import MakeConfig.Shell.Pattern
import MakeConfig.Text.RegexSyntax
import MakeConfig.Tool.Lines

/-! # Searching lines

Lines that match one of some expressions, or those that match none: the lines themselves, the parts
that match, how many there are, or which files have them.
-/

namespace MakeConfig.Tool

open Text Shell Act

def grepOptions : Options :=
  ⟨"A:aB:bC:cEe:Ff:GHhIiLlm:noPqRrsTUvVwxyZz", [("after-context", 'A', .something),
    ("before-context", 'B', .something), ("context", 'C', .something), ("count", 'c', .nothing),
    ("extended-regexp", 'E', .nothing), ("regexp", 'e', .something),
    ("fixed-strings", 'F', .nothing), ("file", 'f', .something), ("basic-regexp", 'G', .nothing),
    ("with-filename", 'H', .nothing), ("no-filename", 'h', .nothing),
    ("ignore-case", 'i', .nothing), ("files-without-match", 'L', .nothing),
    ("files-with-matches", 'l', .nothing), ("max-count", 'm', .something),
    ("line-number", 'n', .nothing), ("only-matching", 'o', .nothing), ("quiet", 'q', .nothing),
    ("silent", 'q', .nothing), ("recursive", 'r', .nothing), ("no-messages", 's', .nothing),
    ("text", 'a', .nothing), ("invert-match", 'v', .nothing), ("word-regexp", 'w', .nothing),
    ("line-regexp", 'x', .nothing), ("null-data", 'z', .nothing), ("byte-offset", 'b', .nothing),
    ("color", '0', .maybe), ("colour", '0', .maybe), ("include", '1', .something),
    ("exclude", '2', .something), ("exclude-dir", '3', .something)]⟩

/-- How lines are compared with an expression: as parts, as words or as a whole. -/
structure Search where
  mode : Regex.Mode
  regexes : List Regex
  words : Bool
  whole : Bool

/-- The first match of an expression, in a line from a place on, that is a word. -/
def wordMatch? (s : Search) (r : Regex) (line : Octets) : Nat → Nat → Option Regex.Found
  | 0, _ => none
  | fuel + 1, place =>
    (r.find? s.mode line place).bind fun found =>
      let start := Regex.stateAt line found.start
      let stop := Regex.stateAt line found.stop
      if !start.afterWord && !stop.beforeWord then some found
      else wordMatch? s r line fuel (found.start + 1)

def Search.match? (s : Search) (line : Octets) (place : Nat) : Option Regex.Found :=
  let found := s.regexes.filterMap fun r =>
    if s.words then wordMatch? s r line (line.length + 1) place
    else r.find? s.mode line place
  found.foldl (fun best? f =>
    match best? with
    | none => some f
    | some best =>
      if f.start < best.start ∨ (f.start = best.start ∧ best.stop < f.stop) then some f
      else some best) none

/-- The parts of a line that match and are not empty. -/
def Search.parts (s : Search) (line : Octets) : Nat → Nat → List (Nat × Octets)
  | 0, _ => []
  | fuel + 1, place =>
    match s.match? line place with
    | none => []
    | some found =>
      if found.stop = found.start then s.parts line fuel (found.stop + 1)
      else (found.start, found.textOf line 0) :: s.parts line fuel found.stop

def searchOf (g : Given) (patterns : List Octets) : Except Regex.Fault Search := do
  let extended := g.last? "EFGP" == some 'E' || g.last? "EFGP" == some 'P'
  let regexes ← patterns.mapM fun p =>
    if g.last? "EFGP" = some 'F' then Except.ok (Regex.literal p)
    else (Regex.ofText extended p).map Prod.fst
  let whole := g.has 'x'
  let around (r : Regex) : Regex :=
    if whole then .seq .textStart (.seq r .textEnd) else r
  return ⟨⟨g.has 'i' || g.has 'y', false⟩, regexes.map around, g.has 'w', whole⟩

def grepFault : Regex.Fault → String
  | .openBracket => "Invalid regular expression"
  | fault => fault.message

/-- The lines of a text that are chosen, with their numbers and where they start. -/
structure Chosen where
  number : Nat
  offset : Nat
  line : Octets
  wanted : Bool

def linesWith (s : Search) (inverted : Bool) (lines : List Octets) : List Chosen :=
  (lines.foldl (fun (found, number, offset) line =>
    let wanted := (s.match? line 0).isSome != inverted
    (⟨number, offset, line, wanted⟩ :: found, number + 1, offset + line.length + 1))
    (([] : List Chosen), 1, 0)).1.reverse

/-- The lines that are chosen and so many before and after them, with marks where lines are left out. -/
def withContext (before after : Nat) (lines : List Chosen) : List (Option Chosen) :=
  let near (n : Nat) : Bool :=
    lines.any fun c => c.wanted && c.number ≤ n + before && n ≤ c.number + after
  let kept := lines.filter fun c => near c.number
  (kept.foldl (fun (shown, last) c =>
    let gap : List (Option Chosen) :=
      if (before > 0 || after > 0) && last > 0 && c.number > last + 1 then [none] else []
    (shown ++ gap ++ [some c], c.number)) (([] : List (Option Chosen)), 0)).1

/-- Only so many of the chosen lines, and what stands before the one after the last. -/
def limited (most : Nat) : List Chosen → List Chosen
  | [] => []
  | c :: cs =>
    if c.wanted then if most = 0 then [] else c :: limited (most - 1) cs
    else c :: limited most cs

/-- Search a text, and tell whether any line was chosen. -/
def grepText (g : Given) (s : Search) (named : Bool) (name content : Octets) : Act Bool := do
  let chosen := linesWith s (g.has 'v') (bareLines content)
  let chosen := match (g.argument? 'm').bind natural? with
    | some most => limited most chosen
    | none => chosen
  let wanted := chosen.filter Chosen.wanted
  let found := !wanted.isEmpty
  let label (mark : Char) : Octets := if named then name ++ [mark] else []
  let number (c : Chosen) (mark : Char) : Octets :=
    (if g.has 'n' then nat c.number ++ [mark] else [])
  if g.has 'q' then return found
  else if g.has 'l' then
    if found then write 1 (name ++ ['\n'])
  else if g.has 'L' then
    unless found do write 1 (name ++ ['\n'])
  else if g.has 'c' then write 1 (label ':' ++ nat wanted.length ++ ['\n'])
  else if content.contains '\x00' && !g.has 'a' && !g.has 'z' then
    if found then say "grep" (name ++ oct ": binary file matches")
  else if g.has 'o' then
    unless g.has 'v' do
      for c in wanted do
        for (place, part) in s.parts c.line (c.line.length + 1) 0 do
          let offset := if g.has 'b' then nat (c.offset + place) ++ [':'] else []
          write 1 (label ':' ++ number c ':' ++ offset ++ part ++ ['\n'])
  else
    let context (letter : Char) : Nat :=
      ((g.argument? letter).bind natural?).getD (((g.argument? 'C').bind natural?).getD 0)
    for c? in withContext (context 'B') (context 'A') chosen do
      match c? with
      | none => write 1 (oct "--\n")
      | some c =>
        let mark := if c.wanted then ':' else '-'
        let offset := if g.has 'b' then nat c.offset ++ [mark] else []
        write 1 (label mark ++ number c mark ++ offset ++ c.line ++ ['\n'])
  return found

/-- The files below a directory, and the name of each. -/
def filesBelow (fs : FileSystem) (name : Octets) : List Octets :=
  match fs.locate? (path name) with
  | none => []
  | some l =>
    fs.entries.filterMap fun (place, e) =>
      if l.isPrefixOf place ∧ place ≠ l then
        match e with
        | .file .. =>
          some (inDirectory name (oct ("/".intercalate (place.drop l.length))))
        | _ => none
      else none

/-- A hyphen and a number are as much context. -/
def withContextOption (words : List Octets) : List Octets :=
  words.map fun w =>
    match w with
    | '-' :: cs => if !cs.isEmpty && cs.all Char.isDigit then '-' :: 'C' :: cs else w
    | w => w

/-- Say how the tool is called. -/
def grepUsage : Act Nat := do
  write 2 (oct "Usage: grep [OPTION]... PATTERNS [FILE]...\nTry 'grep --help' for more information.\n")
  return 2

def globNames (g : Given) (letter : Char) (name : Octets) : Option Bool :=
  match (g.options.filter fun o => o.1 = letter).map Prod.snd with
  | [] => none
  | globs => some (globs.any fun text =>
    Glob.agrees (Glob.ofText (text.map fun c => (c, false))) (lastPart name))

def grepWith (extra : List Octets) : Tool := fun words => do
  let words := extra ++ withContextOption words
  match grepOptions.read true (sizeOf words) words with
  | .error e =>
    say "grep" e
    grepUsage
  | .ok g =>
    let mut given := (g.options.filter fun o => o.1 = 'e').flatMap fun o => Text.split '\n' o.2
    for (letter, name) in g.options do
      if letter = 'f' then
        match ← input name with
        | .ok content => given := given ++ bareLines content
        | .error fault =>
          sayName "grep" name fault
          return 2
    let explicit := g.has 'e' || g.has 'f'
    if !explicit && g.operands.isEmpty then return ← grepUsage
    let patterns := if explicit then given else Text.split '\n' (g.operands.head?.getD [])
    let operands := if explicit then g.operands else g.operands.drop 1
    match searchOf g patterns with
    | .error fault =>
      say "grep" (oct (grepFault fault))
      return 2
    | .ok search =>
      let recursive := g.has 'r' || g.has 'R'
      let fs ← files
      let places := if operands.isEmpty then if recursive then [['.']] else [['-']] else operands
      let isTree (name : Octets) : Bool := recursive && fs.isDirectory (path name)
      let names := places.flatMap fun name =>
        if isTree name then
          let below := filesBelow fs name
          if operands.isEmpty then below.map (·.drop 2) else below
        else [name]
      let names := names.filter fun name =>
        (globNames g '1' name).getD true && !(globNames g '2' name).getD false
      let named :=
        if g.has 'h' then false
        else g.has 'H' || places.length > 1 || places.any isTree
      let mut found := false
      let mut good := true
      for name in names do
        match ← input name with
        | .error fault =>
          unless g.has 's' do sayName "grep" name fault
          good := false
        | .ok content =>
          let label := if name = ['-'] then oct "(standard input)" else name
          if ← grepText g search named label content then found := true
      if found && (good || g.has 'q') then return 0
      else if good then return 1
      else return 2

def grep : Tool := grepWith []

end MakeConfig.Tool
