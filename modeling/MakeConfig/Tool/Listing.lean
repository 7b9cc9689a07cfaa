import MakeConfig.Tool.Sort

/-! # Tools that list and compare files

Names in directories, and where two files are different.
-/

namespace MakeConfig.Tool

open Text Shell Act

/-! ## ls -/

def lsOptions : Options :=
  ⟨"1aAbBcCdFghHiklLmnNopqQrRsStTuvUxX", [("all", 'a', .nothing), ("almost-all", 'A', .nothing),
    ("directory", 'd', .nothing), ("classify", 'F', .maybe), ("recursive", 'R', .nothing),
    ("reverse", 'r', .nothing), ("human-readable", 'h', .nothing), ("size", 's', .nothing),
    ("color", 'N', .maybe), ("quote-name", 'Q', .nothing), ("dereference", 'L', .nothing)]⟩

/-- A mark for the kind of an entry. -/
def kindMark (g : Given) (fs : FileSystem) (l : Location) (e : FileEntry) : Octets :=
  if FileEntry.isDirectory (some e) then if g.has 'F' || g.has 'p' then ['/'] else []
  else if g.has 'F' then
    match e with
    | .link _ => ['@']
    | _ => if fs.executableAt l then ['*'] else []
  else []

/-- Names in the order that the options ask for. -/
def lsOrder (g : Given) (fs : FileSystem) (items : List (Octets × Location)) :
    List (Octets × Location) :=
  let size (l : Location) : Nat := ((fs.contentAt? l).map ByteArray.size).getD 4096
  let sorted := items.mergeSort fun a b => !before b.1 a.1
  let sorted :=
    if g.has 'S' then sorted.mergeSort fun a b => size b.2 ≤ size a.2
    else if g.has 't' then sorted.mergeSort fun a b => !isLater fs b.2 a.2
    else sorted
  if g.has 'r' then sorted.reverse else sorted
where
  isLater (fs : FileSystem) (l other : Location) : Bool :=
    let age (place : Location) : Nat := fs.entries.findIdx fun e => e.1 = place
    age other < age l

def lsLine (g : Given) (fs : FileSystem) (item : Octets × Location) : Octets :=
  let name := if g.has 'Q' then '"' :: item.1 ++ ['"'] else item.1
  name ++ ((fs.entryAt? item.2).map (kindMark g fs item.2)).getD []

def lsText (g : Given) (fs : FileSystem) (items : List (Octets × Location)) : Octets :=
  let lines := (lsOrder g fs items).map (lsLine g fs)
  if g.has 'm' then
    if lines.isEmpty then [] else List.intercalate [',', ' '] lines ++ ['\n']
  else unlines lines

/-- What is in a directory, as far as it is to be shown. -/
def lsItems (g : Given) (fs : FileSystem) (l : Location) : List (Octets × Location) :=
  let names := (fs.namesAt l).map fun n => (oct n, l ++ [n])
  let all := g.has 'a'
  let shown := names.filter fun n => all || g.has 'A' || n.1.head? != some '.'
  (if all then [(['.'], l), (['.', '.'], l.dropLast)] else []) ++ shown

/-- A directory with its name above it, and those below it. -/
def lsBelow (g : Given) (fs : FileSystem) : Nat → Octets → Location → List Octets
  | 0, _, _ => []
  | depth + 1, name, l =>
    let items := lsItems g fs l
    let inner := (lsOrder g fs items).filter fun i =>
      i.1 != ['.'] && i.1 != ['.', '.'] && fs.isDirectoryAt i.2
    (name ++ [':', '\n'] ++ lsText g fs items) ::
      inner.flatMap fun i => lsBelow g fs depth (name ++ '/' :: i.1) i.2

def ls : Tool := reading "ls" lsOptions 2 fun g => do
  let fs ← files
  let operands := if g.operands.isEmpty then [['.']] else g.operands
  let mut good := true
  let mut found : List (Octets × Location × FileEntry) := []
  for name in operands do
    let follow := !(g.has 'd' || g.has 'l' || g.has 'F') || g.has 'L' || g.has 'H'
    match fs.find follow (path name) with
    | .ok (l, e) => found := found ++ [(name, l, e)]
    | .error fault =>
      match fs.find false (path name) with
      | .ok (l, e) => found := found ++ [(name, l, e)]
      | .error _ =>
        sayFault "ls" (oct "cannot access " ++ quoted name) fault
        good := false
  let isTree (e : FileEntry) : Bool := FileEntry.isDirectory (some e) && !g.has 'd'
  let plain := (found.filter fun x => !isTree x.2.2).map fun x => (x.1, x.2.1)
  let trees := lsOrder g fs ((found.filter fun x => isTree x.2.2).map fun x => (x.1, x.2.1))
  let first := if plain.isEmpty then [] else [lsText g fs plain]
  let rest :=
    if g.has 'R' then
      let depth := (fs.entries.map fun e => e.1.length).foldl max 0 + 1
      trees.flatMap fun t => lsBelow g fs depth t.1 t.2
    else
      match trees with
      | [tree] =>
        if operands.length = 1 then [lsText g fs (lsItems g fs tree.2)]
        else [tree.1 ++ [':', '\n'] ++ lsText g fs (lsItems g fs tree.2)]
      | trees => trees.map fun tree => tree.1 ++ [':', '\n'] ++ lsText g fs (lsItems g fs tree.2)
  write 1 (List.intercalate ['\n'] (first ++ rest))
  return if good then 0 else 2

/-! ## cmp -/

/-- The place of the first byte that is different, and the line that it is on. -/
def difference? : Nat → Nat → Octets → Octets → Option (Nat × Nat)
  | place, line, a :: as, b :: bs =>
    if a = b then difference? (place + 1) (if a = '\n' then line + 1 else line) as bs
    else some (place, line)
  | _, _, _, _ => none

def cmp : Tool := reading "cmp" ⟨"bi:ln:s", [("quiet", 's', .nothing), ("silent", 's', .nothing)]⟩ 2
  fun g => do
    let missing (word : Octets) : Act Nat := do
      say "cmp" (oct "missing operand after " ++ cited word)
      say "cmp" (oct "Try 'cmp --help' for more information.")
      return 2
    match g.operands with
    | [] => missing (oct "cmp")
    | first :: rest =>
      let second := rest.head?.getD ['-']
      match ← input first, ← input second with
      | .error fault, _ =>
        unless g.has 's' do sayName "cmp" first fault
        return 2
      | _, .error fault =>
        unless g.has 's' do sayName "cmp" second fault
        return 2
      | .ok a, .ok b =>
        match difference? 1 1 a b with
        | some (place, line) =>
          unless g.has 's' do
            write 1 (first ++ [' '] ++ second ++
              oct (" differ: char " ++ toString place ++ ", line " ++ toString line ++ "\n"))
          return 1
        | none =>
          if a.length = b.length then return 0
          else
            let (shorter, content) := if a.length < b.length then (first, a) else (second, b)
            let place :=
              if content.isEmpty then oct " which is empty"
              else
                let lines := content.countP (· == '\n')
                let line := if g.has 'l' then ""
                  else if content.getLast? = some '\n' then ", line " ++ toString lines
                  else ", in line " ++ toString (lines + 1)
                oct (" after byte " ++ toString content.length ++ line)
            unless g.has 's' do say "cmp" (oct "EOF on " ++ shorter ++ place)
            return 1

/-! ## diff -/

/-- What is done with a line to make one text of another. -/
inductive Edit where
  | keep
  | remove (line : Octets)
  | add (line : Octets)

/-- The rows of a table of how many lines rests of two texts have in common, from the last one up. -/
def commonRows (same : Octets → Octets → Bool) (bs : List Octets) : List Octets → List (List Nat)
  | [] => [List.replicate (bs.length + 1) 0]
  | a :: as =>
    let rows := commonRows same bs as
    let below := rows.head?.getD []
    let row := ((bs.zip below).zip (below.drop 1)).foldr
      (fun ((b, down), diagonal) row =>
        (if same a b then diagonal + 1 else max down (row.head?.getD 0)) :: row) [0]
    row :: rows

def editsFrom (same : Octets → Octets → Bool) :
    List Octets → List Octets → List (List Nat) → List Edit
  | [], bs, _ => bs.map .add
  | as, [], _ => as.map .remove
  | a :: as, b :: bs, rows =>
    let row := rows.head?.getD []
    let below := (rows.drop 1).head?.getD []
    if same a b then .keep :: editsFrom same as bs ((rows.drop 1).map (·.drop 1))
    else if (below.head?.getD 0) ≥ (row[1]?).getD 0 then
      .remove a :: editsFrom same as (b :: bs) (rows.drop 1)
    else .add b :: editsFrom same (a :: as) bs (rows.map (·.drop 1))
termination_by as bs => as.length + bs.length

/-- A place where lines were taken away, others put there, or both. -/
structure Hunk where
  first : Nat
  second : Nat
  removed : List Octets
  added : List Octets

def hunksFrom : Nat → Nat → Option Hunk → List Edit → List Hunk
  | _, _, h?, [] => h?.toList
  | a, b, h?, e :: es =>
    let h := h?.getD ⟨a, b, [], []⟩
    match e with
    | .keep => h?.toList ++ hunksFrom (a + 1) (b + 1) none es
    | .remove line => hunksFrom (a + 1) b (some { h with removed := h.removed ++ [line] }) es
    | .add line => hunksFrom a (b + 1) (some { h with added := h.added ++ [line] }) es

def spanText (first size : Nat) : Octets :=
  if size ≤ 1 then nat first else nat first ++ ',' :: nat (first + size - 1)

def diffLine (mark : Char) (line : Octets) : Octets :=
  if line.getLast? = some '\n' then mark :: ' ' :: line
  else mark :: ' ' :: line ++ oct "\n\\ No newline at end of file\n"

def hunkText (h : Hunk) : Octets :=
  let letter := if h.removed.isEmpty then 'a' else if h.added.isEmpty then 'd' else 'c'
  let left := if h.removed.isEmpty then nat (h.first - 1) else spanText h.first h.removed.length
  let right := if h.added.isEmpty then nat (h.second - 1) else spanText h.second h.added.length
  left ++ letter :: right ++ ['\n'] ++ h.removed.flatMap (diffLine '<') ++
    (if letter = 'c' then oct "---\n" else []) ++ h.added.flatMap (diffLine '>')

def diffOptions : Options :=
  ⟨"abBdeEinNqrstTuwyZ", [("brief", 'q', .nothing), ("ignore-case", 'i', .nothing),
    ("ignore-all-space", 'w', .nothing), ("ignore-space-change", 'b', .nothing),
    ("recursive", 'r', .nothing), ("unified", 'u', .maybe), ("new-file", 'N', .nothing),
    ("report-identical-files", 's', .nothing), ("text", 'a', .nothing)]⟩

/-- The file in a directory that is compared with a file of that name. -/
def counterpart (name other : Octets) : Act Octets := do
  let fs ← files
  if name ≠ ['-'] ∧ fs.isDirectory (path name) ∧ !fs.isDirectory (path other) then
    return inDirectory name (lastPart other)
  else return name

def diff : Tool := reading "diff" diffOptions 2 fun g => do
  let bad (text : Octets) : Act Nat := do
    say "diff" text
    say "diff" (oct "Try 'diff --help' for more information.")
    return 2
  match g.operands with
  | [] => bad (oct "missing operand after 'diff'")
  | [a] => bad (oct "missing operand after " ++ cited a)
  | _ :: _ :: extra :: _ => bad (oct "extra operand " ++ cited extra)
  | [a, b] =>
    let first ← counterpart a b
    let second ← counterpart b a
    let one ← input first
    let two ← input second
    for (name, content) in [(first, one), (second, two)] do
      match content with
      | .error fault => sayName "diff" name fault
      | .ok _ => pure ()
    match one, two with
    | .ok one, .ok two =>
      let plain (line : Octets) : Octets :=
        let line := if g.has 'i' then line.map Char.toLower else line
        if g.has 'w' || g.has 'b' then line.filter fun c => c == '\n' || !isWhite c else line
      let same (x y : Octets) : Bool := plain x == plain y
      let as := linesOf one
      let bs := linesOf two
      let hunks := hunksFrom 1 1 none (editsFrom same as bs (commonRows same bs as))
      if hunks.isEmpty then
        if g.has 's' then
          write 1 (oct "Files " ++ first ++ oct " and " ++ second ++ oct " are identical\n")
        return 0
      else
        if g.has 'q' then
          write 1 (oct "Files " ++ first ++ oct " and " ++ second ++ oct " differ\n")
        else write 1 (hunks.flatMap hunkText)
        return 1
    | _, _ => return 2

end MakeConfig.Tool
