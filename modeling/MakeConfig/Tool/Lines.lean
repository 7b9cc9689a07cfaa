import MakeConfig.Tool.Make

/-! # Tools for lines

Tools that show texts, parts of them, or how large they are.
-/

namespace MakeConfig.Tool

open Text Shell Act

def padLeft (width : Nat) (text : Octets) : Octets :=
  List.replicate (width - text.length) ' ' ++ text

def padRight (width : Nat) (text : Octets) : Octets :=
  text ++ List.replicate (width - text.length) ' '

/-- Complain about a file by its name and nothing else. -/
def sayName (program : String) (name : Octets) (fault : FileFault) : Act Unit :=
  sayFault program (shown name) fault

/-! ## cat -/

def catOptions : Options :=
  ⟨"AbeEnstTuv", [("show-all", 'A', .nothing), ("number-nonblank", 'b', .nothing),
    ("show-ends", 'E', .nothing), ("number", 'n', .nothing), ("squeeze-blank", 's', .nothing),
    ("show-tabs", 'T', .nothing), ("show-nonprinting", 'v', .nothing)]⟩

/-- How a character is shown that may not be printable. -/
def visible (tabs others : Bool) (c : Char) : Octets :=
  let caret (n : Nat) : Octets := ['^', Char.ofNat (n + 64)]
  let low (n : Nat) : Octets :=
    if n < 32 then caret n else if n = 127 then ['^', '?'] else [Char.ofNat n]
  let n := c.toNat
  if c = '\t' then if tabs then ['^', 'I'] else [c]
  else if c = '\n' || !others then [c]
  else if n < 128 then low n
  else ['M', '-'] ++ low (n - 128)

structure CatState where
  number : Nat
  blanks : Nat
  startsLine : Bool

/-- The lines as they are shown, with the state after them. -/
def catLines (g : Given) : CatState → List Octets → Octets × CatState
  | s, [] => ([], s)
  | s, line :: lines =>
    let ended := line.getLast? == some '\n'
    let body := if ended then line.dropLast else line
    let blank := body.isEmpty && s.startsLine
    let blanks := if blank then s.blanks + 1 else 0
    if g.has 's' && blanks > 1 then catLines g { s with blanks } lines
    else
      let numbered := s.startsLine && (if g.has 'b' then !blank else g.has 'n')
      let label := if numbered then padLeft 6 (nat s.number) ++ ['\t'] else []
      let all := g.has 'A'
      let ends := all || g.has 'e' || g.has 'E'
      let tabs := all || g.has 't' || g.has 'T'
      let others := all || g.has 'e' || g.has 't' || g.has 'v'
      let text := label ++ body.flatMap (visible tabs others) ++
        (if ended then if ends then ['$', '\n'] else ['\n'] else [])
      let next : CatState := ⟨if numbered then s.number + 1 else s.number, blanks, ended⟩
      let (rest, s) := catLines g next lines
      (text ++ rest, s)

/-- Whether the output goes to the file that is read, which has something in it. -/
def readsOutput (name content : Octets) : Act Bool := do
  let fs ← files
  match ← streamOf? 1 with
  | none => return false
  | some n =>
    match ← stream n with
    | .file l _ _ => return !content.isEmpty && fs.locate? (path name) == some l
    | _ => return false

def cat : Tool := reading "cat" catOptions 1 fun g => do
  let operands := if g.operands.isEmpty then [['-']] else g.operands
  let plain := g.options.all fun o => o.1 = 'u'
  let mut good := true
  let mut state : CatState := ⟨1, 0, true⟩
  for name in operands do
    match ← input name with
    | .error fault =>
      sayName "cat" name fault
      good := false
    | .ok content =>
      if plain then
        if ← readsOutput name content then
          say "cat" (shown name ++ oct ": input file is output file")
          good := false
        else write 1 content
      else
        let (text, next) := catLines g state (linesOf content)
        state := next
        write 1 text
  return statusOf good

/-! ## head and tail -/

/-- Which part of a text is wanted: so many units, or all but so many, or from one on. -/
inductive Portion where
  | first (n : Nat)
  | butLast (n : Nat)
  | last (n : Nat)
  | fromOn (n : Nat)

def Portion.pick {α : Type} (p : Portion) (units : List α) : List α :=
  match p with
  | .first n => units.take n
  | .butLast n => units.take (units.length - n)
  | .last n => units.drop (units.length - n)
  | .fromOn n => units.drop (n - 1)

def endingOptions : Options :=
  ⟨"c:n:qvzs:fF", [("bytes", 'c', .something), ("lines", 'n', .something),
    ("quiet", 'q', .nothing), ("silent", 'q', .nothing), ("verbose", 'v', .nothing),
    ("zero-terminated", 'z', .nothing), ("follow", 'f', .maybe)]⟩

/-- A first word that is a hyphen and a number, as the options that it stands for. -/
def withoutShorthand : List Octets → List Octets
  | [] => []
  | w :: ws =>
    match w with
    | '-' :: c :: cs =>
      if c.isDigit then
        let digits := c :: cs.takeWhile Char.isDigit
        let letters := cs.dropWhile Char.isDigit
        let unit := if letters.contains 'c' then '-' :: 'c' :: digits else '-' :: 'n' :: digits
        unit :: (letters.filter fun c => c != 'c' && c != 'l').map (fun c => ['-', c]) ++ ws
      else w :: ws
    | _ => w :: ws

/-- Show a portion of each operand, under its name if there are others. -/
def showPortions (program : String) (usual : Portion) (portion? : Octets → Option Portion) : Tool :=
  fun words => reading program endingOptions 1 (fun g => do
    let inBytes := g.last? "cn" == some 'c'
    let wanted := (g.last? "cn").bind g.argument?
    match (wanted.map portion?).getD (some usual) with
    | none =>
      let what := if inBytes then "bytes: " else "lines: "
      say program (oct ("invalid number of " ++ what) ++ cited (wanted.getD []))
      return 1
    | some portion =>
      let operands := if g.operands.isEmpty then [['-']] else g.operands
      let named := g.has 'v' || (operands.length > 1 && !g.has 'q')
      let mut good := true
      let mut first := true
      for name in operands do
        let isMissing := name != ['-'] && !(← files).exists? (path name)
        if isMissing then
          sayFault program (oct "cannot open " ++ quoted name ++ oct " for reading") .missing
          good := false
        else
          if named then
            let title := if name = ['-'] then oct "standard input" else name
            write 1 ((if first then [] else ['\n']) ++ oct "==> " ++ title ++ oct " <==\n")
            first := false
          match ← input name with
          | .error fault =>
            sayFault program (oct "error reading " ++ quoted name) fault
            good := false
          | .ok content =>
            if inBytes then write 1 (portion.pick content)
            else write 1 (portion.pick (linesOf content)).flatten
      return statusOf good) (withoutShorthand words)

def headPortion? (text : Octets) : Option Portion :=
  match text with
  | '-' :: digits => (scaled? digits).map .butLast
  | digits => (scaled? digits).map .first

def tailPortion? (text : Octets) : Option Portion :=
  match text with
  | '+' :: digits => (scaled? digits).map .fromOn
  | '-' :: digits => (scaled? digits).map .last
  | digits => (scaled? digits).map .last

/-- The first lines of the input. What is left of a file stays for those that read it next. -/
def headOfInput (portion : Portion) (inBytes : Bool) : Act Unit := do
  match ← streamOf? 0 with
  | none => pure ()
  | some n =>
    let content ← ahead n
    let text :=
      if inBytes then portion.pick content else (portion.pick (linesOf content)).flatten
    match ← stream n with
    | .file .. => advance n text.length
    | _ => advance n content.length
    write 1 text

def head : Tool := fun words => do
  match endingOptions.read true (sizeOf words) (withoutShorthand words) with
  | .ok g =>
    let wanted := (g.last? "cn").bind g.argument?
    match g.operands, (wanted.map headPortion?).getD (some (.first 10)) with
    | [], some portion =>
      if g.has 'v' then showPortions "head" (.first 10) headPortion? words
      else
        headOfInput portion (g.last? "cn" == some 'c')
        return 0
    | _, _ => showPortions "head" (.first 10) headPortion? words
  | .error _ => showPortions "head" (.first 10) headPortion? words

def tail : Tool := fun words =>
  let words := match words with
    | ('+' :: c :: cs) :: rest => if c.isDigit then ['-', 'n'] :: ('+' :: c :: cs) :: rest else words
    | words => words
  showPortions "tail" (.last 10) tailPortion? words

/-! ## tac and rev -/

def tac : Tool := reading "tac" ⟨"bs:r", [("before", 'b', .nothing), ("separator", 's', .something)]⟩ 1
  fun g => do
    let complain (name : Octets) : FileFault → Act Unit
      | .isDirectory => say "tac" (shown name ++ oct ": read error: Is a directory")
      | fault => sayFault "tac" (oct "failed to open " ++ quoted name ++ oct " for reading") fault
    let (found, good) ← inputs complain g.operands
    for (_, content) in found do
      write 1 (linesOf content).reverse.flatten
    return statusOf good

def rev : Tool := reading "rev" ⟨"0", []⟩ 1 fun g => do
  let complain (name : Octets) (fault : FileFault) : Act Unit :=
    sayFault "rev" (oct "cannot open " ++ name) fault
  let (found, good) ← inputs complain g.operands
  for (_, content) in found do
    for line in linesOf content do
      if line.getLast? = some '\n' then write 1 (line.dropLast.reverse ++ ['\n'])
      else write 1 line.reverse
  return statusOf good

/-! ## nl -/

def nlOptions : Options :=
  ⟨"b:d:f:h:i:l:n:ps:v:w:", [("body-numbering", 'b', .something),
    ("line-increment", 'i', .something), ("number-format", 'n', .something),
    ("number-separator", 's', .something), ("starting-line-number", 'v', .something),
    ("number-width", 'w', .something)]⟩

def nl : Tool := reading "nl" nlOptions 1 fun g => do
  let style := (g.argument? 'b').getD ['t']
  let separator := (g.argument? 's').getD ['\t']
  let width := ((g.argument? 'w').bind natural?).getD 6
  let increment := ((g.argument? 'i').bind natural?).getD 1
  let format := (g.argument? 'n').getD ['r', 'n']
  let label (n : Nat) : Octets :=
    if format = ['l', 'n'] then padRight width (nat n)
    else if format = ['r', 'z'] then List.replicate (width - (nat n).length) '0' ++ nat n
    else padLeft width (nat n)
  let shown (line : Octets) : StateM Nat Octets := do
    if style = ['a'] || (style = ['t'] && !line.isEmpty) then
      let number ← getModify (· + increment)
      return label number ++ separator ++ line ++ ['\n']
    else return List.replicate (width + separator.length) ' ' ++ line ++ ['\n']
  let operands := if g.operands.isEmpty then [['-']] else g.operands
  let mut good := true
  let mut number := ((g.argument? 'v').bind natural?).getD 1
  for name in operands do
    match ← input name with
    | .ok content =>
      let (lines, next) := ((bareLines content).mapM shown).run number
      number := next
      write 1 lines.flatten
    | .error fault =>
      sayName "nl" name fault
      good := false
  return statusOf good

/-! ## wc -/

def wcOptions : Options :=
  ⟨"clLmw", [("bytes", 'c', .nothing), ("chars", 'm', .nothing), ("lines", 'l', .nothing),
    ("words", 'w', .nothing), ("max-line-length", 'L', .nothing)]⟩

/-- How large a text is: its lines, words and bytes, and its longest line. -/
structure Extent where
  lines : Nat
  words : Nat
  bytes : Nat
  longest : Nat

def isWhite (c : Char) : Bool := c == ' ' || (9 ≤ c.toNat && c.toNat ≤ 13)

def wordCount (text : Octets) : Nat :=
  (text.foldl (fun (n, inside) c =>
    if isWhite c then (n, false) else (if inside then n else n + 1, true)) (0, false)).1

def columns (line : Octets) : Nat :=
  line.foldl (fun n c => if c = '\t' then n + (8 - n % 8) else if isPrintable c then n + 1 else n) 0

def extentOf (text : Octets) : Extent :=
  ⟨text.countP (· == '\n'), wordCount text, text.length,
    ((bareLines text).map columns).foldl max 0⟩

def Extent.and (a b : Extent) : Extent :=
  ⟨a.lines + b.lines, a.words + b.words, a.bytes + b.bytes, max a.longest b.longest⟩

/-- What the widths of numbers are computed from: a size, if it is that of a file. -/
def regularSize (name : Octets) : Act (Option (Option Nat)) := do
  let fs ← files
  let sizeAt (l : Location) : Option Nat :=
    if fs.isFileAt l then (fs.contentAt? l).map ByteArray.size else none
  if name = ['-'] then
    match ← streamOf? 0 with
    | none => return none
    | some n =>
      match ← stream n with
      | .file l _ _ => return some (sizeAt l)
      | _ => return some none
  else
    match fs.find true (path name) with
    | .ok (l, _) => return some (sizeAt l)
    | .error _ => return none

def wc : Tool := reading "wc" wcOptions 1 fun g => do
  let g := if g.options.isEmpty then { g with options := "lwc".toList.map fun c => (c, []) } else g
  let counts (e : Extent) : List Nat :=
    (if g.has 'l' then [e.lines] else []) ++ (if g.has 'w' then [e.words] else []) ++
      (if g.has 'm' then [e.bytes] else []) ++ (if g.has 'c' then [e.bytes] else []) ++
      (if g.has 'L' then [e.longest] else [])
  let operands := if g.operands.isEmpty then [['-']] else g.operands
  let sizes ← operands.mapM regularSize
  let one := operands.length = 1 && (counts ⟨0, 0, 0, 0⟩).length = 1
  let width :=
    if one then 1
    else
      let total := (sizes.filterMap fun s => s.bind id).foldl (· + ·) 0
      let least := if sizes.any fun s => s == some none then 7 else 1
      max least (nat total).length
  let line (e : Extent) (name : Octets) : Octets :=
    List.intercalate [' '] ((counts e).map fun n => padLeft width (nat n)) ++
      (if name.isEmpty then [] else ' ' :: name) ++ ['\n']
  let mut good := true
  let mut total : Extent := ⟨0, 0, 0, 0⟩
  for name in operands do
    let label := if g.operands.isEmpty then [] else name
    match ← input name with
    | .ok content =>
      let e := extentOf content
      total := total.and e
      write 1 (line e label)
    | .error fault =>
      sayName "wc" name fault
      if fault = .isDirectory then write 1 (line ⟨0, 0, 0, 0⟩ label)
      good := false
  if operands.length > 1 then write 1 (line total (oct "total"))
  return statusOf good

/-! ## tee -/

def tee : Tool := reading "tee" ⟨"aip", [("append", 'a', .nothing), ("ignore-interrupts", 'i', .nothing)]⟩ 1
  fun g => do
    let content ← standardInput
    let mut good := true
    for name in g.operands do
      let old ← if g.has 'a' then contentOf name else pure (.ok [])
      match ← change fun fs => do
          fs.writeAt (← fs.resolve (path name)) ((old.toOption.getD []) ++ content).toBytes with
      | none => pure ()
      | some fault =>
        sayName "tee" name fault
        good := false
    write 1 content
    return statusOf good

/-! ## fold -/

/-- A line in pieces of a width. A piece that breaks at blanks ends behind the last one in it. -/
def folded (width : Nat) (atBlanks : Bool) : Nat → Octets → List Octets
  | 0, line => [line]
  | fuel + 1, line =>
    if line.length ≤ width then [line]
    else
      let piece := line.take width
      let kept := (piece.reverse.dropWhile fun c => c != ' ' && c != '\t').reverse
      let piece := if atBlanks && !kept.isEmpty then kept else piece
      piece :: folded width atBlanks fuel (line.drop piece.length)

def fold : Tool := reading "fold" ⟨"bsw:", [("bytes", 'b', .nothing), ("spaces", 's', .nothing),
    ("width", 'w', .something)]⟩ 1 fun g => do
  let text := (g.argument? 'w').getD (oct "80")
  match natural? text with
  | none | some 0 =>
    say "fold" (oct "invalid number of columns: " ++ cited text)
    return 1
  | some width =>
    let good ← forInputs (sayName "fold") g.operands fun _ content =>
      write 1 <| (linesOf content).flatMap fun line =>
        let ended := line.getLast? == some '\n'
        let body := if ended then line.dropLast else line
        let pieces := folded width (g.has 's') body.length body
        List.intercalate ['\n'] pieces ++ (if ended then ['\n'] else [])
    return statusOf good

end MakeConfig.Tool
