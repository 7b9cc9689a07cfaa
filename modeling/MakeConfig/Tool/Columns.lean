import MakeConfig.Shell.Print
import MakeConfig.Text.CharSet
import MakeConfig.Tool.Lines

/-! # Tools for columns and characters

Tools that take lines apart and put them together, exchange characters, and print sequences of
numbers.
-/

namespace MakeConfig.Tool

open Text Shell Act

/-! ## cut -/

def cutOptions : Options :=
  ⟨"b:c:d:f:nsz", [("bytes", 'b', .something), ("characters", 'c', .something),
    ("delimiter", 'd', .something), ("fields", 'f', .something), ("complement", 'C', .nothing),
    ("only-delimited", 's', .nothing), ("output-delimiter", 'o', .something)]⟩

/-- Bounds of positions counted from one. The second one may be missing. -/
abbrev Range := Nat × Option Nat

def rangeOf (what : String) (text : Octets) : Except Octets Range := do
  let number (ds : Octets) : Except Octets Nat :=
    match natural? ds with
    | some 0 =>
      .error (oct (if what = "field" then "fields are numbered from 1"
        else "byte/character positions are numbered from 1"))
    | some n => .ok n
    | none => .error (oct ("invalid " ++ what ++ " value ") ++ cited text)
  match Text.splitOnce? '-' text with
  | none => do
    let n ← number text
    return (n, some n)
  | some ([], []) => .error (oct "invalid range with no endpoint: -")
  | some ([], last) => do return (1, some (← number last))
  | some (first, []) => do return (← number first, none)
  | some (first, last) => do
    let a ← number first
    let b ← number last
    if b < a then throw (oct "invalid decreasing range") else return (a, some b)

def rangesOf (what : String) (text : Octets) : Except Octets (List Range) :=
  let parts := (Text.split ',' text).flatMap (Text.split ' ')
  parts.mapM (rangeOf what)

def inRanges (ranges : List Range) (n : Nat) : Bool :=
  ranges.any fun (first, last?) => first ≤ n && !last?.any (· < n)

/-- The items of a list whose places are in ranges. -/
def picked {α : Type} (wanted : Nat → Bool) (items : List α) : List α :=
  (items.zipIdx.filter fun x => wanted (x.2 + 1)).map Prod.fst

def cutLine (g : Given) (ranges : List Range) (line : Octets) : Octets :=
  let wanted (n : Nat) : Bool := inRanges ranges n != g.has 'C'
  let put (text : Octets) : Octets := text ++ ['\n']
  if g.has 'f' then
    let delimiter := ((g.argument? 'd').bind List.head?).getD '\t'
    let fields := Text.split delimiter line
    if fields.length = 1 then if g.has 's' then [] else put line
    else put (List.intercalate ((g.argument? 'o').getD [delimiter]) (picked wanted fields))
  else put (picked wanted line)

def cut : Tool := reading "cut" cutOptions 1 fun g => do
  let bad (text : Octets) : Act Nat := usage "cut" text 1
  let lists := g.options.filter fun o => "bcf".toList.contains o.1
  match lists with
  | [] => bad (oct "you must specify a list of bytes, characters, or fields")
  | _ :: _ :: _ => bad (oct "only one list may be specified")
  | [(letter, text)] =>
    if (g.argument? 'd').any fun d => d.length > 1 then
      bad (oct "the delimiter must be a single character")
    else if letter ≠ 'f' ∧ g.has 'd' then
      bad (oct "an input delimiter may be specified only when operating on fields")
    else if letter ≠ 'f' ∧ g.has 's' then
      bad (oct "suppressing non-delimited lines makes sense\n\tonly when operating on fields")
    else
      match rangesOf (if letter = 'f' then "field" else "byte/character position") text with
      | .error text => bad text
      | .ok ranges =>
        let good ← forInputs (sayName "cut") g.operands fun _ content =>
          write 1 ((bareLines content).flatMap (cutLine g ranges))
        return statusOf good

/-! ## paste -/

/-- Texts with the delimiters between them in turn. -/
def joinWith (delimiters : List Octets) : Nat → List Octets → Octets
  | _, [] => []
  | _, [text] => text
  | n, text :: texts =>
    text ++ (delimiters[n % delimiters.length]?).getD [] ++ joinWith delimiters (n + 1) texts

def delimitersOf : Octets → List Octets
  | [] => []
  | '\\' :: c :: cs =>
    (match c with
      | 'n' => ['\n']
      | 't' => ['\t']
      | '0' => []
      | c => [c]) :: delimitersOf cs
  | c :: cs => [c] :: delimitersOf cs

/-- The lines of several texts side by side. -/
def sideBySide (delimiters : List Octets) (texts : List (List Octets)) : List Octets :=
  let count := (texts.map List.length).foldl max 0
  (List.range count).map fun i => joinWith delimiters 0 (texts.map fun t => (t[i]?).getD [])

/-- The lines of the standard input dealt out to the hyphens among the operands. -/
def dealt (operands : List Octets) (lines : List Octets) (i : Nat) : List Octets :=
  let hyphens := operands.countP (· == ['-'])
  let place := (operands.take i).countP (· == ['-'])
  (lines.zipIdx.filter fun x => x.2 % hyphens = place).map Prod.fst

def pasteOptions : Options :=
  ⟨"d:sz", [("delimiters", 'd', .something), ("serial", 's', .nothing)]⟩

def paste : Tool := reading "paste" pasteOptions 1 fun g => do
  let delimiters := delimitersOf ((g.argument? 'd').getD ['\t'])
  let operands := if g.operands.isEmpty then [['-']] else g.operands
  let standard := bareLines (← if operands.contains ['-'] then standardInput else pure [])
  let mut texts : List (List Octets) := []
  let mut good := true
  for (name, i) in operands.zipIdx do
    if name = ['-'] then texts := texts ++ [dealt operands standard i]
    else
      match ← contentOf name with
      | .ok content => texts := texts ++ [bareLines content]
      | .error fault =>
        sayName "paste" name fault
        good := false
  if !good && !g.has 's' then return 1
  let lines := if g.has 's' then texts.map (joinWith delimiters 0) else sideBySide delimiters texts
  write 1 (unlines lines)
  return statusOf good

/-! ## tr -/

def allBytes : Octets := (List.range 256).map Char.ofNat

/-- Characters of a set that stand for themselves, or one that is repeated to fill what is missing. -/
inductive Piece where
  | chars (cs : Octets)
  | fill (c : Char)

/-- The first character of a set and what follows it. -/
def setChar (cs : Octets) : Option (Char × Octets) :=
  match cs with
  | [] => none
  | '\\' :: d :: rest => some (Print.escape (d :: rest))
  | c :: rest => some (c, rest)

/-- A construct in brackets at the head of a set, after the opening bracket. -/
def bracketed? (cs : Octets) : Option (Piece × Octets) :=
  match cs with
  | ':' :: rest =>
    let name := rest.takeWhile (· != ':')
    match rest.drop name.length, CharSet.named? (String.ofList name) with
    | ':' :: ']' :: rest, some test => some (.chars (allBytes.filter test), rest)
    | _, _ => none
  | '=' :: c :: '=' :: ']' :: rest => some (.chars [c], rest)
  | cs =>
    (setChar cs).bind fun (c, rest) =>
      match rest with
      | '*' :: rest =>
        let digits := rest.takeWhile Char.isDigit
        match rest.drop digits.length with
        | ']' :: rest =>
          let radix := if digits.head? = some '0' then 8 else 10
          match Numeral.digits? radix digits with
          | none | some 0 => some (.fill c, rest)
          | some n => some (.chars (List.replicate n c), rest)
        | _ => none
      | _ => none

/-- The pieces of a set. -/
def setPieces : Nat → Octets → Except Octets (List Piece)
  | 0, _ => .ok []
  | fuel + 1, cs =>
    let plain : Except Octets (List Piece) :=
      match setChar cs with
      | none => .ok []
      | some (c, rest) =>
        match rest with
        | '-' :: last :: more =>
          match setChar (last :: more) with
          | none => .ok []
          | some (d, rest) =>
            if d.toNat < c.toNat then
              .error (oct "range-endpoints of '" ++ [c, '-', d] ++
                oct "' are in reverse collating sequence order")
            else
              (setPieces fuel rest).map
                (.chars (allBytes.filter fun x => c.toNat ≤ x.toNat && x.toNat ≤ d.toNat) :: ·)
        | rest => (setPieces fuel rest).map (.chars [c] :: ·)
    match cs with
    | '[' :: rest =>
      match bracketed? rest with
      | some (piece, rest) => (setPieces fuel rest).map (piece :: ·)
      | none => plain
    | _ => plain

/-- The characters of a set that is to have so many. -/
def spread (size : Nat) (ps : List Piece) : Octets :=
  let known := (ps.flatMap fun
    | .chars cs => cs
    | .fill _ => []).length
  ps.flatMap fun
    | .chars cs => cs
    | .fill c => List.replicate (size - known) c

def squeezed (set : Octets) : Octets → Octets
  | a :: b :: cs =>
    if a = b ∧ set.contains a then squeezed set (b :: cs) else a :: squeezed set (b :: cs)
  | cs => cs

def trOptions : Options :=
  ⟨"cCdst", [("complement", 'c', .nothing), ("delete", 'd', .nothing),
    ("squeeze-repeats", 's', .nothing), ("truncate-set1", 't', .nothing)]⟩

/-- A character for each of the first set, the last one of the second set for those that it lacks. -/
def exchange (first second : Octets) (c : Char) : Char :=
  let places := (first.zipIdx.filter fun x => x.1 = c).map Prod.snd
  match places.getLast? with
  | none => c
  | some i => (second[i]?).getD (second.getLast?.getD c)

def trWith (g : Given) (first : Octets) (second? : Option Octets) (text : Octets) : Octets :=
  if g.has 'd' then
    let kept := text.filter fun c => !first.contains c
    match g.has 's', second? with
    | true, some second => squeezed second kept
    | _, _ => kept
  else
    match second? with
    | none => squeezed first text
    | some second =>
      let first := if g.has 't' then first.take second.length else first
      let text := text.map (exchange first second)
      if g.has 's' then squeezed second text else text

def trUsage (text : Octets) (more? : Option String) : Act Nat := do
  say "tr" text
  match more? with
  | some more => write 2 (oct (more ++ "\n"))
  | none => pure ()
  write 2 (oct "Try 'tr --help' for more information.\n")
  return 1

def tr : Tool := fun words => do
  match trOptions.read false (sizeOf words) words with
  | .error e => usage "tr" e 1
  | .ok g =>
    let two := g.has 'd' == g.has 's'
    match g.operands with
    | [] => trUsage (oct "missing operand") none
    | [one] =>
      if two then
        trUsage (oct "missing operand after " ++ cited one)
          (some (if g.has 'd' then
            "Two strings must be given when both deleting and squeezing repeats."
          else "Two strings must be given when translating."))
      else go g one none
    | [one, another] =>
      if g.has 'd' && !g.has 's' then
        trUsage (oct "extra operand " ++ cited another)
          (some "Only one string may be given when deleting without squeezing repeats.")
      else go g one (some another)
    | _ :: _ :: extra :: _ => trUsage (oct "extra operand " ++ cited extra) none
where
  go (g : Given) (one : Octets) (another? : Option Octets) : Act Nat := do
    let pieces (text : Octets) : Except Octets (List Piece) := setPieces (text.length + 1) text
    match pieces one, (another?.map pieces).getD (.ok []) with
    | .error text, _ | _, .error text =>
      say "tr" text
      return 1
    | .ok first, .ok second =>
      let first := spread 0 first
      let first := if g.has 'c' || g.has 'C' then allBytes.filter (!first.contains ·) else first
      let second? := another?.map fun _ => spread first.length second
      if second? = some [] ∧ !g.has 'd' ∧ !g.has 't' then
        say "tr" (oct "when not truncating set1, string2 must be non-empty")
        return 1
      write 1 (trWith g first second? (← standardInput))
      return 0

/-! ## seq -/

/-- A decimal number: its digits as one integer, and how many of them are behind the point. -/
structure Decimal where
  digits : Int
  places : Nat

namespace Decimal

def scaled (d : Decimal) (places : Nat) : Int := d.digits * (Nat.pow 10 (places - d.places) : Nat)

def ofText? (text : Octets) : Option Decimal :=
  let (negative, cs) := Print.signed text
  match Print.leadingDecimal? cs with
  | some (n, e, []) =>
    let n : Int := if negative then -n else n
    if e < 0 then if e < -300 then none else some ⟨n, (-e).toNat⟩
    else if e > 300 then none else some ⟨n * (Nat.pow 10 e.toNat : Nat), 0⟩
  | _ => none

/-- A number given as an integer of units behind the point. -/
def text (places : Nat) (v : Int) : Octets :=
  let digits := Layout.fixedDigits false places v.natAbs (Nat.pow 10 places)
  if v < 0 then '-' :: digits else digits

end Decimal

def sequence : Nat → Int → Int → Int → List Int
  | 0, _, _, _ => []
  | fuel + 1, v, step, last =>
    if (step > 0 ∧ v > last) ∨ (step < 0 ∧ v < last) then []
    else v :: sequence fuel (v + step) step last

/-- A number in a width with zeros in front. -/
def zeroPadded (width : Nat) (text : Octets) : Octets :=
  let zeros := List.replicate (width - text.length) '0'
  match text with
  | '-' :: digits => '-' :: zeros ++ digits
  | digits => zeros ++ digits

/-- A format with one directive for a floating point number, or why it is none. -/
def numberFormat (format : Octets) : Except Octets (Int → Nat → Octets) :=
  let leading := format.takeWhile (· != '%')
  match format.drop leading.length with
  | [] => .error (oct "format " ++ cited format ++ oct " has no % directive")
  | _ :: rest =>
    let d := Print.directive rest
    match d.rest with
    | [] => .error (oct "format " ++ cited format ++ oct " ends in %")
    | letter :: trailing =>
      if "aAeEfFgG".toList.contains letter then
        .ok fun v places =>
          let x := (Numeral.Binary64.ofRatio? (v < 0) v.natAbs (Nat.pow 10 places)).getD (.zero false)
          leading ++ d.layout.float letter x ++ trailing
      else .error (oct "format " ++ cited format ++ oct " has unknown %" ++ letter :: oct " directive")

def seqOptions : Options :=
  ⟨"f:s:w", [("format", 'f', .something), ("separator", 's', .something),
    ("equal-width", 'w', .nothing)]⟩

/-- Words with two hyphens before the first one that is a negative number. -/
def withNumbers : List Octets → List Octets
  | [] => []
  | w :: ws =>
    match w with
    | '-' :: c :: _ =>
      if c.isDigit ∨ c = '.' then ['-', '-'] :: w :: ws
      else if w = ['-', 's'] ∨ w = ['-', 'f'] then w :: ws.take 1 ++ withNumbers (ws.drop 1)
      else w :: withNumbers ws
    | _ => w :: ws
termination_by ws => ws.length

def seq : Tool := fun words => do
  let words := withNumbers words
  match seqOptions.read false (sizeOf words) words with
  | .error e => usage "seq" e 1
  | .ok g =>
    match g.operands with
    | [] => usage "seq" (oct "missing operand") 1
    | _ :: _ :: _ :: extra :: _ => usage "seq" (oct "extra operand " ++ cited extra) 1
    | operands =>
      match operands.find? fun w => (Decimal.ofText? w).isNone with
      | some w => usage "seq" (oct "invalid floating point argument: " ++ cited w) 1
      | none =>
        let one : Decimal := ⟨1, 0⟩
        let numbers := operands.filterMap Decimal.ofText?
        let (first, step, last) := match numbers with
          | [last] => (one, one, last)
          | [first, last] => (first, one, last)
          | first :: step :: last :: _ => (first, step, last)
          | [] => (one, one, one)
        if step.digits = 0 then
          let w := operands[1]?.getD []
          usage "seq" (oct "invalid Zero increment value: " ++ cited w) 1
        else run g first step last
where
  run (g : Given) (first step last : Decimal) : Act Nat := do
    let places := max first.places (max step.places last.places)
    let shown := max first.places step.places
    let unit : Int := (Nat.pow 10 (places - shown) : Nat)
    let a := first.scaled places
    let s := step.scaled places
    let z := last.scaled places
    let count := ((z - a).natAbs / s.natAbs) + 1
    let values := (sequence count a s z).map (· / unit)
    let plain := values.map (Decimal.text shown)
    match (g.argument? 'f').map numberFormat with
    | some (.error text) =>
      say "seq" text
      return 1
    | format? =>
      let texts := match format? with
        | some (.ok f) => values.map fun v => f v shown
        | _ =>
          if g.has 'w' then
            let ends := [Decimal.text shown (a / unit), Decimal.text shown (z / unit)]
            let width := ((ends ++ plain).map List.length).foldl max 0
            plain.map (zeroPadded width)
          else plain
      unless texts.isEmpty do
        write 1 (List.intercalate ((g.argument? 's').getD ['\n']) texts ++ ['\n'])
      return 0

end MakeConfig.Tool
