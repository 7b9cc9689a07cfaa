import MakeConfig.Tool.Lines

/-! # Tools for orders of lines

Sorting by keys, and what can be told of lines that are sorted: repeated ones, and those that two
files have in common.
-/

namespace MakeConfig.Tool

open Text Shell Act

/-! ## Comparing -/

def compareBytes (a b : Octets) : Ordering :=
  if before a b then .lt else if before b a then .gt else .eq

/-- A decimal number at the head of a text: its sign, its digits and how many are behind the point. -/
def decimalOf (text : Octets) : Bool × Nat × Nat :=
  let text := text.dropWhile isWhite
  let (negative, text) := match text with
    | '-' :: rest => (true, rest)
    | rest => (false, rest)
  let whole := text.takeWhile Char.isDigit
  let places := match text.drop whole.length with
    | '.' :: rest => rest.takeWhile Char.isDigit
    | _ => []
  (negative, (Numeral.digitsFrom? 10 0 (whole ++ places)).getD 0, places.length)

def compareScaled (a b : Bool × Nat × Nat) : Ordering :=
  let value (x : Bool × Nat × Nat) (places : Nat) : Int :=
    let n : Int := x.2.1 * Nat.pow 10 places
    if x.1 then -n else n
  compare (value a b.2.2) (value b a.2.2)

def compareNumbers (a b : Octets) : Ordering := compareScaled (decimalOf a) (decimalOf b)

/-- The rank of a unit behind a number, zero if there is none. -/
def unitRank (text : Octets) : Nat :=
  let rest := (text.dropWhile fun c => isWhite c || c == '-').dropWhile fun c => c.isDigit || c == '.'
  match rest with
  | [] => 0
  | c :: _ =>
    match "KMGTPEZY".toList.findIdx? fun u => u = c ∨ (c = 'k' ∧ u = 'K') with
    | some i => i + 1
    | none => 0

def compareUnits (a b : Octets) : Ordering :=
  let sign (text : Octets) : Int :=
    let (negative, n, _) := decimalOf text
    if n = 0 then 0 else if negative then -1 else 1
  let rank (text : Octets) : Int := sign text * (unitRank text + 1)
  (compare (sign a) (sign b)).then ((compare (rank a) (rank b)).then (compareNumbers a b))

/-- A number with an exponent, scaled so that it is a whole one in units that both sides share. -/
def compareGeneral (a b : Octets) : Ordering :=
  let parts (text : Octets) : Bool × Nat × Int :=
    let (negative, n, places) := decimalOf text
    let rest := ((text.dropWhile isWhite).dropWhile fun c => c.isDigit || c == '.' || c == '-')
    let exponent : Int := match rest with
      | e :: sign :: ds =>
        if e = 'e' ∨ e = 'E' then
          let value (ds : Octets) : Nat :=
            (Numeral.digitsFrom? 10 0 (ds.takeWhile Char.isDigit)).getD 0
          if sign = '-' then -(value ds : Int) else if sign = '+' then value ds else value (sign :: ds)
        else 0
      | _ => 0
    (negative, n, max (-400) (min 400 exponent) - places)
  let (negative, n, e) := parts a
  let (negative', n', e') := parts b
  let least := min e e'
  let value (negative : Bool) (n : Nat) (e : Int) : Int :=
    let v : Int := n * Nat.pow 10 (e - least).toNat
    if negative then -v else v
  compare (value negative n e) (value negative' n' e')

def monthNames : List String :=
  ["JAN", "FEB", "MAR", "APR", "MAY", "JUN", "JUL", "AUG", "SEP", "OCT", "NOV", "DEC"]

def monthOf (text : Octets) : Nat :=
  let name := String.ofList (((text.dropWhile isWhite).take 3).map Char.toUpper)
  match monthNames.findIdx? (· == name) with
  | some i => i + 1
  | none => 0

/-- Compare texts in which numbers count as such. -/
def compareVersions : Nat → Octets → Octets → Ordering
  | 0, _, _ => .eq
  | fuel + 1, a, b =>
    let rank (c? : Option Char) : Int :=
      match c? with
      | none => 0
      | some c =>
        if c = '~' then -1 else if c.isDigit then 0 else if c.isAlpha then c.toNat
        else c.toNat + 256
    let a0 := a.takeWhile fun c => !c.isDigit
    let b0 := b.takeWhile fun c => !c.isDigit
    let texts (x y : Octets) : Ordering :=
      (List.range (max x.length y.length)).foldl
        (fun o i => o.then (compare (rank x[i]?) (rank y[i]?))) .eq
    let a := a.drop a0.length
    let b := b.drop b0.length
    let number (ds : Octets) : Nat := (Numeral.digitsFrom? 10 0 (ds.takeWhile Char.isDigit)).getD 0
    let first := (texts a0 b0).then (compare (number a) (number b))
    if first ≠ .eq ∨ (a.isEmpty ∧ b.isEmpty) then first
    else compareVersions fuel (a.dropWhile Char.isDigit) (b.dropWhile Char.isDigit)

/-! ## Keys -/

/-- A place in a line: a field, and a character in it, both counted from one. -/
structure KeyPlace where
  field : Nat
  char : Nat
  skipBlanks : Bool

structure Key where
  start : KeyPlace
  stop? : Option KeyPlace
  letters : List Char

def orderLetters : String := "bdfghiMnRrV"

/-- The bounds of the fields of a line: where each one starts and ends. -/
def fieldBounds (separator? : Option Char) (line : Octets) : List (Nat × Nat) :=
  match separator? with
  | some c =>
    ((Text.split c line).foldl (fun (bounds, place) field =>
      (bounds ++ [(place, place + field.length)], place + field.length + 1)) ([], 0)).1
  | none => go line.length 0 line
where
  go : Nat → Nat → Octets → List (Nat × Nat)
    | 0, _, _ | _, _, [] => []
    | fuel + 1, place, cs =>
      let blanks := cs.takeWhile isWhite
      let word := (cs.drop blanks.length).takeWhile (!isWhite ·)
      let n := blanks.length + word.length
      (place, place + n) :: go fuel (place + n) (cs.drop n)

def skipFrom (line : Octets) (place : Nat) : Nat :=
  place + ((line.drop place).takeWhile isWhite).length

/-- The part of a line that is a key. -/
def Key.of (k : Key) (separator? : Option Char) (line : Octets) : Octets :=
  let bounds := fieldBounds separator? line
  let startOf (p : KeyPlace) : Nat :=
    match bounds[p.field - 1]? with
    | none => line.length
    | some (start, _) => if p.skipBlanks then skipFrom line start else start
  let start := min line.length (startOf k.start + (k.start.char - 1))
  let stop := match k.stop? with
    | none => line.length
    | some p =>
      if p.char = 0 then ((bounds[p.field - 1]?).map Prod.snd).getD line.length
      else min line.length (startOf p + p.char)
  (line.drop start).take (stop - start)

/-- What of a text counts when it is compared by bytes. -/
def relevant (letters : List Char) (text : Octets) : Octets :=
  let text := if letters.contains 'd' then text.filter fun c => c.isAlphanum || isWhite c else text
  let text := if letters.contains 'i' then text.filter isPrintable else text
  if letters.contains 'f' then text.map Char.toUpper else text

def compareBy (letters : List Char) (a b : Octets) : Ordering :=
  let o :=
    if letters.contains 'n' then compareNumbers a b
    else if letters.contains 'h' then compareUnits a b
    else if letters.contains 'g' then compareGeneral a b
    else if letters.contains 'M' then compare (monthOf a) (monthOf b)
    else if letters.contains 'V' then
      compareVersions (a.length + b.length + 1) (relevant letters a) (relevant letters b)
    else compareBytes (relevant letters a) (relevant letters b)
  if letters.contains 'r' then o.swap else o

def keyPlace? (text : Octets) : Option (Nat × Option Nat × Octets) :=
  let field := text.takeWhile Char.isDigit
  (Numeral.digits? 10 field).map fun n =>
    match text.drop field.length with
    | '.' :: rest =>
      let char := rest.takeWhile Char.isDigit
      (n, Numeral.digits? 10 char, rest.drop char.length)
    | rest => (n, none, rest)

/-- A key as an option gives it, or what is wrong with it. -/
def key (text : Octets) : Except Octets Key :=
  let invalid : Except Octets Key := .error
    (oct "invalid number at field start: invalid count at start of " ++ cited text)
  match keyPlace? text with
  | none => invalid
  | some (0, _, _) =>
    .error (oct "field number is zero: invalid field specification " ++ cited text)
  | some (field, char?, rest) =>
    let letters := rest.takeWhile fun c => orderLetters.toList.contains c
    let start : KeyPlace := ⟨field, char?.getD 1, letters.contains 'b'⟩
    match rest.drop letters.length with
    | [] => .ok ⟨start, none, letters⟩
    | ',' :: rest =>
      match keyPlace? rest with
      | none => .error (oct "invalid number after ',': invalid count at start of " ++ cited rest)
      | some (field, char?, rest) =>
        let more := rest.takeWhile fun c => orderLetters.toList.contains c
        if more.length < rest.length then
          .error (oct "stray character in field spec: invalid field specification " ++ cited text)
        else .ok ⟨start, some ⟨field, char?.getD 0, more.contains 'b'⟩, letters ++ more⟩
    | _ =>
      .error (oct "stray character in field spec: invalid field specification " ++ cited text)

/-! ## sort -/

def sortOptions : Options :=
  ⟨"bcCdfghik:mMno:rRsS:t:T:uVyz", [("key", 'k', .something), ("field-separator", 't', .something),
    ("reverse", 'r', .nothing), ("unique", 'u', .nothing), ("numeric-sort", 'n', .nothing),
    ("output", 'o', .something), ("stable", 's', .nothing), ("ignore-case", 'f', .nothing),
    ("check", 'c', .maybe), ("human-numeric-sort", 'h', .nothing),
    ("general-numeric-sort", 'g', .nothing), ("version-sort", 'V', .nothing),
    ("month-sort", 'M', .nothing), ("ignore-leading-blanks", 'b', .nothing),
    ("dictionary-order", 'd', .nothing), ("merge", 'm', .nothing), ("zero-terminated", 'z', .nothing)]⟩

/-- How lines are compared by the keys alone. -/
def compareKeys (g : Given) (separator? : Option Char) (keys : List Key) (a b : Octets) : Ordering :=
  let general := (g.options.map Prod.fst).filter fun c => orderLetters.toList.contains c
  if keys.isEmpty then
    let strip (text : Octets) : Octets := if g.has 'b' then text.dropWhile isWhite else text
    compareBy general (strip a) (strip b)
  else
    keys.foldl (fun o k =>
      let k : Key :=
        if k.letters.isEmpty then
          { k with
            letters := general
            start := { k.start with skipBlanks := g.has 'b' }
            stop? := k.stop?.map fun p => { p with skipBlanks := g.has 'b' } }
        else k
      o.then (compareBy k.letters (k.of separator? a) (k.of separator? b))) .eq

/-- Keep the first of lines that are the same by their keys. -/
def withoutRepeats (same : Octets → Octets → Bool) : List Octets → List Octets
  | [] => []
  | line :: lines =>
    match withoutRepeats same lines with
    | [] => [line]
    | next :: rest => if same line next then line :: rest else line :: next :: rest

/-- The number of the first line that is not in order after the one before it. -/
def disorder? (wrong : Octets → Octets → Bool) : Nat → List Octets → Option (Nat × Octets)
  | n, a :: b :: rest => if wrong a b then some (n + 1, b) else disorder? wrong (n + 1) (b :: rest)
  | _, _ => none

def separatorOf (g : Given) : Except Octets (Option Char) :=
  match g.argument? 't' with
  | none => .ok none
  | some [c] => .ok (some c)
  | some ['\\', '0'] => .ok (some '\x00')
  | some [] => .error (oct "empty tab")
  | some text => .error (oct "multi-character tab " ++ cited text)

def sort : Tool := reading "sort" sortOptions 2 fun g => do
  let keys := (g.options.filter fun o => o.1 = 'k').mapM fun o => key o.2
  match keys, separatorOf g with
  | .error text, _ | _, .error text =>
    say "sort" text
    return 2
  | .ok keys, .ok separator? =>
    let byKeys := compareKeys g separator? keys
    let whole (a b : Octets) : Ordering :=
      let last := compareBytes a b
      (byKeys a b).then
        (if g.has 's' || g.has 'u' then .eq else if g.has 'r' then last.swap else last)
    let complain (name : Octets) : FileFault → Act Unit
      | .isDirectory => say "sort" (oct "read failed: " ++ shown name ++ oct ": Is a directory")
      | fault => sayFault "sort" (oct "cannot read: " ++ shown name) fault
    let (found, good) ← inputs complain g.operands
    if !good then return 2
    let texts := found.map fun (name, content) => (name, bareLines content)
    let lines := texts.flatMap Prod.snd
    if g.has 'c' || g.has 'C' then
      let wrong (a b : Octets) : Bool :=
        whole a b == .gt || (g.has 'u' && byKeys a b == .eq)
      match disorder? wrong 1 lines with
      | none => return 0
      | some (n, line) =>
        let name := (g.operands.head?).getD ['-']
        unless g.has 'C' do
          say "sort" (name ++ oct (":" ++ toString n ++ ": disorder: ") ++ line)
        return 1
    else
      let sorted := lines.mergeSort fun a b => whole a b != .gt
      let kept := if g.has 'u' then withoutRepeats (fun a b => byKeys a b == .eq) sorted else sorted
      match g.argument? 'o' with
      | none =>
        write 1 (unlines kept)
        return 0
      | some name =>
        match ← change fun fs => do fs.writeAt (← fs.resolve (path name)) (unlines kept).toBytes with
        | none => return 0
        | some fault =>
          sayFault "sort" (oct "open failed: " ++ shown name) fault
          return 2

/-! ## uniq -/

def uniqOptions : Options :=
  ⟨"cdDf:is:uw:z", [("count", 'c', .nothing), ("repeated", 'd', .nothing),
    ("all-repeated", 'D', .maybe), ("skip-fields", 'f', .something),
    ("ignore-case", 'i', .nothing), ("skip-chars", 's', .something), ("unique", 'u', .nothing),
    ("check-chars", 'w', .something)]⟩

/-- Lines that follow one another and are the same, together. -/
def grouped (same : Octets → Octets → Bool) : List Octets → List (List Octets)
  | [] => []
  | line :: lines =>
    match grouped same lines with
    | (next :: rest) :: groups =>
      if same line next then (line :: next :: rest) :: groups else [line] :: (next :: rest) :: groups
    | groups => [line] :: groups

def withoutFields : Nat → Octets → Octets
  | 0, line => line
  | n + 1, line => withoutFields n ((line.dropWhile isWhite).dropWhile (!isWhite ·))

def uniq : Tool := reading "uniq" uniqOptions 1 fun g => do
  let count (letter : Char) : Nat := ((g.argument? letter).bind natural?).getD 0
  let part (line : Octets) : Octets :=
    let line := (withoutFields (count 'f') line).drop (count 's')
    let line := match (g.argument? 'w').bind natural? with
      | some n => line.take n
      | none => line
    if g.has 'i' then line.map Char.toUpper else line
  match g.operands with
  | _ :: _ :: extra :: _ => usage "uniq" (oct "extra operand " ++ cited extra) 1
  | operands =>
    match ← input (operands.head?.getD ['-']) with
    | .error fault =>
      sayName "uniq" (operands.head?.getD []) fault
      return 1
    | .ok content =>
      let groups := grouped (fun a b => part a == part b) (bareLines content)
      let text : Octets := groups.flatMap fun group =>
        let n := group.length
        let line := group.head?.getD []
        if g.has 'D' then if n > 1 then unlines group else []
        else if (g.has 'd' && n = 1) || (g.has 'u' && n > 1) then []
        else (if g.has 'c' then padLeft 7 (nat n) ++ [' '] else []) ++ line ++ ['\n']
      match operands[1]? with
      | none =>
        write 1 text
        return 0
      | some name =>
        match ← change fun fs => do fs.writeAt (← fs.resolve (path name)) text.toBytes with
        | none => return 0
        | some fault =>
          sayName "uniq" name fault
          return 1

/-! ## comm -/

/-- The lines of two sorted texts: those of the first only, of the second only, and of both. -/
def mergeLines : Nat → List Octets → List Octets → List (Nat × Octets)
  | 0, _, _ => []
  | _, [], bs => bs.map fun b => (2, b)
  | _, as, [] => as.map fun a => (1, a)
  | fuel + 1, a :: as, b :: bs =>
    if a = b then (3, a) :: mergeLines fuel as bs
    else if before a b then (1, a) :: mergeLines fuel as (b :: bs)
    else (2, b) :: mergeLines fuel (a :: as) bs

def inOrder : List Octets → Bool
  | a :: b :: rest => !before b a && inOrder (b :: rest)
  | _ => true

def comm : Tool := reading "comm" ⟨"123z", [("nocheck-order", 'n', .nothing)]⟩ 1 fun g => do
  match g.operands with
  | [] => usage "comm" (oct "missing operand") 1
  | [a] => usage "comm" (oct "missing operand after " ++ cited a) 1
  | _ :: _ :: extra :: _ => usage "comm" (oct "extra operand " ++ cited extra) 1
  | operands =>
    let (found, good) ← inputs (sayName "comm") operands
    match found, good with
    | [(_, a), (_, b)], true =>
      let a := bareLines a
      let b := bareLines b
      let merged := mergeLines (a.length + b.length + 1) a b
      for (column, line) in merged do
        let hidden (n : Nat) : Bool := g.has (Char.ofNat (48 + n))
        let tabs := (List.range (column - 1)).filter fun i => !hidden (i + 1)
        unless hidden column do write 1 (tabs.map (fun _ => '\t') ++ line ++ ['\n'])
      let matters := merged.any (fun x => x.1 ≠ 3) && !g.has 'n'
      let wrong := (if inOrder a then [] else [1]) ++ (if inOrder b then [] else [2])
      if matters && !wrong.isEmpty then
        for n in wrong do say "comm" (oct ("file " ++ toString n ++ " is not in sorted order"))
        say "comm" (oct "input is not in sorted order")
        return 1
      return 0
    | _, _ => return 1

end MakeConfig.Tool
