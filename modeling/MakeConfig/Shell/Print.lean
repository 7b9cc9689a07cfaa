import MakeConfig.Text.Layout

/-! # Printing

The texts that `echo` and `printf` print. A format is used again as long as there are arguments;
those that are missing are empty or zero.
-/

namespace MakeConfig.Shell.Print

open Text Numeral

/-! ## Escapes -/

def isOctal (c : Char) : Bool := '0' ≤ c && c ≤ '7'

/-- The byte that so many octal digits at most stand for, and what follows them. -/
def octal (most : Nat) (cs : Octets) : Char × Octets :=
  let ds := (cs.take most).takeWhile isOctal
  (Char.ofNat ((digitsFrom? 8 0 ds).getD 0 % 256), cs.drop ds.length)

def letters : List (Char × Char) :=
  [('\\', '\\'), ('a', '\x07'), ('b', '\x08'), ('e', '\x1b'), ('f', '\x0c'), ('n', '\n'),
    ('r', '\r'), ('t', '\t'), ('v', '\x0b')]

/-- What a backslash before a text stands for, and what is left of the text. One that means nothing
stands for itself. -/
def escape : Octets → Char × Octets
  | [] => ('\\', [])
  | c :: cs =>
    if isOctal c then octal 3 (c :: cs)
    else
      match letters.lookup c with
      | some d => (d, cs)
      | none => ('\\', c :: cs)

/-- A text with its escapes taken out, and whether one of them ends all printing. Octal numbers have
a zero before them. -/
def unescape : Nat → Octets → Octets × Bool
  | 0, _ | _, [] => ([], false)
  | fuel + 1, c :: cs =>
    let go (d : Char) (rest : Octets) : Octets × Bool :=
      let (text, ends) := unescape fuel rest
      (d :: text, ends)
    if c ≠ '\\' then go c cs
    else
      match cs with
      | 'c' :: _ => ([], true)
      | '0' :: rest => let (d, rest) := octal 3 rest; go d rest
      | rest => let (d, rest) := escape rest; go d rest

def unescaped (text : Octets) : Octets × Bool := unescape text.length text

/-! ## Echo -/

/-- Texts with spaces between them, up to an escape that ends them. -/
def echoTexts : List Octets → Octets × Bool
  | [] => ([], false)
  | text :: texts =>
    let (first, ends) := unescaped text
    if ends || texts.isEmpty then (first, ends)
    else
      let (rest, ends) := echoTexts texts
      (first ++ ' ' :: rest, ends)

/-- What `echo` prints. Only its first word can be an option. -/
def echo (words : List Octets) : Octets :=
  match words with
  | ['-', 'n'] :: texts => (echoTexts texts).1
  | texts =>
    let (text, ends) := echoTexts texts
    if ends then text else text ++ ['\n']

/-! ## Formats -/

/-- Why an argument is no number. -/
inductive Flaw where
  | expected (text : Octets)
  | partly (text : Octets)
  | range (text : Octets)

def Flaw.message : Flaw → Octets
  | expected text => text ++ Octets.ofString ": expected numeric value"
  | partly text => text ++ Octets.ofString ": not completely converted"
  | range text => text ++ Octets.ofString ": Numerical result out of range"

/-- What printing has come to: the text, the arguments that are left, and what was wrong. -/
structure Printed where
  text : Octets
  arguments : List Octets
  flaws : List Octets
  status : Nat
  ended : Bool

abbrev Printing := StateM Printed

def put (text : Octets) : Printing Unit := modify fun p => { p with text := p.text ++ text }

def next? : Printing (Option Octets) := do
  let p ← get
  match p.arguments with
  | [] => return none
  | a :: rest =>
    set { p with arguments := rest }
    return some a

def note (flaw? : Option Flaw) : Printing Unit :=
  match flaw? with
  | none => pure ()
  | some flaw => modify fun p => { p with flaws := p.flaws ++ [flaw.message], status := 1 }

/-- Stop with a complaint. -/
def stop (message : Octets) : Printing Unit :=
  modify fun p => { p with flaws := p.flaws ++ [message], status := 2, ended := true }

def isSpace (c : Char) : Bool := c == ' ' || (9 ≤ c.toNat && c.toNat ≤ 13)

/-- A sign and what follows it, after white space. -/
def signed (text : Octets) : Bool × Octets :=
  match text.dropWhile isSpace with
  | '-' :: cs => (true, cs)
  | '+' :: cs => (false, cs)
  | cs => (false, cs)

/-- The number at the head of a text in the radix that its start gives, and what follows it. -/
def leadingNatural? (cs : Octets) : Option (Nat × Octets) :=
  let (radix, body) : Nat × Octets := match cs with
    | '0' :: x :: d :: rest =>
      if (x = 'x' ∨ x = 'X') ∧ isHexDigit d then (16, d :: rest) else (8, cs)
    | '0' :: _ => (8, cs)
    | _ => (10, cs)
  let ds := body.takeWhile fun c => (digit? radix c).isSome
  (digits? radix ds).map fun n => (n, body.drop ds.length)

def flaw? (text rest : Octets) (outside : Bool) : Option Flaw :=
  if !rest.isEmpty then some (if rest = text then .expected text else .partly text)
  else if outside then some (.range text)
  else none

/-- An argument as an integer between bounds. A quote before a character gives its number. -/
def integer (least most : Int) (text : Octets) : Int × Option Flaw :=
  match text with
  | q :: c :: _ => if q = '"' ∨ q = '\'' then (c.toNat, none) else read
  | [q] => if q = '"' ∨ q = '\'' then (0, none) else read
  | [] => (0, none)
where
  read : Int × Option Flaw :=
    let (negative, cs) := signed text
    match leadingNatural? cs with
    | none => (0, flaw? text text false)
    | some (n, rest) =>
      let v : Int := if negative then -n else n
      (max least (min most v), flaw? text rest (v < least ∨ most < v))

def maxWord : Int := 0xFFFFFFFFFFFFFFFF

/-- An argument as a number of 64 bits. Negative ones wrap around. -/
def natural (text : Octets) : Nat × Option Flaw :=
  let (v, flaw?) := integer (-maxWord) maxWord text
  ((v % 0x10000000000000000).toNat, flaw?)

/-- The decimal number at the head of a text: its digits, its exponent, and what follows it. -/
def leadingDecimal? (cs : Octets) : Option (Nat × Int × Octets) :=
  let whole := cs.takeWhile Char.isDigit
  let rest := cs.drop whole.length
  let (places, rest) : Octets × Octets := match rest with
    | '.' :: more => (more.takeWhile Char.isDigit, more.dropWhile Char.isDigit)
    | rest => ([], rest)
  let (exponent, rest) : Int × Octets := match rest with
    | e :: more =>
      if e = 'e' ∨ e = 'E' then
        let (negative, ds) := match more with
          | '-' :: ds => (true, ds)
          | '+' :: ds => (false, ds)
          | ds => (false, ds)
        match digits? 10 (ds.takeWhile Char.isDigit) with
        | some n => (if negative then -n else n, ds.dropWhile Char.isDigit)
        | none => (0, rest)
      else (0, rest)
    | [] => (0, rest)
  (digits? 10 (whole ++ places)).map fun n => (n, exponent - places.length, rest)

/-- An argument as a floating point number. -/
def decimal (text : Octets) : Binary64 × Option Flaw :=
  match text with
  | [] => (.zero false, none)
  | q :: cs =>
    if q = '"' ∨ q = '\'' then
      ((Binary64.ofRatio? false ((cs.head?.map Char.toNat).getD 0) 1).getD (.zero false), none)
    else
      let (negative, cs) := signed text
      match leadingDecimal? cs with
      | none => (.zero false, flaw? text text false)
      | some (n, e, rest) =>
        let e := max (-5000) (min 5000 e)
        let x? :=
          if e < 0 then Binary64.ofRatio? negative n (Nat.pow 10 (-e).toNat)
          else Binary64.ofRatio? negative (n * Nat.pow 10 e.toNat) 1
        (x?.getD (.zero negative), flaw? text rest x?.isNone)

/-- A directive after its percent sign: the layout but for what arguments say, and what follows. -/
structure Directive where
  layout : Layout
  widthGiven : Bool
  precisionGiven : Bool
  rest : Octets

def number (cs : Octets) : Nat × Octets :=
  ((digitsFrom? 10 0 (cs.takeWhile Char.isDigit)).getD 0, cs.dropWhile Char.isDigit)

def directive (cs : Octets) : Directive :=
  let flags := cs.takeWhile fun c => "#-+ 0".toList.contains c
  let cs := cs.drop flags.length
  let (widthGiven, width, cs) : Bool × Nat × Octets := match cs with
    | '*' :: rest => (true, 0, rest)
    | cs => (false, number cs)
  let (precisionGiven, precision?, cs) : Bool × Option Nat × Octets := match cs with
    | '.' :: '*' :: rest => (true, none, rest)
    | '.' :: rest => let (n, rest) := number rest; (false, some n, rest)
    | cs => (false, none, cs)
  let layout : Layout := ⟨flags.contains '-', flags.contains '+', flags.contains ' ',
    flags.contains '#', flags.contains '0', width, precision?⟩
  ⟨layout, widthGiven, precisionGiven, cs⟩

def maxInt64 : Int := 0x7FFFFFFFFFFFFFFF

def nextInteger : Printing Int := do
  let (v, flaw?) := integer (-maxInt64 - 1) maxInt64 ((← next?).getD [])
  note flaw?
  return v

/-- The layout with what arguments say of it. A negative width is one to the left. -/
def Directive.settled (d : Directive) : Printing Layout := do
  let l ← if d.widthGiven then do
      let v ← nextInteger
      pure { d.layout with width := v.natAbs, left := d.layout.left || v < 0 }
    else pure d.layout
  if d.precisionGiven then
    let v ← nextInteger
    return { l with precision? := if v < 0 then none else some v.toNat }
  else return l

/-- Print an argument as a letter says. -/
def printAs (l : Layout) (letter : Char) (text : Octets) : Printing Unit := do
  match letter with
  | 's' =>
    let value := ((← next?).getD [])
    put (l.text value)
  | 'b' =>
    let (value, ends) := unescaped ((← next?).getD [])
    put (l.text value)
    if ends then modify fun p => { p with ended := true }
  | 'c' => put (l.fill [(((← next?).getD []).head?).getD '\x00'])
  | 'd' | 'i' => put (l.signed (← nextInteger))
  | 'o' | 'u' | 'x' | 'X' =>
    let (n, flaw?) := natural ((← next?).getD [])
    note flaw?
    let radix := if letter = 'o' then 8 else if letter = 'u' then 10 else 16
    put (l.unsigned radix (letter == 'X') n)
  | 'e' | 'E' | 'f' | 'F' | 'g' | 'G' =>
    let (x, flaw?) := decimal ((← next?).getD [])
    note flaw?
    put (l.float letter x)
  | _ => stop (text ++ Octets.ofString ": invalid directive")

/-- Print a format once. -/
def formatOnce : Nat → Octets → Printing Unit
  | 0, _ | _, [] => pure ()
  | fuel + 1, c :: cs => do
    if c = '\\' then
      let (d, rest) := escape cs
      put [d]
      formatOnce fuel rest
    else if c ≠ '%' then
      put [c]
      formatOnce fuel cs
    else
      match cs with
      | '%' :: rest =>
        put ['%']
        formatOnce fuel rest
      | cs =>
        let d := directive cs
        let l ← d.settled
        match d.rest with
        | [] => stop (Octets.ofString "missing format character")
        | letter :: rest =>
          printAs l letter ('%' :: cs.take (cs.length - rest.length))
          unless (← get).ended do formatOnce fuel rest

/-- Print a format until no arguments are left, or it takes none. -/
def formatAgain (format : Octets) : Nat → Printing Unit
  | 0 => pure ()
  | fuel + 1 => do
    let before := (← get).arguments.length
    formatOnce format.length format
    let p ← get
    unless p.ended || p.arguments.isEmpty || p.arguments.length = before do
      formatAgain format fuel

/-- What `printf` prints, its complaints and its status. -/
def format (text : Octets) (arguments : List Octets) : Printed :=
  ((formatAgain text (arguments.length + 1)).run ⟨[], arguments, [], 0, false⟩).2

end MakeConfig.Shell.Print
