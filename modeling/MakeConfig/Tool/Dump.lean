import MakeConfig.Tool.Lines

/-! # Dumps

A tool that shows the bytes of files as numbers or characters, so many on a line, with the place of
the first one in front.
-/

namespace MakeConfig.Tool.Dump

open Text Shell Act

/-! ## Formats -/

inductive Show where
  | named
  | char
  | signed
  | unsigned
  | octal
  | hex
  deriving DecidableEq

structure Format where
  kind : Show
  /-- How many bytes a number takes. -/
  size : Nat
  /-- Whether the characters follow the line. -/
  trailer : Bool

def Format.width (f : Format) : Nat :=
  let among (widths : List Nat) : Nat := widths.getD (Nat.log2 f.size) 0
  match f.kind with
  | .named | .char => 3
  | .signed => among [4, 6, 11, 20]
  | .unsigned => among [3, 5, 10, 20]
  | .octal => among [3, 6, 11, 22]
  | .hex => among [2, 4, 8, 16]

def sizeLetters : List (Char × Nat) := [('C', 1), ('S', 2), ('I', 4), ('L', 8)]

/-- A size in digits or as a letter, four if there is none. -/
def size? (kind : Char) (cs : Octets) : Except Octets (Nat × Octets) :=
  let digits := cs.takeWhile Char.isDigit
  match digits, cs with
  | [], c :: rest =>
    match sizeLetters.lookup c with
    | some n => .ok (n, rest)
    | none => .ok (4, cs)
  | [], [] => .ok (4, [])
  | digits, cs =>
    let n := (natural? digits).getD 0
    if [1, 2, 4, 8].contains n then .ok (n, cs.drop digits.length)
    else .error (oct "invalid type string " ++ cited (kind :: cs) ++
      oct ";\nthis system doesn't provide a " ++ digits ++ oct "-byte integral type")

/-- The formats that a word of letters and sizes names. -/
def formats (whole : Octets) : Nat → Octets → Except Octets (List Format)
  | 0, _ | _, [] => .ok []
  | fuel + 1, c :: cs => do
    let kind? : Option Show := match c with
      | 'a' => some .named
      | 'c' => some .char
      | 'd' => some .signed
      | 'u' => some .unsigned
      | 'o' => some .octal
      | 'x' => some .hex
      | _ => none
    match kind? with
    | none =>
      throw (oct "invalid character " ++ cited [c] ++ oct " in type string " ++ cited whole)
    | some kind =>
      let (size, rest) ← if c = 'a' ∨ c = 'c' then .ok (1, cs) else size? c cs
      match rest with
      | 'z' :: rest => return ⟨kind, size, true⟩ :: (← formats whole fuel rest)
      | rest => return ⟨kind, size, false⟩ :: (← formats whole fuel rest)

/-- Letters that stand for formats. -/
def shorthand : List (Char × String) :=
  [('a', "a"), ('b', "o1"), ('c', "c"), ('d', "u2"), ('i', "d4"), ('l', "d8"), ('o', "o2"), ('s', "d2"),
    ('x', "x2")]

/-! ## Fields -/

def controlNames : List String :=
  ["nul", "soh", "stx", "etx", "eot", "enq", "ack", "bel", "bs", "ht", "nl", "vt", "ff", "cr", "so",
    "si", "dle", "dc1", "dc2", "dc3", "dc4", "nak", "syn", "etb", "can", "em", "sub", "esc", "fs",
    "gs", "rs", "us", "sp"]

def nameOf (n : Nat) : Octets :=
  let n := n % 128
  if n = 127 then oct "del" else (controlNames[n]?.map oct).getD [Char.ofNat n]

def charOf (n : Nat) : Octets :=
  let c := Char.ofNat n
  if n = 0 then ['\\', '0']
  else if (7 ≤ n ∧ n ≤ 13) ∨ isPrintable c then if isPrintable c then [c] else escapeOf c
  else octalDigits c

def zeros (width : Nat) (text : Octets) : Octets := List.replicate (width - text.length) '0' ++ text

/-- A number of bytes, the lowest first. -/
def field (f : Format) (bytes : List Nat) : Octets :=
  let n := bytes.foldr (fun b n => n * 256 + b) 0
  let bound := Nat.pow 256 f.size
  padLeft f.width <| match f.kind with
    | .named => nameOf n
    | .char => charOf n
    | .signed => if 2 * n < bound then nat n else '-' :: nat (bound - n)
    | .unsigned => nat n
    | .octal => zeros f.width (Numeral.digits 8 n)
    | .hex => zeros f.width (Numeral.digits 16 n)

/-! ## Lines -/

structure Setting where
  formats : List Format
  /-- How many bytes stand on a line. -/
  perLine : Nat
  radix? : Option Nat
  all : Bool

namespace Setting

variable (s : Setting)

/-- The width of the lines, which those of all formats have. -/
def width : Nat := (s.formats.map fun f => (f.width + 1) * (s.perLine / f.size)).foldl max 0

def place (n : Nat) : Octets :=
  match s.radix? with
  | none => []
  | some radix => zeros (if radix = 16 then 6 else 7) (Numeral.digits radix n)

/-- The bytes of a line in a format. Lines that are too narrow get spaces between their fields. -/
def body (f : Format) (bytes : List Nat) : Octets :=
  let count := s.perLine / f.size
  let blank := (s.perLine - bytes.length) / f.size
  let spare := s.width - f.width * count
  let part (i : Nat) : Octets :=
    let field := field f ((bytes.drop (i * f.size)).take f.size)
    let gap := spare * (count - i) / count - spare * (count - i - 1) / count
    List.replicate gap ' ' ++ field
  let trailer := if f.trailer then
      List.replicate (blank * f.width + spare * blank / count) ' ' ++ oct "  >" ++
        bytes.map (fun n => if isPrintable (Char.ofNat n) then Char.ofNat n else '.') ++ ['<']
    else []
  (List.range (count - blank)).flatMap part ++ trailer ++ ['\n']

def line (start : Nat) (bytes : List Nat) : Octets :=
  let label := s.place start
  match s.formats with
  | [] => []
  | f :: fs => label ++ s.body f bytes ++
      fs.flatMap fun f => List.replicate label.length ' ' ++ s.body f bytes

/-- The lines of a content. Whole lines that equal the one before are left out. -/
def lines : Nat → Nat → Option (List Nat) → Bool → List Nat → Octets
  | 0, _, _, _, _ => []
  | fuel + 1, start, before?, starred, bytes =>
    if bytes.isEmpty then (if s.radix?.isSome then s.place start ++ ['\n'] else [])
    else
      let these := bytes.take s.perLine
      let rest := bytes.drop s.perLine
      let next := start + these.length
      if !s.all && these.length = s.perLine && before? == some these then
        (if starred then [] else ['*', '\n']) ++ lines fuel next before? true rest
      else s.line start these ++ lines fuel next (some these) false rest

end Setting

/-! ## The tool -/

def options : Options :=
  ⟨"A:abcdij:lN:ost:vw::x", [("address-radix", 'A', .something), ("skip-bytes", 'j', .something),
    ("read-bytes", 'N', .something), ("format", 't', .something),
    ("output-duplicates", 'v', .nothing), ("width", 'w', .maybe)]⟩

def radixOf (letter : Char) : Except Octets (Option Nat) :=
  match letter with
  | 'd' => .ok (some 10)
  | 'o' => .ok (some 8)
  | 'x' => .ok (some 16)
  | 'n' => .ok none
  | c => .error (oct "invalid output address radix '" ++ c ::
      oct "'; it must be one character from [doxn]")

/-- A number, octal or hexadecimal if it starts so, with a unit. -/
def count? (text : Octets) : Option Nat :=
  match text with
  | '0' :: 'x' :: digits | '0' :: 'X' :: digits => Numeral.digits? 16 digits
  | '0' :: d :: digits => Numeral.digits? 8 (d :: digits)
  | digits => scaled? digits

def settingOf (g : Given) : Except Octets Setting := do
  let given ← g.options.mapM fun (letter, argument) =>
    if letter = 't' then formats argument (argument.length + 1) argument
    else
      let word := oct ((shorthand.lookup letter).getD "")
      formats word (word.length + 1) word
  let formats := match given.flatten with
    | [] => [⟨.octal, 2, false⟩]
    | formats => formats
  let largest := (formats.map Format.size).foldl max 1
  let radix? ← radixOf (((g.argument? 'A').bind List.head?).getD 'o')
  let perLine := match g.argument? 'w' with
    | none => 16
    | some [] => 32
    | some text => (natural? text).getD 0
  if perLine = 0 ∨ perLine % largest ≠ 0 then
    return ⟨formats, largest, radix?, g.has 'v'⟩
  return ⟨formats, perLine, radix?, g.has 'v'⟩

def od : Tool := reading "od" options 1 fun g => do
  match settingOf g with
  | .error text =>
    say "od" text
    return 1
  | .ok s =>
    let (found, good) ← inputs (sayName "od") g.operands
    let all := found.flatMap Prod.snd
    let skipped := ((g.argument? 'j').bind count?).getD 0
    if found.isEmpty then return 1
    else if skipped > all.length then
      say "od" (oct "cannot skip past end of combined input")
      return 1
    else
      let rest := all.drop skipped
      let text := match (g.argument? 'N').bind count? with
        | some n => rest.take n
        | none => rest
      write 1 (s.lines (text.length + 1) skipped none false (text.map Char.toNat))
      return statusOf good

end MakeConfig.Tool.Dump
