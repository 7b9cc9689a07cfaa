import MakeConfig.Numeral.Binary64
import MakeConfig.Numeral.Integer
import MakeConfig.Text.Blank
import MakeConfig.Toml.Value

/-! # TOML scalars

Strings in their four forms, and the words that are truth values, numbers and moments. The
readers of strings give the text and what follows the closing quotes.
-/

namespace MakeConfig.Toml

open Numeral

/-! ## Strings -/

/-- Control characters other than the tab stand in no string and no comment. -/
def isControl (c : Char) : Bool := (c.toNat < 0x20 && c != '\t') || c.toNat == 0x7F

def isQuote (c : Char) : Bool := c.toNat == 0x22

def isApostrophe (c : Char) : Bool := c.toNat == 0x27

def isBackslash (c : Char) : Bool := c.toNat == 0x5C

/-- The character of a code point. Surrogates have none. -/
def scalar? (n : Nat) : Option Char :=
  if n < 0xD800 ∨ (0xDFFF < n ∧ n < 0x110000) then some (Char.ofNat n) else none

/-- What stands after a backslash, with the text after it. -/
def escape? : List Char → Option (Char × List Char)
  | [] => none
  | c :: cs =>
    let code (digits : Nat) : Option (Char × List Char) :=
      if (cs.take digits).length = digits then do
        let n ← digits? 16 (cs.take digits)
        let c ← scalar? n
        return (c, cs.drop digits)
      else none
    match c with
    | 'b' => some ('\x08', cs)
    | 't' => some ('\t', cs)
    | 'n' => some ('\n', cs)
    | 'f' => some ('\x0c', cs)
    | 'r' => some ('\r', cs)
    | 'e' => some ('\x1b', cs)
    | 'x' => code 2
    | 'u' => code 4
    | 'U' => code 8
    | c => if isQuote c ∨ isBackslash c then some (c, cs) else none

/-- The rest of a string on one line. The length of the text bounds the steps. -/
def readBasic : Nat → List Char → Option (List Char × List Char)
  | 0, _ | _, [] => none
  | fuel + 1, c :: cs =>
    if isQuote c then some ([], cs)
    else if isBackslash c then do
      let (e, cs) ← escape? cs
      let (tail, rest) ← readBasic fuel cs
      return (e :: tail, rest)
    else if isControl c then none
    else do
      let (tail, rest) ← readBasic fuel cs
      return (c :: tail, rest)

/-- The rest of a string without escapes on one line. -/
def readLiteral : List Char → Option (List Char × List Char)
  | [] => none
  | c :: cs =>
    if isApostrophe c then some ([], cs)
    else if isControl c then none
    else (readLiteral cs).map fun (tail, rest) => (c :: tail, rest)

/-- Three quotes or more at the head of a text: up to two of them belong to the string. -/
def closing? (quote : Char → Bool) (cs : List Char) : Option (List Char × List Char) :=
  let quotes := cs.takeWhile quote
  if quotes.length < 3 then none
  else
    let kept := min (quotes.length - 3) 2
    some (cs.take kept, cs.drop (kept + 3))

/-- A line end at the head of a text. -/
def lineEnd? : List Char → Option (List Char)
  | '\n' :: cs => some cs
  | '\r' :: '\n' :: cs => some cs
  | _ => none

def isSpace (c : Char) : Bool := c == ' ' || c == '\t'

/-- Skip white space and line ends. A carriage return alone is neither. -/
def skipBlank : List Char → List Char
  | '\r' :: '\n' :: cs => skipBlank cs
  | c :: cs => if isSpace c ∨ c = '\n' then skipBlank cs else c :: cs
  | [] => []

/-- A backslash at the end of a line takes away the white space up to the next text. -/
def continued? (cs : List Char) : Option (List Char) :=
  (lineEnd? (cs.dropWhile isSpace)).map skipBlank

/-- The rest of a string over several lines, with or without escapes. Line ends stay as they are. -/
def readLines (quote : Char → Bool) (escapes : Bool) :
    Nat → List Char → Option (List Char × List Char)
  | 0, _ | _, [] => none
  | fuel + 1, c :: cs =>
    match closing? quote (c :: cs), lineEnd? (c :: cs) with
    | some (tail, rest), _ => some (tail, rest)
    | none, some rest =>
      (readLines quote escapes fuel rest).map fun (tail, after) =>
        ((c :: cs).take (cs.length + 1 - rest.length) ++ tail, after)
    | none, none =>
      if escapes ∧ isBackslash c then
        match continued? cs with
        | some rest => readLines quote escapes fuel rest
        | none => do
          let (e, cs) ← escape? cs
          let (tail, rest) ← readLines quote escapes fuel cs
          return (e :: tail, rest)
      else if isControl c then none
      else (readLines quote escapes fuel cs).map fun (tail, rest) => (c :: tail, rest)

/-- A line end right after the opening quotes does not count. -/
def afterOpening (cs : List Char) : List Char := (lineEnd? cs).getD cs

/-- Three quotes at the head of a text. -/
def tripled? (quote : Char → Bool) (cs : List Char) : Option (List Char) :=
  if (cs.take 3).length = 3 ∧ (cs.take 3).all quote then some (cs.drop 3) else none

/-- A string in any form. -/
def readString (cs : List Char) : Option (String × List Char) :=
  let found : Option (List Char × List Char) :=
    match tripled? isQuote cs, tripled? isApostrophe cs, cs with
    | some rest, _, _ => readLines isQuote true (cs.length + 1) (afterOpening rest)
    | _, some rest, _ => readLines isApostrophe false (cs.length + 1) (afterOpening rest)
    | _, _, c :: rest =>
      if isQuote c then readBasic (rest.length + 1) rest
      else if isApostrophe c then readLiteral rest
      else none
    | _, _, [] => none
  found.map fun (chars, rest) => (String.ofList chars, rest)

/-! ## Numbers and moments -/

/-- The value of digits in a radix, with single underscores between them. -/
def grouped? (radix : Nat) (cs : List Char) : Option Nat :=
  let groups := Text.split '_' cs
  if groups.any List.isEmpty then none else digits? radix groups.flatten

def unsigned (cs : List Char) : List Char :=
  match cs with
  | '+' :: rest | '-' :: rest => rest
  | rest => rest

/-- Decimal digits without a leading zero. -/
def wholePart? (cs : List Char) : Option Nat :=
  if cs.head? = some '0' ∧ cs.length ≠ 1 then none else grouped? 10 cs

/-- The largest integer takes 128 bits, the least one has the same length with a sign. -/
def bounded? (v : Int) : Option Toml :=
  if -0x80000000000000000000000000000000 ≤ v ∧ v ≤ 0xffffffffffffffffffffffffffffffff then
    some (.integer v)
  else none

def integer? (cs : List Char) : Option Toml :=
  match cs with
  | '0' :: 'x' :: ds => (grouped? 16 ds).bind fun n => bounded? n
  | '0' :: 'o' :: ds => (grouped? 8 ds).bind fun n => bounded? n
  | '0' :: 'b' :: ds => (grouped? 2 ds).bind fun n => bounded? n
  | cs => (wholePart? (unsigned cs)).bind fun n =>
      bounded? (if cs.head? = some '-' then -(n : Int) else n)

/-- Whether the number of a significand and an exponent of ten is not too large for 64 bits. An
exponent that outweighs the digits of the significand decides alone. -/
def isFinite (significand : Nat) (exponent : Int) : Bool :=
  let digits := (Nat.toDigits 10 significand).length
  if significand = 0 ∨ exponent + digits < 0 then true
  else if exponent > 400 then false
  else
    let (num, den) :=
      if exponent < 0 then (significand, Nat.pow 10 (-exponent).toNat)
      else (significand * Nat.pow 10 exponent.toNat, 1)
    (Binary64.ofRatio? false num den).isSome

/-- A whole part with a fraction, an exponent or both, or one of the words for no finite number. -/
def float? (cs : List Char) : Option Toml :=
  let body := unsigned cs
  let mantissa := body.takeWhile fun c => c != 'e' && c != 'E'
  let exponent := body.drop mantissa.length
  let whole := mantissa.takeWhile (· != '.')
  let fraction := mantissa.drop whole.length
  let part? (cs : List Char) : Option Nat := if cs = [] then some 0 else grouped? 10 cs
  let digits := (fraction.drop 1).filter (· != '_')
  if body = ['i', 'n', 'f'] ∨ body = ['n', 'a', 'n'] then some (.float (String.ofList cs))
  else if (fraction = [] ∧ exponent = []) ∨ fraction = ['.'] then none
  else do
    let whole ← wholePart? whole
    let part ← part? (fraction.drop 1)
    let power ← if exponent = [] then some 0 else grouped? 10 (unsigned (exponent.drop 1))
    let power : Int := if (exponent.drop 1).head? = some '-' then -power else power
    if isFinite (whole * Nat.pow 10 digits.length + part) (power - digits.length) then
      some (.float (String.ofList cs))
    else none

/-- A number of exactly so many digits, up to a bound. -/
def field? (width bound : Nat) (cs : List Char) : Option (Nat × List Char) := do
  if (cs.take width).length ≠ width then none
  let n ← digits? 10 (cs.take width)
  if n ≤ bound then return (n, cs.drop width) else none

def expect? (c : Char) : List Char → Option (List Char)
  | d :: cs => if c = d then some cs else none
  | [] => none

def daysIn (year month : Nat) : Nat :=
  if month = 2 then
    if year % 4 = 0 ∧ (year % 100 ≠ 0 ∨ year % 400 = 0) then 29 else 28
  else if month ∈ [4, 6, 9, 11] then 30
  else 31

def date? (cs : List Char) : Option (List Char) := do
  let (year, cs) ← field? 4 9999 cs
  let (month, cs) ← field? 2 12 (← expect? '-' cs)
  let (day, cs) ← field? 2 (daysIn year month) (← expect? '-' cs)
  if 0 < month ∧ 0 < day then return cs else none

/-- Hours and minutes. Seconds may follow, with a fraction. -/
def time? (cs : List Char) : Option (List Char) := do
  let (_, cs) ← field? 2 23 cs
  let (_, cs) ← field? 2 59 (← expect? ':' cs)
  match cs with
  | ':' :: cs =>
    let (_, cs) ← field? 2 60 cs
    match cs with
    | '.' :: cs =>
      let digits := cs.takeWhile Char.isDigit
      if digits = [] then none else return cs.drop digits.length
    | cs => return cs
  | cs => return cs

def isZone : List Char → Bool
  | [] | ['Z'] | ['z'] => true
  | '+' :: cs | '-' :: cs =>
    match (field? 2 23 cs).bind fun (_, cs) => (expect? ':' cs).bind (field? 2 59) with
    | some (_, []) => true
    | _ => false
  | _ => false

/-- A date, a time, or both with a zone or without. -/
def isMoment (cs : List Char) : Bool :=
  match date? cs with
  | some [] => true
  | some (c :: rest) =>
    (c == 'T' || c == 't' || c == ' ') && ((time? rest).map isZone).getD false
  | none => time? cs == some []

/-- The value of a word without quotes. -/
def ofWord? (cs : List Char) : Option Toml :=
  if cs = "true".toList then some (.bool true)
  else if cs = "false".toList then some (.bool false)
  else if isMoment cs then some (.moment (String.ofList cs))
  else integer? cs <|> float? cs

end MakeConfig.Toml
