import MakeConfig.Json.Value
import MakeConfig.Numeral.Integer

/-! # JSON documents

What the grammar of JSON makes of a text, before anything is asked of the numbers and
strings in it. A number beyond the binary format and a string with half a surrogate pair
are well formed and have no value. A document becomes a value if all its parts have one
and no more than a given number of arrays and objects are nested.
-/

namespace MakeConfig

inductive Document where
  | null
  | bool (value : Bool)
  | number (value : Option Number)
  | string (value : Option String)
  | array (items : List Document)
  | object (fields : List (Option String × Document))
  deriving Inhabited, Repr

namespace Document

open Numeral

def isSpace (c : Char) : Bool := c == ' ' || c == '\n' || c == '\t' || c == '\r'

def skipSpace (cs : List Char) : List Char := cs.dropWhile isSpace

def isDecimalDigit (c : Char) : Bool := (digit? 10 c).isSome

/-! ## Numbers -/

/-- Digits appended to a significand for as long as it stays below 2^64, with the digits left. -/
def accumulate (significand : Nat) : List Char → Nat × List Char
  | [] => (significand, [])
  | c :: cs =>
    let next := significand * 10 + (digit? 10 c).getD 0
    if next < wordBound then accumulate next cs else (significand, c :: cs)

/-- The parts of a number: digits before and after the point, and the exponent. -/
structure NumberParts where
  negative : Bool
  whole : List Char
  fraction : Option (List Char)
  exponent : Option Int

def NumberParts.value? (n : NumberParts) : Option Number :=
  let (significand, left) := accumulate 0 n.whole
  match n.fraction, n.exponent, left with
  | none, none, [] =>
    if n.negative = false then some (.integer significand)
    else if significand = 0 then some (.fraction (Binary64.zero true))
    else if significand ≤ 0x8000000000000000 then some (.integer (-significand))
    else (Binary64.ofRatio? true significand 1).map .fraction
  | _, _, _ =>
    let digits := n.fraction.getD []
    let (significand, unread) := accumulate significand digits
    let scale : Int := left.length - (digits.length - unread.length : Nat)
    (Binary64.ofDecimal? n.negative significand (scale + n.exponent.getD 0)).map .fraction

/-- A whole part: a zero, or digits that do not start with one. -/
def readWhole (cs : List Char) : Option (List Char × List Char) :=
  match cs.span isDecimalDigit with
  | ([], _) => none
  | ('0' :: _ :: _, _) => none
  | found => some found

def readFraction : List Char → Option (Option (List Char) × List Char)
  | '.' :: cs =>
    match cs.span isDecimalDigit with
    | ([], _) => none
    | (digits, rest) => some (some digits, rest)
  | cs => some (none, cs)

def readExponentDigits (negative : Bool) (cs : List Char) : Option (Option Int × List Char) :=
  match cs.span isDecimalDigit with
  | ([], _) => none
  | (digits, rest) =>
    (digits? 10 digits).map fun n => (some (if negative then -(n : Int) else n), rest)

def readExponent : List Char → Option (Option Int × List Char)
  | c :: cs =>
    if c = 'e' ∨ c = 'E' then
      match cs with
      | '+' :: cs => readExponentDigits false cs
      | '-' :: cs => readExponentDigits true cs
      | cs => readExponentDigits false cs
    else some (none, c :: cs)
  | [] => some (none, [])

def readNumeral (negative : Bool) (cs : List Char) : Option (Document × List Char) := do
  let (whole, cs) ← readWhole cs
  let (fraction, cs) ← readFraction cs
  let (exponent, cs) ← readExponent cs
  return (.number (NumberParts.value? ⟨negative, whole, fraction, exponent⟩), cs)

/-! ## Strings -/

def hexQuad? (a b c d : Char) : Option Nat := digits? 16 [a, b, c, d]

def escaped? : Char → Option Char
  | '"' => some '"'
  | '\\' => some '\\'
  | '/' => some '/'
  | 'b' => some '\x08'
  | 'f' => some '\x0c'
  | 'n' => some '\n'
  | 'r' => some '\r'
  | 't' => some '\t'
  | _ => none

def isHighSurrogate (n : Nat) : Bool := 0xD800 ≤ n && n < 0xDC00

def isLowSurrogate (n : Nat) : Bool := 0xDC00 ≤ n && n < 0xE000

def joinSurrogates (high low : Nat) : Char :=
  Char.ofNat (0x10000 + (high - 0xD800) * 0x400 + (low - 0xDC00))

/-- The characters of a string up to its closing quote, and the text after that. The inner `none`
marks a string with half a surrogate pair. -/
def readChars : List Char → Option (Option (List Char) × List Char)
  | [] => none
  | '"' :: cs => some (some [], cs)
  | '\\' :: 'u' :: a :: b :: c :: d :: cs => do
    let n ← hexQuad? a b c d
    if isHighSurrogate n then
      match cs with
      | '\\' :: 'u' :: e :: f :: g :: h :: rest =>
        let m ← hexQuad? e f g h
        let (tail, left) ← readChars rest
        if isLowSurrogate m then return (tail.map (joinSurrogates n m :: ·), left)
        else return (none, left)
      | cs =>
        let (_, left) ← readChars cs
        return (none, left)
    else
      let (tail, left) ← readChars cs
      return (if isLowSurrogate n then none else tail.map (Char.ofNat n :: ·), left)
  | '\\' :: c :: cs => do
    let c ← escaped? c
    let (tail, left) ← readChars cs
    return (tail.map (c :: ·), left)
  | c :: cs => do
    if c.toNat < 0x20 then none
    let (tail, left) ← readChars cs
    return (tail.map (c :: ·), left)

def readString (cs : List Char) : Option (Option String × List Char) :=
  (readChars cs).map fun (chars, rest) => (chars.map String.ofList, rest)

/-! ## Documents -/

mutual

/-- One document at the head of a text. Every step down takes a character or passes to a part, so
twice the length of the text bounds the steps. -/
def read : Nat → List Char → Option (Document × List Char)
  | 0, _ => none
  | fuel + 1, cs =>
    match skipSpace cs with
    | '[' :: cs =>
      match skipSpace cs with
      | ']' :: cs => some (.array [], cs)
      | cs => (readItems fuel cs).map fun (items, rest) => (.array items, rest)
    | '\x7b' :: cs =>
      match skipSpace cs with
      | '\x7d' :: cs => some (.object [], cs)
      | cs => (readFields fuel cs).map fun (fields, rest) => (.object fields, rest)
    | '"' :: cs => (readString cs).map fun (s, rest) => (.string s, rest)
    | 'n' :: 'u' :: 'l' :: 'l' :: cs => some (.null, cs)
    | 't' :: 'r' :: 'u' :: 'e' :: cs => some (.bool true, cs)
    | 'f' :: 'a' :: 'l' :: 's' :: 'e' :: cs => some (.bool false, cs)
    | '-' :: cs => readNumeral true cs
    | cs => readNumeral false cs

/-- Items with commas between them, up to the closing bracket. -/
def readItems : Nat → List Char → Option (List Document × List Char)
  | 0, _ => none
  | fuel + 1, cs => do
    let (item, cs) ← read fuel cs
    match skipSpace cs with
    | ']' :: cs => return ([item], cs)
    | ',' :: cs =>
      let (items, rest) ← readItems fuel cs
      return (item :: items, rest)
    | _ => none

/-- Fields with commas between them, up to the closing brace. -/
def readFields : Nat → List Char → Option (List (Option String × Document) × List Char)
  | 0, _ => none
  | fuel + 1, cs => do
    let '"' :: cs := skipSpace cs | none
    let (name, cs) ← readString cs
    let ':' :: cs := skipSpace cs | none
    let (value, cs) ← read fuel cs
    match skipSpace cs with
    | '\x7d' :: cs => return ([(name, value)], cs)
    | ',' :: cs =>
      let (fields, rest) ← readFields fuel cs
      return ((name, value) :: fields, rest)
    | _ => none

end

/-- The document that a whole text is. -/
def ofText? (text : String) : Option Document :=
  let cs := text.toList
  match read (2 * cs.length + 2) cs with
  | some (document, rest) => if (skipSpace rest).isEmpty then some document else none
  | none => none

mutual

/-- The value of a document with at most `depth` nested arrays and objects. -/
def value? (depth : Nat) : Document → Option Json
  | .null => some .null
  | .bool b => some (.bool b)
  | .number n => n.map .number
  | .string s => s.map .string
  | .array items =>
    match depth with
    | 0 => none
    | depth + 1 => (itemValues? depth items).map .array
  | .object fields =>
    match depth with
    | 0 => none
    | depth + 1 => (fieldValues? depth fields).map Json.ofFields

def itemValues? (depth : Nat) : List Document → Option (List Json)
  | [] => some []
  | item :: items => do
    let value ← value? depth item
    let values ← itemValues? depth items
    return value :: values

def fieldValues? (depth : Nat) : List (Option String × Document) → Option (List (String × Json))
  | [] => some []
  | (name, item) :: fields => do
    let name ← name
    let value ← value? depth item
    let values ← fieldValues? depth fields
    return (name, value) :: values

end

/-- Arrays and objects may be nested this deep. -/
def maxDepth : Nat := 127

end Document

/-- The value of a whole text. -/
def Json.ofText? (text : String) : Option Json :=
  (Document.ofText? text).bind (Document.value? Document.maxDepth)

/-- The fields of a whole text that is an object, in the order of the text. -/
def Json.fieldsOfText? (text : String) : Option (List (String × Json)) :=
  match Document.ofText? text with
  | some (.object fields) => Document.fieldValues? (Document.maxDepth - 1) fields
  | _ => none

end MakeConfig
