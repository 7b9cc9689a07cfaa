import MakeConfig.Text.RegexSyntax
import MakeConfig.Tool.Columns
import MakeConfig.Tool.Sort

/-! # Expressions on the command line

What `expr` makes of its words: arithmetic on integers of any size, comparisons, and parts of texts.
The status tells whether the value is null: an empty text or zero.
-/

namespace MakeConfig.Tool.Compute

open Text Shell Act

/-- Words are read from the front. A fault ends all. -/
abbrev Reading := StateT (List Octets) (Except Octets)

def integer? (text : Octets) : Option Int :=
  match text with
  | '-' :: ds => (natural? ds).map fun n => -(n : Int)
  | ds => (natural? ds).map fun n => (n : Int)

def ofInt (v : Int) : Octets := (toString v).toList

def isNull (text : Octets) : Bool :=
  text.isEmpty || (match integer? text with
    | some v => v == 0
    | none => false)

def ofBool (b : Bool) : Octets := if b then ['1'] else ['0']

def fault {α : Type} (text : Octets) : Reading α := throw text

/-- Take the next word if it is one of some. -/
def takeOne (names : List String) : Reading (Option String) := do
  match ← get with
  | w :: ws =>
    match names.find? fun n => n.toList = w with
    | some n =>
      set ws
      return some n
    | none => return none
  | [] => return none

/-- Complain about a word that should not be the last one. -/
def missingAfter {α : Type} (word : Octets) : Reading α :=
  fault (oct "syntax error: missing argument after " ++ cited word)

def number (text : Octets) : Reading Int :=
  match integer? text with
  | some v => return v
  | none => fault (oct "non-integer argument")

/-- The start of a text that is like an expression: its group, or how long it is. -/
def matchStart (text pattern : Octets) : Reading Octets :=
  match Regex.ofText false pattern with
  | .error e => fault (oct e.message)
  | .ok (r, groups) =>
    match (Regex.seq .textStart r).find? ⟨false, false⟩ text 0 with
    | some found => return if groups > 0 then found.textOf text 1 else nat found.stop
    | none => return if groups > 0 then [] else ['0']

def arithmetic (op : String) (a b : Octets) : Reading Octets := do
  let x ← number a
  let y ← number b
  match op with
  | "+" => return ofInt (x + y)
  | "-" => return ofInt (x - y)
  | "*" => return ofInt (x * y)
  | _ =>
    if y = 0 then fault (oct "division by zero")
    else return ofInt (if op = "/" then x.tdiv y else x.tmod y)

def comparison (op : String) (a b : Octets) : Octets :=
  let o := match integer? a, integer? b with
    | some x, some y => compare x y
    | _, _ => compareBytes a b
  ofBool (match op with
    | "<" => o == .lt
    | "<=" => o != .gt
    | "=" | "==" => o == .eq
    | "!=" => o != .eq
    | ">=" => o != .lt
    | _ => o == .gt)

/-- The operators from those that bind least to those that bind most. -/
def levels : List (List String) :=
  [["|"], ["&"], ["<", "<=", "=", "==", "!=", ">=", ">"], ["+", "-"], ["*", "/", "%"], [":"]]

def combine (op : String) (a b : Octets) : Reading Octets :=
  match op with
  | "|" => return if !isNull a then a else if !isNull b then b else ['0']
  | "&" => return if isNull a || isNull b then ['0'] else a
  | ":" => matchStart a b
  | op =>
    if ["+", "-", "*", "/", "%"].contains op then arithmetic op a b
    else return comparison op a b

mutual

def primary : Nat → Octets → Reading Octets
  | 0, _ => fault (oct "syntax error")
  | fuel + 1, before => do
    match ← get with
    | [] => missingAfter before
    | w :: ws =>
      set ws
      match String.ofList w, ws with
      | "(", _ =>
        let v ← level fuel 0 w
        match ← takeOne [")"] with
        | some _ => return v
        | none =>
          match ← get with
          | [] => fault (oct "syntax error: expecting ')' after " ++ cited v)
          | other :: _ => fault (oct "syntax error: expecting ')' instead of " ++ cited other)
      | ")", _ => fault (oct "syntax error: unexpected ')'")
      | "+", next :: rest =>
        set rest
        return next
      | "length", _ :: _ => return nat (← level fuel 5 w).length
      | "match", _ :: _ =>
        let a ← level fuel 5 w
        let b ← level fuel 5 a
        matchStart a b
      | "index", _ :: _ =>
        let a ← level fuel 5 w
        let b ← level fuel 5 a
        return nat (match a.findIdx? b.contains with
          | some i => i + 1
          | none => 0)
      | "substr", _ :: _ =>
        let a ← level fuel 5 w
        let i ← level fuel 5 a
        let n ← level fuel 5 i
        match integer? i, integer? n with
        | some i, some n =>
          if i ≤ 0 ∨ n ≤ 0 then return [] else return (a.drop (i.toNat - 1)).take n.toNat
        | _, _ => return []
      | _, _ => return w

/-- A value with the operators of a level and of those that bind more. -/
def level : Nat → Nat → Octets → Reading Octets
  | 0, _, _ => fault (oct "syntax error")
  | fuel + 1, n, before => do
    match levels[n]? with
    | none => primary fuel before
    | some operators => more fuel n operators (← level fuel (n + 1) before)

/-- What follows a left side at a level. -/
def more : Nat → Nat → List String → Octets → Reading Octets
  | 0, _, _, left => return left
  | fuel + 1, n, operators, left => do
    match ← takeOne operators with
    | none => return left
    | some op =>
      let right ← level fuel (n + 1) op.toList
      more fuel n operators (← combine op left right)

end

def value (words : List Octets) : Except Octets Octets := do
  let (v, rest) ← (level (16 * words.length + 32) 0 []).run words
  match rest with
  | [] => return v
  | w :: _ => throw (oct "syntax error: unexpected argument " ++ cited w)

def expr : Tool := fun words => do
  let words := if words.head? = some ['-', '-'] then words.drop 1 else words
  if words.isEmpty then usage "expr" (oct "missing operand") 2
  else
    match value words with
    | .error text =>
      say "expr" text
      return 2
    | .ok v =>
      write 1 (v ++ ['\n'])
      return if isNull v then 1 else 0

end MakeConfig.Tool.Compute
