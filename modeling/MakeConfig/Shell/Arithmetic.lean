import MakeConfig.Numeral.Integer
import MakeConfig.Text.Octets

/-! # Arithmetic

Expressions on integers of 64 bits that wrap around. They read variables, whose texts have to be
numbers, and can give them new values.
-/

namespace MakeConfig.Shell.Arithmetic

open Text

inductive Operator where
  | add | subtract | multiply | divide | remainder
  | shiftLeft | shiftRight
  | less | lessEqual | greater | greaterEqual | equal | unequal
  | bitAnd | bitOr | bitXor
  | both | either
  deriving DecidableEq, Repr

inductive Expression where
  | number (value : Int)
  | variable (name : Octets)
  | minus (e : Expression)
  | not (e : Expression)
  | complement (e : Expression)
  | binary (op : Operator) (left right : Expression)
  | choice (test yes no : Expression)
  /-- A new value for a variable, which an operator may make from the old one. -/
  | assign (name : Octets) (op? : Option Operator) (e : Expression)

instance : Inhabited Expression := ⟨.number 0⟩

inductive Fault where
  /-- What should have come next. -/
  | expecting (what : String)
  | divisionByZero
  | notNumber (text : Octets)
  deriving DecidableEq

/-! ## Words of 64 bits -/

def wrap (v : Int) : Int := Int.bmod v 0x10000000000000000

def ofBool (b : Bool) : Int := if b then 1 else 0

def onBits (f : BitVec 64 → BitVec 64 → BitVec 64) (a b : Int) : Int :=
  (f (BitVec.ofInt 64 a) (BitVec.ofInt 64 b)).toInt

def apply (op : Operator) (a b : Int) : Except Fault Int :=
  match op with
  | .add => .ok (wrap (a + b))
  | .subtract => .ok (wrap (a - b))
  | .multiply => .ok (wrap (a * b))
  | .divide => if b = 0 then .error .divisionByZero else .ok (wrap (Int.tdiv a b))
  | .remainder => if b = 0 then .error .divisionByZero else .ok (Int.tmod a b)
  | .shiftLeft => .ok (onBits (fun x y => x <<< (y.toNat % 64)) a b)
  | .shiftRight => .ok (onBits (fun x y => x.sshiftRight (y.toNat % 64)) a b)
  | .less => .ok (ofBool (a < b))
  | .lessEqual => .ok (ofBool (a ≤ b))
  | .greater => .ok (ofBool (b < a))
  | .greaterEqual => .ok (ofBool (b ≤ a))
  | .equal => .ok (ofBool (a = b))
  | .unequal => .ok (ofBool (a ≠ b))
  | .bitAnd => .ok (onBits (· &&& ·) a b)
  | .bitOr => .ok (onBits (· ||| ·) a b)
  | .bitXor => .ok (onBits (· ^^^ ·) a b)
  | .both => .ok (ofBool (a ≠ 0 ∧ b ≠ 0))
  | .either => .ok (ofBool (a ≠ 0 ∨ b ≠ 0))

/-! ## Reading -/

inductive Token where
  | number (value : Int)
  | name (text : Octets)
  | operator (op : Operator)
  | assign (op? : Option Operator)
  | bang
  | tilde
  | question
  | colon
  | leftParen
  | rightParen

def isBlank (c : Char) : Bool := c == ' ' || c == '\t' || c == '\n'

/-- The operators, the longer ones before those that they start with. -/
def operators : List (String × Token) :=
  [("<<=", .assign (some .shiftLeft)), (">>=", .assign (some .shiftRight)),
    ("&&", .operator .both), ("||", .operator .either), ("<<", .operator .shiftLeft),
    (">>", .operator .shiftRight), ("<=", .operator .lessEqual), (">=", .operator .greaterEqual),
    ("==", .operator .equal), ("!=", .operator .unequal), ("+=", .assign (some .add)),
    ("-=", .assign (some .subtract)), ("*=", .assign (some .multiply)),
    ("/=", .assign (some .divide)), ("%=", .assign (some .remainder)),
    ("&=", .assign (some .bitAnd)), ("|=", .assign (some .bitOr)), ("^=", .assign (some .bitXor)),
    ("+", .operator .add), ("-", .operator .subtract), ("*", .operator .multiply),
    ("/", .operator .divide), ("%", .operator .remainder), ("<", .operator .less),
    (">", .operator .greater), ("&", .operator .bitAnd), ("|", .operator .bitOr),
    ("^", .operator .bitXor), ("=", .assign none), ("!", .bang), ("~", .tilde),
    ("?", .question), (":", .colon), ("(", .leftParen), (")", .rightParen)]

def maxValue : Nat := 0x7FFFFFFFFFFFFFFF

/-- Digits at the head of a text in the radix that their start gives. -/
def leadingNumber? (cs : List Char) : Option (Nat × List Char) :=
  let isHex (c : Char) : Bool := (Numeral.digits? 16 [c]).isSome
  let isOctal (c : Char) : Bool := '0' ≤ c && c ≤ '7'
  let (radix, ds, rest) := match cs with
    | '0' :: x :: more =>
      if (x = 'x' ∨ x = 'X') ∧ (more.head?.map isHex).getD false then
        (16, more.takeWhile isHex, more.dropWhile isHex)
      else (8, cs.takeWhile isOctal, cs.dropWhile isOctal)
    | _ => (10, cs.takeWhile Char.isDigit, cs.dropWhile Char.isDigit)
  if ds.isEmpty then none
  else (Numeral.digits? radix ds).map fun n => (min n maxValue, rest)

/-- The tokens of a text as far as there are any. -/
def tokens : Nat → List Char → List Token × List Char
  | 0, cs => ([], cs)
  | fuel + 1, cs =>
    let cs := cs.dropWhile isBlank
    let more (t : Token) (rest : List Char) : List Token × List Char :=
      let (ts, rest) := tokens fuel rest
      (t :: ts, rest)
    match cs with
    | [] => ([], [])
    | c :: _ =>
      if c.isDigit then
        match leadingNumber? cs with
        | some (n, rest) => more (.number n) rest
        | none => ([], cs)
      else if c.isAlpha ∨ c = '_' then
        let isNameChar (c : Char) : Bool := c.isAlphanum || c == '_'
        more (.name (cs.takeWhile isNameChar)) (cs.dropWhile isNameChar)
      else
        match operators.find? fun o => o.1.toList.isPrefixOf cs with
        | some (text, t) => more t (cs.drop text.length)
        | none => ([], cs)

/-- How strongly an operator with two sides binds. -/
def strength : Operator → Nat
  | .multiply | .divide | .remainder => 10
  | .add | .subtract => 9
  | .shiftLeft | .shiftRight => 8
  | .less | .lessEqual | .greater | .greaterEqual => 7
  | .equal | .unequal => 6
  | .bitAnd => 5
  | .bitXor => 4
  | .bitOr => 3
  | .both => 2
  | .either => 1

mutual

def readPrimary : Nat → List Token → Except Fault (Expression × List Token)
  | 0, _ => .error (.expecting "primary")
  | fuel + 1, ts =>
    match ts with
    | .number n :: ts => .ok (.number n, ts)
    | .name x :: ts => .ok (.variable x, ts)
    | .leftParen :: ts => do
      let (e, ts) ← readAssignment fuel ts
      match ts with
      | .rightParen :: ts => return (e, ts)
      | _ => throw (.expecting "')'")
    | .bang :: ts => do
      let (e, ts) ← readPrimary fuel ts
      return (.not e, ts)
    | .tilde :: ts => do
      let (e, ts) ← readPrimary fuel ts
      return (.complement e, ts)
    | .operator .subtract :: ts => do
      let (e, ts) ← readPrimary fuel ts
      return (.minus e, ts)
    | .operator .add :: ts => readPrimary fuel ts
    | _ => .error (.expecting "primary")

/-- Operators that bind at least so strongly, after a left side. -/
def readBinary : Nat → Nat → Expression → List Token → Except Fault (Expression × List Token)
  | 0, _, left, ts => .ok (left, ts)
  | fuel + 1, least, left, ts =>
    match ts with
    | .operator op :: rest =>
      if strength op ≥ least then do
        let (right, rest) ← readPrimary fuel rest
        let (right, rest) ← readBinary fuel (strength op + 1) right rest
        readBinary fuel least (.binary op left right) rest
      else .ok (left, ts)
    | _ => .ok (left, ts)

def readChoice : Nat → List Token → Except Fault (Expression × List Token)
  | 0, _ => .error (.expecting "primary")
  | fuel + 1, ts => do
    let (first, ts) ← readPrimary fuel ts
    let (test, ts) ← readBinary fuel 1 first ts
    match ts with
    | .question :: ts =>
      let (yes, ts) ← readAssignment fuel ts
      match ts with
      | .colon :: ts =>
        let (no, ts) ← readChoice fuel ts
        return (.choice test yes no, ts)
      | _ => throw (.expecting "':'")
    | ts => return (test, ts)

def readAssignment : Nat → List Token → Except Fault (Expression × List Token)
  | 0, _ => .error (.expecting "primary")
  | fuel + 1, ts =>
    match ts with
    | .name x :: .assign op? :: ts => do
      let (e, ts) ← readAssignment fuel ts
      return (.assign x op? e, ts)
    | ts => readChoice fuel ts

end

def read (text : Octets) : Except Fault Expression := do
  let (ts, rest) := tokens (text.length + 1) text
  let (e, left) ← readAssignment (8 * ts.length + 8) ts
  if left.isEmpty ∧ rest.isEmpty then return e else throw (.expecting "EOF")

/-! ## Values -/

/-- The number that the text of a variable is. An empty text is zero. -/
def ofText (text : Octets) : Except Fault Int :=
  let cs := text.dropWhile isBlank
  let (negative, digits) := match cs with
    | '-' :: ds => (true, ds)
    | '+' :: ds => (false, ds)
    | ds => (false, ds)
  if cs.isEmpty then .ok 0
  else
    match leadingNumber? digits with
    | some (n, rest) =>
      if rest.all isBlank then .ok (if negative then -(n : Int) else n)
      else .error (.notNumber text)
    | none => .error (.notNumber text)

/-- The new values of variables, the latest first. -/
abbrev Changes := List (Octets × Int)

/-- The value of an expression, with variables that have been given new values before. -/
def evaluate (value? : Octets → Option Octets) :
    Expression → Changes → Except Fault (Int × Changes)
  | .number n, cs => .ok (n, cs)
  | .variable x, cs => do return (← current x cs, cs)
  | .minus e, cs => do
    let (v, cs) ← evaluate value? e cs
    return (wrap (-v), cs)
  | .not e, cs => do
    let (v, cs) ← evaluate value? e cs
    return (ofBool (v = 0), cs)
  | .complement e, cs => do
    let (v, cs) ← evaluate value? e cs
    return (-v - 1, cs)
  | .binary op l r, cs => do
    let (a, cs) ← evaluate value? l cs
    if op = .both ∧ a = 0 then return (0, cs)
    if op = .either ∧ a ≠ 0 then return (1, cs)
    let (b, cs) ← evaluate value? r cs
    return (← apply op a b, cs)
  | .choice t y n, cs => do
    let (v, cs) ← evaluate value? t cs
    if v ≠ 0 then evaluate value? y cs else evaluate value? n cs
  | .assign x op? e, cs => do
    let (v, cs) ← evaluate value? e cs
    let v ← match op? with
      | none => pure v
      | some op => apply op (← current x cs) v
    return (v, (x, v) :: cs)
where
  current (x : Octets) (cs : Changes) : Except Fault Int :=
    match cs.lookup x with
    | some v => .ok v
    | none => ofText ((value? x).getD [])

end MakeConfig.Shell.Arithmetic
