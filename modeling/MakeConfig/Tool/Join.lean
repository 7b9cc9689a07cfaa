import MakeConfig.Tool.Sort

/-! # Joining and aligning

A tool that puts lines of two files together whose fields agree, and one that fills tabs with spaces.
-/

namespace MakeConfig.Tool

open Text Shell Act

/-! ## join -/

/-- Which fields two files are joined by, how fields are told apart, and what is printed. -/
structure JoinRule where
  fields : Nat × Nat
  separator? : Option Char
  ignoreCase : Bool
  /-- Whether lines without a partner are printed, from each file, and whether others are. -/
  lonely : Bool × Bool
  paired : Bool
  filler : Octets
  /-- The fields to print: a file, zero for the common one, and a place. -/
  format? : Option (List (Nat × Nat))

namespace JoinRule

variable (r : JoinRule)

def fieldsOf (line : Octets) : List Octets :=
  match r.separator? with
  | some c => Text.split c line
  | none => words line.length line
where
  words : Nat → Octets → List Octets
    | 0, _ => []
    | fuel + 1, cs =>
      let cs := cs.dropWhile fun c => c == ' ' || c == '\t'
      if cs.isEmpty then []
      else
        let word := cs.takeWhile fun c => c != ' ' && c != '\t'
        word :: words fuel (cs.drop word.length)

def keyOf (second : Bool) (fields : List Octets) : Octets :=
  fields.getD ((if second then r.fields.2 else r.fields.1) - 1) []

def compareKeys (a b : Octets) : Ordering :=
  if r.ignoreCase then compareBytes (a.map Char.toLower) (b.map Char.toLower) else compareBytes a b

def others (second : Bool) (fields : List Octets) : List Octets :=
  fields.eraseIdx ((if second then r.fields.2 else r.fields.1) - 1)

/-- The line that is printed for a line of each file, of which one may be missing. -/
def output (first? second? : Option (List Octets)) : Octets :=
  let key := match first?, second? with
    | some f, _ => r.keyOf false f
    | none, some s => r.keyOf true s
    | none, none => []
  let fields := match r.format? with
    | some places => places.map fun (file, n) =>
        let field :=
          if file = 0 then key
          else (((if file = 1 then first? else second?).getD [])[n - 1]?).getD []
        if field.isEmpty then r.filler else field
    | none => key :: (first?.map (r.others false)).getD [] ++ (second?.map (r.others true)).getD []
  List.intercalate [r.separator?.getD ' '] fields ++ ['\n']

/-- Lines of two files in the order of their keys, joined. -/
def joined : Nat → List (List Octets) → List (List Octets) → Octets
  | 0, _, _ => []
  | _, [], [] => []
  | fuel + 1, a :: first, [] =>
    (if r.lonely.1 then r.output (some a) none else []) ++ joined fuel first []
  | fuel + 1, [], b :: second =>
    (if r.lonely.2 then r.output none (some b) else []) ++ joined fuel [] second
  | fuel + 1, a :: first, b :: second =>
    match r.compareKeys (r.keyOf false a) (r.keyOf true b) with
    | .lt => (if r.lonely.1 then r.output (some a) none else []) ++ joined fuel first (b :: second)
    | .gt => (if r.lonely.2 then r.output none (some b) else []) ++ joined fuel (a :: first) second
    | .eq =>
      let same (second : Bool) (x : List Octets) : Bool :=
        r.compareKeys (r.keyOf second x) (r.keyOf false a) == .eq
      let left := (a :: first).takeWhile (same false)
      let right := (b :: second).takeWhile (same true)
      let pairs := left.flatMap fun x => right.flatMap fun y =>
        if r.paired then r.output (some x) (some y) else []
      pairs ++ joined fuel ((a :: first).drop left.length) ((b :: second).drop right.length)

end JoinRule

def joinOptions : Options :=
  ⟨"1:2:a:e:ij:o:t:v:", [("ignore-case", 'i', .nothing), ("check-order", 'x', .nothing),
    ("nocheck-order", 'y', .nothing), ("header", 'h', .nothing)]⟩

/-- A place in a format: zero, or a file and a field. -/
def formatPlace? (text : Octets) : Option (Nat × Nat) :=
  match text with
  | ['0'] => some (0, 0)
  | '1' :: '.' :: digits => (natural? digits).map fun n => (1, n)
  | '2' :: '.' :: digits => (natural? digits).map fun n => (2, n)
  | _ => none

def joinRule (g : Given) : Except Octets JoinRule := do
  let field (letter : Char) : Except Octets Nat :=
    match g.argument? letter, g.argument? 'j' with
    | some text, _ | none, some text =>
      match natural? text with
      | some 0 | none => .error (oct "invalid field number: " ++ cited text)
      | some n => .ok n
    | none, none => .ok 1
  let wants (letter digit : Char) : Bool := g.options.any fun o => o == (letter, [digit])
  let format? ← match g.argument? 'o' with
    | none => pure none
    | some text => do
      let places ← ((Text.split ',' text).flatMap (Text.split ' ')).mapM fun place =>
        match formatPlace? place with
        | some p => Except.ok p
        | none => .error (oct "invalid field specifier: " ++ cited place)
      pure (some places)
  return {
    fields := (← field '1', ← field '2')
    separator? := (g.argument? 't').map fun t => if t.isEmpty then '\n' else t.headD ' '
    ignoreCase := g.has 'i'
    lonely := (wants 'a' '1' || wants 'v' '1', wants 'a' '2' || wants 'v' '2')
    paired := !g.has 'v'
    filler := (g.argument? 'e').getD []
    format? }

/-- The first line whose key is before that of the line above it, with its number. -/
def JoinRule.unsorted? (r : JoinRule) (second : Bool) : Nat → List Octets → Option (Nat × Octets)
  | n, a :: b :: lines =>
    let key (line : Octets) : Octets := r.keyOf second (r.fieldsOf line)
    if r.compareKeys (key b) (key a) == .lt then some (n + 1, b) else r.unsorted? second (n + 1) (b :: lines)
  | _, _ => none

def join : Tool := reading "join" joinOptions 1 fun g => do
  match joinRule g, g.operands with
  | .error text, _ =>
    say "join" text
    return 1
  | _, [] => usage "join" (oct "missing operand") 1
  | _, [one] => usage "join" (oct "missing operand after " ++ cited one) 1
  | _, _ :: _ :: extra :: _ => usage "join" (oct "extra operand " ++ cited extra) 1
  | .ok r, [first, second] =>
    let (found, good) ← inputs (sayName "join") [first, second]
    match good, found with
    | true, [(_, a), (_, b)] =>
      let left := bareLines a
      let right := bareLines b
      write 1 (r.joined (left.length + right.length + 1) (left.map r.fieldsOf) (right.map r.fieldsOf))
      let mut sorted := true
      for (name, found?) in [(first, r.unsorted? false 1 left), (second, r.unsorted? true 1 right)] do
        match found? with
        | none => pure ()
        | some (n, line) =>
          sorted := false
          say "join" (name ++ ':' :: nat n ++ oct ": is not sorted: " ++ line)
      unless sorted do say "join" (oct "input is not in sorted order")
      return statusOf sorted
    | _, _ => return 1

/-! ## expand -/

/-- How far it is from a column to the next stop. Behind the last one of several it is one column. -/
def toStop (stops : List Nat) (column : Nat) : Nat :=
  match stops with
  | [every] => every - column % every
  | stops => ((stops.find? (column < ·)).map (· - column)).getD 1

def expanded (stops : List Nat) (leadingOnly : Bool) : Nat → Bool → Octets → Octets
  | _, _, [] => []
  | column, leading, c :: cs =>
    if c = '\t' ∧ (leading ∨ !leadingOnly) then
      let width := toStop stops column
      List.replicate width ' ' ++ expanded stops leadingOnly (column + width) leading cs
    else if c = '\n' then c :: expanded stops leadingOnly 0 true cs
    else
      let column := if c = '\x08' then column - 1 else column + 1
      c :: expanded stops leadingOnly column (leading && (c == ' ' || c == '\t')) cs

def expand : Tool := fun words => do
  let words := words.map fun w =>
    match w with
    | '-' :: c :: cs => if c.isDigit then '-' :: 't' :: c :: cs else w
    | w => w
  match ({ letters := "it:", longs := [("initial", 'i', .nothing), ("tabs", 't', .something)] } :
      Options).read true (sizeOf words) words with
  | .error e => usage "expand" e 1
  | .ok g =>
    let text := (g.argument? 't').getD ['8']
    let stops := (Text.split ',' text).map natural?
    if stops.any Option.isNone then
      say "expand" (oct "tab size contains invalid character(s): " ++ quoted text)
      return 1
    else if stops.contains (some 0) then
      say "expand" (oct "tab size cannot be 0")
      return 1
    else
      let good ← forInputs (sayName "expand") g.operands fun _ content =>
        write 1 (expanded (stops.filterMap fun s => s) (g.has 'i') 0 true content)
      return statusOf good

end MakeConfig.Tool
