import MakeConfig.Text.CharSet

/-! # Regular expressions

Expressions with groups, counted repetition and references back to groups, and the places in a text
where they match: the leftmost one, and the longest there. Of the ways to match that, the one is
taken in which the earlier parts are longer.
-/

namespace MakeConfig.Text

inductive Regex where
  | empty
  | one (negated : Bool) (members : List Member)
  /-- Any character, but not a line end if lines are matched one by one. -/
  | any
  /-- The start of a text or of a line, and the end. -/
  | lineStart
  | lineEnd
  | textStart
  | textEnd
  /-- A place between a word and what is none, or one that is not like that. -/
  | wordEdge (wanted : Bool)
  | wordStart
  | wordEnd
  | seq (first second : Regex)
  | alt (left right : Regex)
  | repeated (least : Nat) (most? : Option Nat) (body : Regex)
  | group (index : Nat) (body : Regex)
  | back (index : Nat)

instance : Inhabited Regex := ⟨.empty⟩

namespace Regex

/-- How an expression is looked for. -/
structure Mode where
  ignoreCase : Bool
  multiline : Bool

/-- A place in a text: what was read, the latest first, what is left, and the groups that were matched,
with their starts and ends. -/
structure State where
  before : Octets
  position : Nat
  rest : Octets
  groups : List (Nat × Nat × Nat)

def isWordChar (c : Char) : Bool := c.isAlphanum || c == '_'

namespace State

def afterWord (s : State) : Bool := (s.before.head?.map isWordChar).getD false

def beforeWord (s : State) : Bool := (s.rest.head?.map isWordChar).getD false

def step? (s : State) : Option (Char × State) :=
  match s.rest with
  | [] => none
  | c :: rest => some (c, { s with before := c :: s.before, position := s.position + 1, rest })

/-- Read so many characters. -/
def skip (s : State) (n : Nat) : State :=
  { s with
    before := (s.rest.take n).reverse ++ s.before
    position := s.position + min n s.rest.length
    rest := s.rest.drop n }

end State

/-- Put a state before others, which stand in the order of how far they came, the farthest first. It
takes the place of one that came as far, unless later parts can tell them apart. -/
def place (exact : Bool) (s : State) : List State → List State
  | [] => [s]
  | t :: ts =>
    if s.position < t.position then t :: place exact s ts
    else if s.position = t.position ∧ (!exact ∨ t.groups = s.groups) then s :: ts
    else s :: t :: ts

def merge (exact : Bool) (ss : List State) : List State := ss.foldr (place exact) []

/-- The states after a character. -/
def after (s : State) (test : Char → Bool) : List State :=
  match s.step? with
  | some (c, s) => if test c then [s] else []
  | none => []

def holdsOf (mode : Mode) (negated : Bool) (members : List Member) (c : Char) : Bool :=
  if mode.ignoreCase then
    (members.any (Member.holds c.toLower) || members.any (Member.holds c.toUpper)) != negated
  else CharSet.holds negated members c

def sameText (mode : Mode) (a b : Octets) : Bool :=
  if mode.ignoreCase then a.map Char.toLower == b.map Char.toLower else a == b

/-- The states that a repeated part leads to. One that reads nothing is not repeated for its own
sake. -/
def repeatFrom (exact : Bool) (body : State → List State) :
    Nat → Nat → Option Nat → State → List State
  | 0, least, _, s => if least = 0 then [s] else []
  | fuel + 1, least, most?, s =>
    if most? = some 0 then [s]
    else
      let next := (body s).flatMap fun t =>
        if t.position = s.position ∧ least ≤ 1 then [t]
        else repeatFrom exact body fuel (least - 1) (most?.map (· - 1)) t
      merge exact (if least = 0 then next ++ [s] else next)

variable (mode : Mode) (exact : Bool)

/-- The states that an expression leads to. -/
def states : Regex → State → List State
  | .empty, s => [s]
  | .one negated members, s => after s (holdsOf mode negated members)
  | .any, s => after s fun _ => true
  | .lineStart, s =>
    if s.before.isEmpty || (mode.multiline && s.before.head? == some '\n') then [s] else []
  | .lineEnd, s =>
    if s.rest.isEmpty || (mode.multiline && s.rest.head? == some '\n') then [s] else []
  | .textStart, s => if s.before.isEmpty then [s] else []
  | .textEnd, s => if s.rest.isEmpty then [s] else []
  | .wordEdge wanted, s => if (s.afterWord != s.beforeWord) == wanted then [s] else []
  | .wordStart, s => if !s.afterWord && s.beforeWord then [s] else []
  | .wordEnd, s => if s.afterWord && !s.beforeWord then [s] else []
  | .seq first second, s => merge exact ((states first s).flatMap (states second))
  | .alt left right, s => merge exact (states left s ++ states right s)
  | .repeated least most? body, s =>
    repeatFrom exact (states body) (s.rest.length + least + 1) least most? s
  | .group index body, s =>
    (states body s).map fun t =>
      { t with groups := (index, s.position, t.position) :: t.groups.filter fun g => g.1 != index }
  | .back index, s =>
    match s.groups.lookup index with
    | none => []
    | some (start, stop) =>
      let text := (s.before.drop (s.position - stop)).take (stop - start) |>.reverse
      if sameText mode (s.rest.take text.length) text then [s.skip text.length] else []

/-- Whether an expression refers back to groups. -/
def refers : Regex → Bool
  | .back _ => true
  | .seq a b | .alt a b => a.refers || b.refers
  | .repeated _ _ r | .group _ r => r.refers
  | _ => false

/-- Where an expression matched, and the groups. -/
structure Found where
  start : Nat
  stop : Nat
  groups : List (Nat × Nat × Nat)

/-- The first place at or after a state where an expression matches. -/
def search (r : Regex) : Nat → State → Option Found
  | 0, _ => none
  | fuel + 1, s =>
    match states mode r.refers r s with
    | t :: _ => some ⟨s.position, t.position, t.groups⟩
    | [] => s.step?.bind fun (_, s) => search r fuel s

/-- The state at a place in a text. -/
def stateAt (text : Octets) (position : Nat) : State :=
  ⟨(text.take position).reverse, position, text.drop position, []⟩

/-- The first match in a text that does not start before a place. -/
def find? (r : Regex) (text : Octets) (position : Nat) : Option Found :=
  if position ≤ text.length then
    search mode r (text.length + 1 - position) (stateAt text position)
  else none

def matchesIn (r : Regex) (text : Octets) : Bool := (r.find? mode text 0).isSome

end Regex

namespace Regex.Found

/-- The text of a group. The whole match has the number zero. -/
def textOf (f : Found) (text : Octets) (index : Nat) : Octets :=
  if index = 0 then (text.drop f.start).take (f.stop - f.start)
  else
    match f.groups.lookup index with
    | some (start, stop) => (text.drop start).take (stop - start)
    | none => []

end Regex.Found

end MakeConfig.Text
