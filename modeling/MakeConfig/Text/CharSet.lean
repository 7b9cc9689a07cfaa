import MakeConfig.Text.Octets

/-! # Sets in brackets

The members of a set of characters as patterns and regular expressions write it between brackets:
single characters, ranges and sets with names.
-/

namespace MakeConfig.Text

/-- A character with whether it was quoted. -/
abbrev Marked := Char × Bool

/-- A member of a set in brackets. -/
inductive Member where
  | range (first last : Char)
  | named (test : Char → Bool)

def Member.holds (c : Char) : Member → Bool
  | .range first last => first.toNat ≤ c.toNat && c.toNat ≤ last.toNat
  | .named test => test c

namespace CharSet

def isPunctuation (c : Char) : Bool := 33 ≤ c.toNat && c.toNat < 127 && !c.isAlphanum

/-- Sets of characters that have names. They hold none but the first 128 characters. -/
def named? (name : String) : Option (Char → Bool) :=
  match name with
  | "alpha" => some Char.isAlpha
  | "digit" => some Char.isDigit
  | "alnum" => some Char.isAlphanum
  | "upper" => some Char.isUpper
  | "lower" => some Char.isLower
  | "space" => some fun c => c == ' ' || (9 ≤ c.toNat && c.toNat ≤ 13)
  | "blank" => some fun c => c == ' ' || c == '\t'
  | "punct" => some isPunctuation
  | "print" => some fun c => 32 ≤ c.toNat && c.toNat < 127
  | "graph" => some fun c => 32 < c.toNat && c.toNat < 127
  | "cntrl" => some fun c => c.toNat < 32 || c.toNat == 127
  | "xdigit" => some fun c => c.isDigit || "abcdefABCDEF".toList.contains c
  | _ => none

/-- A named set at the head of a text, after its opening bracket and colon. -/
def className? (cs : List Marked) : Option ((Char → Bool) × List Marked) :=
  let name := cs.takeWhile fun m => m.1.isLower
  match cs.drop name.length with
  | (':', false) :: (']', false) :: rest =>
    (named? (String.ofList (name.map Prod.fst))).map fun test => (test, rest)
  | _ => none

/-- The members of a set up to its closing bracket, which comes first only as a member. -/
def members? : Nat → Bool → List Marked → Option (List Member × List Marked)
  | 0, _, _ | _, _, [] => none
  | fuel + 1, first, (c, quoted) :: cs =>
    let more (m : Member) (rest : List Marked) : Option (List Member × List Marked) :=
      (members? fuel false rest).map fun (ms, rest) => (m :: ms, rest)
    let single : Option (List Member × List Marked) :=
      match cs with
      | ('-', false) :: (']', false) :: _ => more (.range c c) cs
      | ('-', false) :: (last, _) :: rest => more (.range c last) rest
      | _ => more (.range c c) cs
    if c = ']' ∧ !quoted ∧ !first then some ([], cs)
    else if c = '[' ∧ !quoted then
      match cs with
      | (':', false) :: rest =>
        match className? rest with
        | some (test, rest) => more (.named test) rest
        | none => single
      | _ => single
    else single

/-- Whether a character is in a set. -/
def holds (negated : Bool) (members : List Member) (c : Char) : Bool :=
  members.any (Member.holds c) != negated

end CharSet

end MakeConfig.Text
