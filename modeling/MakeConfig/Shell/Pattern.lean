import MakeConfig.Text.CharSet

/-! # Patterns

Patterns that names and values are compared with: stars, question marks and sets in brackets. A
quoted character stands for itself.
-/

namespace MakeConfig.Shell

open Text

inductive Glob where
  | char (c : Char)
  | one
  | any
  | oneOf (negated : Bool) (members : List Member)

namespace Glob

/-- The pattern of a text. A bracket without its partner stands for itself. -/
def ofMarked : Nat → List Marked → List Glob
  | 0, _ | _, [] => []
  | fuel + 1, (c, quoted) :: cs =>
    if quoted then .char c :: ofMarked fuel cs
    else
      match c with
      | '*' => .any :: ofMarked fuel cs
      | '?' => .one :: ofMarked fuel cs
      | '[' =>
        let (negated, rest) := match cs with
          | ('!', false) :: rest => (true, rest)
          | _ => (false, cs)
        match CharSet.members? (rest.length + 1) true rest with
        | some (ms, rest) => .oneOf negated ms :: ofMarked fuel rest
        | none => .char c :: ofMarked fuel cs
      | c => .char c :: ofMarked fuel cs

def ofText (cs : List Marked) : List Glob := ofMarked (cs.length + 1) cs

/-- Whether something holds of a rest of a text. -/
def anyRest (p : Octets → Bool) : Octets → Bool
  | [] => p []
  | c :: cs => p (c :: cs) || anyRest p cs

/-- Whether a whole text is like a pattern. -/
def agrees : List Glob → Octets → Bool
  | [], cs => cs.isEmpty
  | .any :: gs, cs => anyRest (agrees gs) cs
  | .char d :: gs, c :: cs => c == d && agrees gs cs
  | .one :: gs, _ :: cs => agrees gs cs
  | .oneOf negated ms :: gs, c :: cs => CharSet.holds negated ms c && agrees gs cs
  | _ :: _, [] => false

/-- Whether anything in a text has a meaning in a pattern. -/
def isSpecial (cs : List Marked) : Bool :=
  cs.any fun (c, quoted) => !quoted && (c == '*' || c == '?' || c == '[')

/-- What is left of a text without the part at one end that is like a pattern, if there is one. -/
def trim? (back longest : Bool) (gs : List Glob) (cs : Octets) : Option Octets :=
  let sizes := List.range (cs.length + 1)
  let sizes := if longest then sizes.reverse else sizes
  let found := sizes.find? fun n =>
    agrees gs (if back then cs.drop (cs.length - n) else cs.take n)
  found.map fun n => if back then cs.take (cs.length - n) else cs.drop n

/-- Take the part of a text away that is like a pattern, at one end. -/
def trim (back longest : Bool) (gs : List Glob) (cs : Octets) : Octets :=
  (trim? back longest gs cs).getD cs

/-- What is left of texts without the end of the last one that has such an end, and without all that
follows it. -/
def trimLast? (gs : List Glob) : List Octets → Option (List Octets)
  | [] => none
  | cs :: rest =>
    match trimLast? gs rest with
    | some kept => some (cs :: kept)
    | none => (trim? true false gs cs).map fun kept => [kept]

/-- Trim texts that stand one after another as if they were one, which ends for a pattern where the first
of them ends. -/
def trimAll (back longest : Bool) (gs : List Glob) (texts : List Octets) : List Octets :=
  match back, longest, texts with
  | _, _, [] => []
  | true, true, cs :: rest => ((trim? true true gs cs).map fun kept => [kept]).getD (cs :: rest)
  | true, false, texts => (trimLast? gs texts).getD texts
  | false, true, cs :: rest => if agrees gs cs then [] else trim false true gs cs :: rest
  | false, false, cs :: rest => trim false false gs cs :: rest

end Glob

end MakeConfig.Shell
