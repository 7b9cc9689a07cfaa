import MakeConfig.Text.Octets

/-! # Commands

The commands of the shell language as they are written: words with their quotes, parameters and
nested commands not yet expanded, and the ways in which commands are put together.
-/

namespace MakeConfig.Shell

open Text

/-- What a dollar sign can ask for. -/
inductive Parameter where
  | name (text : Octets)
  | position (index : Nat)
  /-- The positional parameters, each for itself. -/
  | each
  /-- The positional parameters in one. -/
  | joined
  | count
  | status
  | flags
  | process
  | background
  deriving DecidableEq, Repr

/-- Which end of a value a pattern takes away. -/
inductive Side where
  | front
  | back
  deriving DecidableEq, Repr

/-- What is done with the value of a parameter. A flag tells whether an empty value counts as none. -/
inductive Use where
  | plain
  | length
  | default (emptyToo : Bool)
  | assign (emptyToo : Bool)
  | demand (emptyToo : Bool)
  | alternative (emptyToo : Bool)
  | trim (side : Side) (longest : Bool)
  /-- Nothing that the language knows. It is a fault only when it is expanded. -/
  | unknown
  deriving DecidableEq, Repr

/-- How a redirection opens what it names. -/
inductive Opening where
  | input
  | output (force : Bool)
  | append
  | both
  /-- Another descriptor, or a hyphen to close this one. -/
  | duplicate
  /-- The text itself. -/
  | here
  deriving DecidableEq, Repr

/-- How the second of two commands follows the first. -/
inductive Joint where
  | always
  | onSuccess
  | onFailure
  deriving DecidableEq, Repr

mutual

/-- A part of a word. -/
inductive Segment where
  | char (c : Char) (quoted : Bool)
  /-- Quotes that stood here, so the word is there even if nothing else is. -/
  | quotes
  | parameter (p : Parameter) (use : Use) (word : List Segment) (quoted : Bool)
  | command (body : Command) (quoted : Bool)
  | arithmetic (text : List Segment) (quoted : Bool)

inductive Redirection where
  | mk (descriptor : Nat) (opening : Opening) (target : List Segment)

inductive Command where
  | nothing
  | simple (line : Nat) (assignments : List (Octets × List Segment)) (words : List (List Segment))
      (redirections : List Redirection)
  | pipeline (parts : List Command)
  | negated (body : Command)
  | joined (joint : Joint) (left right : Command)
  | background (line : Nat) (body : Command)
  | subshell (line : Nat) (body : Command)
  | redirected (line : Nat) (body : Command) (redirections : List Redirection)
  | conditional (test body other : Command)
  /-- A loop that goes on while its test succeeds, or fails. -/
  | loop (onSuccess : Bool) (test body : Command)
  | forEach (line : Nat) (name : Octets) (words : List (List Segment)) (body : Command)
  | choice (line : Nat) (word : List Segment) (branches : List (List (List Segment) × Command))
  | function (name : Octets) (body : Command)

end

abbrev Word := List Segment

instance : Inhabited Command := ⟨.nothing⟩

/-- The text of a word in which nothing is quoted or to be expanded. -/
def Word.bare? : Word → Option Octets
  | [] => some []
  | .char c false :: w => (Word.bare? w).map (c :: ·)
  | _ :: _ => none

/-- The text of a word with its quotes taken away, if nothing is to be expanded. -/
def Word.literal : Word → Octets
  | [] => []
  | .char c _ :: w => c :: Word.literal w
  | _ :: w => Word.literal w

/-! ## Characters -/

def isNameStart (c : Char) : Bool := c.isAlpha || c == '_'

def isNameChar (c : Char) : Bool := c.isAlphanum || c == '_'

def isName : Octets → Bool
  | [] => false
  | c :: cs => isNameStart c && cs.all isNameChar

/-- The characters that end a word. -/
def isMeta (c : Char) : Bool := " \t\n;&|<>()".toList.contains c

def backquote : Char := '\x60'

end MakeConfig.Shell
