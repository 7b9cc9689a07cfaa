/-! # White space and lines

The white space of Unicode's White_Space property, with the cuts that are made at
blanks, at line ends and at a single character. Texts are lists of characters here.
-/

namespace MakeConfig.Text

/-- Membership in Unicode's White_Space property, which has twenty-five characters. -/
def isBlank (c : Char) : Bool :=
  let n := c.toNat
  (9 ≤ n && n ≤ 13) || n == 0x20 || n == 0x85 || n == 0xA0 || n == 0x1680 ||
    (0x2000 ≤ n && n ≤ 0x200A) || n == 0x2028 || n == 0x2029 || n == 0x202F ||
    n == 0x205F || n == 0x3000

def trimLeft (cs : List Char) : List Char := cs.dropWhile isBlank

def trimRight (cs : List Char) : List Char := (cs.reverse.dropWhile isBlank).reverse

def trim (cs : List Char) : List Char := trimRight (trimLeft cs)

def withoutBlanks (cs : List Char) : List Char := cs.filter (!isBlank ·)

/-- The parts between the occurrences of a separator; one more than there are of these. -/
def split (sep : Char) : List Char → List (List Char)
  | [] => [[]]
  | c :: cs =>
    if c = sep then [] :: split sep cs
    else match split sep cs with
      | [] => [[c]]
      | part :: parts => (c :: part) :: parts

/-- The text before and after the first occurrence of a separator. -/
def splitOnce? (sep : Char) : List Char → Option (List Char × List Char)
  | [] => none
  | c :: cs =>
    if c = sep then some ([], cs)
    else (splitOnce? sep cs).map fun (before, after) => (c :: before, after)

/-- A list in pieces of a size, which is not zero. Its length bounds the steps. -/
def chunksFrom {α : Type} (size : Nat) : Nat → List α → List (List α)
  | 0, _ | _, [] => []
  | fuel + 1, items => items.take size :: chunksFrom size fuel (items.drop size)

def chunks {α : Type} (size : Nat) (items : List α) : List (List α) :=
  chunksFrom size items.length items

def dropLast? (last : Char) (cs : List Char) : Option (List Char) :=
  if cs.getLast? = some last then some cs.dropLast else none

/-- A carriage return belongs to the line end that follows it. -/
def endLine (line : List Char) : List Char := (dropLast? '\r' line).getD line

/-- The lines of a text. Each ends at a line feed, and the last one may do without. -/
def lines (cs : List Char) : List (List Char) :=
  let parts := split '\n' cs
  let whole := parts.dropLast.map endLine
  match parts.getLast? with
  | some (c :: rest) => whole ++ [c :: rest]
  | _ => whole

/-- Whether a text occurs in another one. -/
def occursIn (part : List Char) : List Char → Bool
  | [] => part.isEmpty
  | c :: cs => part.isPrefixOf (c :: cs) || occursIn part cs

theorem split_ne_nil (sep : Char) (cs : List Char) : split sep cs ≠ [] := by
  cases cs with
  | nil => simp [split]
  | cons c cs =>
    simp only [split]
    split
    · simp
    · split <;> simp

end MakeConfig.Text
