import MakeConfig.Tool.Lines

/-! # Tools for blocks

Tools that copy a part of a file in blocks, and that cut a file into pieces with names of their own.
-/

namespace MakeConfig.Tool

open Text Shell Act

/-! ## dd -/

/-- A product of numbers with units. -/
def product? (text : Octets) : Option Nat :=
  (Text.split 'x' text).foldl (fun v? part => do
    let v ← v?
    let n ← match part.getLast? with
      | some 'c' => natural? part.dropLast
      | some 'w' => (natural? part.dropLast).map (2 * ·)
      | _ => scaled? part
    return v * n) (some 1)

/-- What is to be copied, and how. -/
structure BlockPlan where
  settings : List (String × Octets)

namespace BlockPlan

variable (p : BlockPlan)

def text? (names : List String) : Option Octets :=
  (p.settings.find? fun s => names.contains s.1).map Prod.snd

/-- A number by one of its names, unless it is none. -/
def number (usual : Nat) (names : List String) : Except Octets Nat :=
  match p.text? names with
  | none => .ok usual
  | some text =>
    match product? text with
    | some n => .ok n
    | none => .error (oct "invalid number: " ++ cited text)

/-- The size of a block, which is not zero. -/
def size (name : String) : Except Octets Nat := do
  let n ← p.number 512 ["bs", name]
  if n = 0 then throw (oct "invalid number: " ++ cited ((p.text? ["bs", name]).getD [])) else return n

def conversions : List Octets := ((p.text? ["conv"]).map (Text.split ',')).getD []

def converts (name : String) : Bool := p.conversions.contains (oct name)

end BlockPlan

def blockNames : List String :=
  ["if", "of", "bs", "ibs", "obs", "count", "skip", "iseek", "seek", "oseek", "conv", "status", "iflag",
    "oflag", "cbs"]

def conversionNames : List String :=
  ["ascii", "ebcdic", "ibm", "block", "unblock", "lcase", "ucase", "sparse", "swab", "sync", "excl",
    "nocreat", "notrunc", "noerror", "fdatasync", "fsync"]

/-- The settings that words make, or what is wrong with them. -/
def blockPlan : List Octets → Except Octets BlockPlan
  | [] => .ok ⟨[]⟩
  | w :: ws => do
    let some (name, value) := Text.splitOnce? '=' w
      | throw (oct "unrecognized operand " ++ cited w)
    let name := String.ofList name
    if !blockNames.contains name then throw (oct "unrecognized operand " ++ cited w)
    if name = "conv" then
      match (Text.split ',' value).find? fun c => !conversionNames.contains (String.ofList c) with
      | some c => throw (oct "invalid conversion: " ++ cited c)
      | none => pure ()
    if name = "status" ∧ String.ofList value ∉ ["none", "noxfer", "progress"] then
      throw (oct "invalid status level: " ++ cited value)
    let plan ← blockPlan ws
    let settings := if name = "conv" then
        match plan.text? ["conv"] with
        | some more => (name, value ++ ',' :: more) :: plan.settings.filter (·.1 != name)
        | none => (name, value) :: plan.settings
      else if (plan.text? [name]).isSome then plan.settings
      else (name, value) :: plan.settings
    return ⟨settings⟩

/-- Exchange neighbours. -/
def swapped : Octets → Octets
  | a :: b :: cs => b :: a :: swapped cs
  | cs => cs

def convert (p : BlockPlan) (block : Nat) (text : Octets) : Octets :=
  let text := if p.converts "swab" then swapped text else text
  let text := if p.converts "lcase" then text.map Char.toLower
    else if p.converts "ucase" then text.map Char.toUpper else text
  if p.converts "sync" && text.length % block != 0 then
    text ++ List.replicate (block - text.length % block) '\x00'
  else text

/-- Whole blocks and a rest in a text. -/
def blocksOf (block length : Nat) : Octets :=
  nat (length / block) ++ '+' :: nat (if length % block = 0 then 0 else 1)

/-- Say how much was copied. It took no time. -/
def reportBlocks (p : BlockPlan) (ibs obs read written : Nat) : Act Unit := do
  let status := p.text? ["status"]
  unless status == some (oct "none") do
    write 2 (blocksOf ibs read ++ oct " records in\n" ++ blocksOf obs written ++ oct " records out\n")
    unless status == some (oct "noxfer") do
      write 2 (nat written ++ oct (if written = 1 then " byte" else " bytes") ++
        oct " copied, 0 s, Infinity B/s\n")

/-- The part of the input that a plan takes, or the status if there is none. -/
def blockInput (p : BlockPlan) (skip : Nat) (most? : Option Nat) : Act (Except Nat Octets) := do
  let cut (content : Octets) : Octets :=
    match most? with
    | some n => (content.drop skip).take n
    | none => content.drop skip
  match p.text? ["if"] with
  | none =>
    match ← streamOf? 0 with
    | none => return .ok []
    | some n =>
      let part := cut (← ahead n)
      advance n (skip + part.length)
      return .ok part
  | some name =>
    let fs ← files
    match fs.find true (path name), most? with
    | .ok (_, .device true), some n => return .ok (List.replicate n '\x00')
    | .ok (_, .directory), _ =>
      sayFault "dd" (oct "error reading " ++ quoted name) .isDirectory
      return .error 1
    | .ok _, _ => return .ok (cut ((← contentOf name).toOption.getD []))
    | .error fault, _ =>
      sayFault "dd" (oct "failed to open " ++ quoted name) fault
      return .error 1

/-- Put a text into a file, which keeps what stands before the place, and what stands behind the text
if that is wanted. -/
def blockOutput (p : BlockPlan) (name : Octets) (place : Nat) (text : Octets) : Act Nat := do
  let fs ← files
  let old? := (← contentOf name).toOption
  let result : Except FileFault FileSystem := do
    if p.converts "excl" && old?.isSome then throw .alreadyThere
    if p.converts "nocreat" && old?.isNone then throw .missing
    let old := old?.getD []
    let old := if p.converts "notrunc" then old else old.take place
    fs.writeAt (← fs.resolve (path name)) (splice old place text).toBytes
  match result with
  | .ok fs =>
    setFiles fs
    return 0
  | .error fault =>
    sayFault "dd" (oct "failed to open " ++ quoted name) fault
    return 1

def dd : Tool := fun words => do
  let words := words.filter (· != oct "--")
  match words.find? fun w => w.head? = some '-' with
  | some w =>
    if w.take 2 = ['-', '-'] then usage "dd" (oct "unrecognized option " ++ cited w) 1
    else usage "dd" (oct "invalid option -- " ++ cited ((w.drop 1).take 1)) 1
  | none =>
    match blockPlan words with
    | .error text => usage "dd" text 1
    | .ok p =>
      let numbers : Except Octets (Nat × Nat × Nat × Nat × Option Nat) := do
        let ibs ← p.size "ibs"
        let obs ← p.size "obs"
        let skip ← p.number 0 ["skip", "iseek"]
        let seek ← p.number 0 ["seek", "oseek"]
        let count? ← match p.text? ["count"] with
          | none => pure none
          | some _ => do pure (some (← p.number 0 ["count"]))
        return (ibs, obs, skip * ibs, seek * obs, count?.map (· * ibs))
      match numbers with
      | .error text =>
        say "dd" text
        return 1
      | .ok (ibs, obs, skip, seek, most?) =>
        match ← blockInput p skip most? with
        | .error status => return status
        | .ok part =>
          let text := convert p ibs part
          let status ← match p.text? ["of"] with
            | none => do
              write 1 text
              pure 0
            | some name => blockOutput p name seek text
          if status = 0 then reportBlocks p ibs obs part.length text.length
          return status

/-! ## split -/

def splitOptions : Options :=
  ⟨"a:b:dl:", [("suffix-length", 'a', .something), ("bytes", 'b', .something),
    ("numeric-suffixes", 'd', .maybe), ("lines", 'l', .something),
    ("additional-suffix", 'e', .something), ("verbose", 'v', .nothing)]⟩

/-- Letters or digits of a number, so many of them. -/
def suffixIn (digits : Octets) : Nat → Nat → Octets
  | 0, _ => []
  | width + 1, n =>
    suffixIn digits width (n / digits.length) ++ [digits.getD (n % digits.length) '0']

/-- The suffix of a piece. When only the last letter is left in front, they get longer. -/
def growingSuffix (digits : Octets) : Nat → Nat → Nat → Octets
  | 0, width, n => suffixIn digits width n
  | fuel + 1, width, n =>
    let room := (digits.length - 1) * Nat.pow digits.length (width - 1)
    if n < room then suffixIn digits width n
    else digits.getLast?.toList ++ growingSuffix digits fuel (width + 1) (n - room)

/-- The pieces that a file is cut into. -/
def piecesOf (g : Given) (content : Octets) : Except Octets (List Octets) :=
  let size (what : String) (text : Octets) : Except Octets Nat :=
    match scaled? text with
    | some 0 | none => .error (oct ("invalid number of " ++ what ++ ": ") ++ quoted text)
    | some n => .ok n
  match g.last? "bl" with
  | some 'b' => do
    let n ← size "bytes" ((g.argument? 'b').getD [])
    return Text.chunks n content
  | letter? => do
    let n ← match letter? with
      | some _ => size "lines" ((g.argument? 'l').getD [])
      | none => pure 1000
    return (Text.chunks n (linesOf content)).map List.flatten

def split : Tool := fun words => do
  let words := words.map fun w =>
    match w with
    | '-' :: c :: cs => if c.isDigit then '-' :: 'l' :: c :: cs else w
    | w => w
  match splitOptions.read true (sizeOf words) words with
  | .error e => usage "split" e 1
  | .ok g =>
    match g.operands with
    | _ :: _ :: extra :: _ => usage "split" (oct "extra operand " ++ cited extra) 1
    | operands =>
      let name := operands.headD ['-']
      match ← input name with
      | .error fault =>
        sayFault "split" (oct "cannot open " ++ quoted name ++ oct " for reading") fault
        return 1
      | .ok content =>
        match piecesOf g content with
        | .error text =>
          say "split" text
          return 1
        | .ok pieces =>
          let digits := if g.has 'd' then "0123456789".toList else "abcdefghijklmnopqrstuvwxyz".toList
          let start := ((g.argument? 'd').bind natural?).getD 0
          for (piece, i) in pieces.zipIdx do
            let suffix := match (g.argument? 'a').bind natural? with
              | some width => suffixIn digits width (i + start)
              | none => growingSuffix digits 8 2 (i + start)
            let target := operands.getD 1 ['x'] ++ suffix ++ (g.argument? 'e').getD []
            if g.has 'v' then write 1 (oct "creating file " ++ quoted target ++ ['\n'])
            match ← change fun fs => do fs.writeAt (← fs.resolve (path target)) piece.toBytes with
            | none => pure ()
            | some fault =>
              sayName "split" target fault
              return 1
          return 0

end MakeConfig.Tool
