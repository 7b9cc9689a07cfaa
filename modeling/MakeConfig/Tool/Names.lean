import MakeConfig.Tool.Basic

/-! # Tools for names

Parts of the names of files, and where they lead to.
-/

namespace MakeConfig.Tool

open Text Shell Act

/-- A name without the slashes at its end. One of slashes only keeps the first. -/
def withoutSlashes (name : Octets) : Octets :=
  match (name.reverse.dropWhile (· == '/')).reverse with
  | [] => name.take 1
  | name => name

/-- The last part of a name. -/
def lastPart (name : Octets) : Octets :=
  let name := withoutSlashes name
  if name = ['/'] then name else (name.reverse.takeWhile (· != '/')).reverse

/-- What comes before the last part of a name. -/
def leadingPart (name : Octets) : Octets :=
  let name := withoutSlashes name
  if name.contains '/' then
    let before := (name.reverse.dropWhile (· != '/')).reverse
    if name = ['/'] then name else withoutSlashes before
  else ['.']

def withoutSuffix (suffix name : Octets) : Octets :=
  if suffix.length < name.length ∧ suffix.isSuffixOf name then
    name.take (name.length - suffix.length)
  else name

/-- A slash between a directory and a name in it. -/
def inDirectory (directory name : Octets) : Octets :=
  if directory.getLast? = some '/' then directory ++ name else directory ++ '/' :: name

/-! ## Parts of names -/

def basenameOptions : Options :=
  ⟨"as:z", [("multiple", 'a', .nothing), ("suffix", 's', .something), ("zero", 'z', .nothing)]⟩

def basename : Tool := fun words =>
  match basenameOptions.read false (sizeOf words) words with
  | .error e => usage "basename" e 1
  | .ok g => do
    let suffix := (g.argument? 's').getD []
    let last := if g.has 'z' then '\x00' else '\n'
    let put (suffix name : Octets) : Act Unit :=
      write 1 (withoutSuffix suffix (lastPart name) ++ [last])
    if g.has 'a' || g.has 's' then
      match g.operands with
      | [] => usage "basename" (oct "missing operand") 1
      | names =>
        for name in names do put suffix name
        return 0
    else
      match g.operands with
      | [] => usage "basename" (oct "missing operand") 1
      | [name] => put [] name; return 0
      | [name, suffix] => put suffix name; return 0
      | _ :: _ :: extra :: _ => usage "basename" (oct "extra operand " ++ cited extra) 1

def dirname : Tool := reading "dirname" ⟨"z", [("zero", 'z', .nothing)]⟩ 1 fun g => do
  if g.operands.isEmpty then usage "dirname" (oct "missing operand") 1
  else
    for name in g.operands do
      write 1 (leadingPart name ++ [if g.has 'z' then '\x00' else '\n'])
    return 0

/-! ## Where names lead to -/

def textOf (l : Location) : Octets := oct ("/" ++ "/".intercalate l)

/-- Where a path leads to if directories on the way may be missing. -/
def placeOf (fs : FileSystem) (name : Octets) : Location :=
  let step (l : Location) : Path.Component → Location
    | .root => []
    | .here => l
    | .up => l.dropLast
    | .name n => ((fs.walk true FileSystem.maxLinks l [.name n]).toOption).getD (l ++ [n])
  (fs.workingDirectory.join (path name)).components.foldl step []

/-- How much of a path has to be there. -/
inductive Demand where
  | all
  | directories
  | nothing

def canonical (demand : Demand) (name : Octets) : Act (Except FileFault Octets) := do
  let fs ← files
  return match demand with
    | .nothing => .ok (textOf (placeOf fs name))
    | .directories => do
      let l ← fs.resolve (path (withoutSlashes name))
      match fs.barrierAt? l.dropLast with
      | some fault => throw fault
      | none => return textOf l
    | .all => (fs.find true (path name)).map fun found => textOf found.1

def demandOf (g : Given) (usual : Demand) : Demand :=
  match g.last? "efm" with
  | some 'e' => .all
  | some 'f' => .directories
  | some _ => .nothing
  | none => usual

def canonicalOptions : List (String × Char × Takes) :=
  [("canonicalize-existing", 'e', .nothing), ("canonicalize", 'f', .nothing),
    ("canonicalize-missing", 'm', .nothing), ("no-newline", 'n', .nothing),
    ("quiet", 'q', .nothing), ("silent", 's', .nothing), ("verbose", 'v', .nothing),
    ("zero", 'z', .nothing), ("strip", 's', .nothing), ("no-symlinks", 's', .nothing)]

def realpath : Tool := reading "realpath" ⟨"efLmPqsz", canonicalOptions⟩ 1 fun g => do
  if g.operands.isEmpty then usage "realpath" (oct "missing operand") 1
  else
    let mut good := true
    for name in g.operands do
      match ← canonical (demandOf g .directories) name with
      | .ok text => write 1 (text ++ ['\n'])
      | .error fault =>
        unless g.has 'q' do sayFault "realpath" (shown name) fault
        good := false
    return statusOf good

def readlink : Tool := reading "readlink" ⟨"efmnqsvz", canonicalOptions⟩ 1 fun g => do
  if g.operands.isEmpty then usage "readlink" (oct "missing operand") 1
  else
    let fs ← files
    let mut good := true
    let last : Octets :=
      if g.has 'n' ∧ g.operands.length = 1 then [] else [if g.has 'z' then '\x00' else '\n']
    for name in g.operands do
      if (g.last? "efm").isSome then
        match ← canonical (demandOf g .all) name with
        | .ok text => write 1 (text ++ last)
        | .error _ => good := false
      else
        match fs.find false (path name) with
        | .ok (_, .link target) => write 1 (oct target ++ last)
        | _ => good := false
    return statusOf good

end MakeConfig.Tool
