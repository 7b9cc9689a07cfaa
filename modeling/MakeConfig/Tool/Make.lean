import MakeConfig.Tool.Names

/-! # Tools that make and remove files

Each handles its operands one by one, complains about those that fail, and goes on with the others.
-/

namespace MakeConfig.Tool

open Text Shell Act

/-- Handle each of some names. The status tells whether all went well. -/
def each (names : List Octets) (act : Octets → Act Bool) : Act Nat := do
  let mut good := true
  for name in names do
    unless ← act name do good := false
  return statusOf good

def entry (last : Bool) (name : Octets) : Act (Except FileFault (Location × FileEntry)) := do
  return (← files).find last (path name)

/-! ## touch -/

def touchOptions : Options :=
  ⟨"acd:fhmr:t:", [("no-create", 'c', .nothing), ("date", 'd', .something),
    ("reference", 'r', .something), ("no-dereference", 'h', .nothing),
    ("time", 'T', .something)]⟩

/-- Make a file, or make one that is there the newest. -/
def touchOne (create : Bool) (name : Octets) : Act Bool := do
  let fs ← files
  match fs.find true (path name) with
  | .ok (l, e) =>
    unless l = [] do setFiles (fs.setAt l e)
    return true
  | .error _ =>
    if !create then return true
    else if name.getLast? = some '/' then
      sayFault "touch" (oct "setting times of " ++ quoted name) .missing
      return false
    else
      match ← change fun fs => do fs.writeAt (← fs.resolve (path name)) ByteArray.empty with
      | none => return true
      | some fault =>
        sayFault "touch" (oct "cannot touch " ++ quoted name) fault
        return false

def touch : Tool := reading "touch" touchOptions 1 fun g =>
  if g.operands.isEmpty then usage "touch" (oct "missing file operand") 1
  else each (g.operands.filter (· != ['-'])) (touchOne !(g.has 'c'))

/-! ## Directories -/

/-- Whoever makes a directory, and what is said once it is there. -/
structure Maker where
  program : String
  announcement? : Option String

def Maker.fail (m : Maker) (name : Octets) (fault : FileFault) : Act Bool := do
  sayFault m.program (oct "cannot create directory " ++ cited name) fault
  return false

def makeOne (m : Maker) (name : Octets) : Act Bool := do
  let bare := withoutSlashes name
  match ← change fun fs => do fs.makeDirectoryAt (← fs.resolveTo false (path bare)) with
  | none =>
    match m.announcement? with
    | some text => write 1 (oct (m.program ++ ": " ++ text) ++ cited name ++ ['\n'])
    | none => pure ()
    return true
  | some fault => m.fail name fault

/-- The starts of a name that name the directories on the way to it and it itself. -/
def stations (name : Octets) : List Octets :=
  let go (found : List Octets × Octets) (c : Char) : List Octets × Octets :=
    if c = '/' ∧ found.2.getLast? ≠ some '/' ∧ !found.2.isEmpty then
      (found.1 ++ [found.2], found.2 ++ [c])
    else (found.1, found.2 ++ [c])
  (((withoutSlashes name).foldl go ([], [])).1).filter (· != []) ++ [name]

/-- Make a directory with those that lead to it. -/
def makeAll (m : Maker) (name : Octets) : Act Bool := do
  for station in stations name do
    let fs ← files
    match fs.find true (path (withoutSlashes station)) with
    | .ok (_, .directory) => pure ()
    | .ok _ =>
      return ← m.fail station (if station = name then .alreadyThere else .notDirectory)
    | .error _ => unless ← makeOne m station do return false
  return true

def mkdirOptions : Options :=
  ⟨"m:pvZ", [("mode", 'm', .something), ("parents", 'p', .nothing), ("verbose", 'v', .nothing)]⟩

def mkdir : Tool := reading "mkdir" mkdirOptions 1 fun g =>
  if g.operands.isEmpty then usage "mkdir" (oct "missing operand") 1
  else
    let m : Maker := ⟨"mkdir", if g.has 'v' then some "created directory " else none⟩
    each g.operands ((if g.has 'p' then makeAll else makeOne) m)

/-- Why the entry at a location cannot be removed as an empty directory. -/
def rmdirFault? (fs : FileSystem) (name : Octets) : Except FileFault Location := do
  match ← fs.find false (path (withoutSlashes name)) with
  | (l, .directory) => if (fs.namesAt l).isEmpty then return l else throw .notEmpty
  | _ => throw .notDirectory

def rmdirOne (verbose lenient : Bool) (name : Octets) : Act Bool := do
  let fs ← files
  if verbose then write 1 (oct "rmdir: removing directory, " ++ quoted name ++ ['\n'])
  match rmdirFault? fs name with
  | .ok l =>
    setFiles (fs.removeAt l)
    return true
  | .error fault =>
    if lenient ∧ fault = .notEmpty then return true
    else
      sayFault "rmdir" (oct "failed to remove " ++ quoted name) fault
      return false

def rmdirOptions : Options :=
  ⟨"pv", [("parents", 'p', .nothing), ("verbose", 'v', .nothing),
    ("ignore-fail-on-non-empty", 'i', .nothing)]⟩

def rmdir : Tool := reading "rmdir" rmdirOptions 1 fun g =>
  if g.operands.isEmpty then usage "rmdir" (oct "missing operand") 1
  else each g.operands fun name => do
    if g.has 'p' then
      for station in (stations name).reverse do
        unless ← rmdirOne (g.has 'v') (g.has 'i') station do return false
      return true
    else rmdirOne (g.has 'v') (g.has 'i') name

/-! ## rm -/

def rmOptions : Options :=
  ⟨"dfirRIv", [("force", 'f', .nothing), ("recursive", 'r', .nothing), ("dir", 'd', .nothing),
    ("verbose", 'v', .nothing), ("interactive", 'i', .maybe), ("one-file-system", 'x', .nothing),
    ("preserve-root", 'y', .maybe), ("no-preserve-root", 'z', .nothing)]⟩

/-- The names of what is below a location, what is inside a directory before it. -/
def contentsOf (fs : FileSystem) (l : Location) (name : Octets) : List (Octets × Bool) :=
  let below := fs.entries.filter fun e => l.isPrefixOf e.1
  let deepest := below.mergeSort fun a b => b.1.length ≤ a.1.length
  deepest.map fun (place, e) =>
    (name ++ (place.drop l.length).flatMap fun n => '/' :: oct n, FileEntry.isDirectory (some e))

def rmOne (g : Given) (name : Octets) : Act Bool := do
  let fs ← files
  let force := g.has 'f'
  let recursive := g.has 'r' || g.has 'R'
  let bad (fault : FileFault) : Act Bool := do
    sayFault "rm" (oct "cannot remove " ++ quoted name) fault
    return false
  let finish (l : Location) : Act Bool := do
    if g.has 'v' then
      for (inner, isDirectory) in contentsOf fs l name do
        let what := if isDirectory then "removed directory " else "removed "
        write 1 (oct what ++ quoted inner ++ ['\n'])
    setFiles (fs.removeAt l)
    return true
  match fs.find false (path name) with
  | .error fault => if force ∧ (fault = .missing ∨ fault = .notDirectory) then return true else bad fault
  | .ok (l, .directory) =>
    let last := lastPart name
    if !recursive then
      if g.has 'd' ∧ last ≠ ['.'] ∧ last ≠ ['.', '.'] then
        if (fs.namesAt l).isEmpty then finish l else bad .notEmpty
      else bad .isDirectory
    else if last = ['.'] ∨ last = ['.', '.'] then
      say "rm" (oct "refusing to remove '.' or '..' directory: skipping " ++ quoted name)
      return false
    else if l = [] then
      say "rm" (oct "it is dangerous to operate recursively on '/'")
      say "rm" (oct "use --no-preserve-root to override this failsafe")
      return false
    else finish l
  | .ok (l, _) => finish l

def rm : Tool := reading "rm" rmOptions 1 fun g =>
  if g.operands.isEmpty then
    if g.has 'f' then return 0 else usage "rm" (oct "missing operand") 1
  else each g.operands (rmOne g)

def unlink : Tool := reading "unlink" ⟨"", []⟩ 1 fun g => do
  match g.operands with
  | [] => usage "unlink" (oct "missing operand") 1
  | _ :: extra :: _ => usage "unlink" (oct "extra operand " ++ cited extra) 1
  | [name] =>
    let result ← change fun fs => do
      match ← fs.find false (path name) with
      | (_, .directory) => throw .isDirectory
      | (l, _) => return fs.removeAt l
    match result with
    | none => return 0
    | some fault =>
      sayFault "unlink" (oct "cannot unlink " ++ quoted name) fault
      return 1

/-! ## mktemp -/

/-- A template with a number in the place of the marks at its end. -/
def filledIn (template : Octets) (marks n : Nat) : Octets :=
  let digits := nat n
  template.take (template.length - marks) ++ List.replicate (marks - digits.length) '0' ++ digits

/-- Make a file or a directory with a name that there was none of. -/
def mktemp : Tool := reading "mktemp" ⟨"dup:qt", [("directory", 'd', .nothing), ("dry-run", 'u', .nothing),
    ("tmpdir", 'p', .maybe), ("quiet", 'q', .nothing)]⟩ 1 fun g => do
  match g.operands with
  | _ :: _ :: _ => usage "mktemp" (oct "too many templates") 1
  | operands =>
    let usual := (← value? (oct "TMPDIR")).getD (oct "/tmp")
    let directory? := match g.argument? 'p' with
      | some [] => some usual
      | some directory => some directory
      | none => if operands.isEmpty ∨ g.has 't' then some usual else none
    let template := operands.head?.getD (oct "tmp.XXXXXXXXXX")
    let template := (directory?.map fun d => inDirectory d template).getD template
    let marks := (template.reverse.takeWhile (· == 'X')).length
    if marks < 3 then
      say "mktemp" (oct "too few X's in template " ++ quoted template)
      return 1
    let fs ← files
    let number := (List.range (fs.entries.length + 1)).find? fun n =>
      !fs.exists? (path (filledIn template marks n))
    let name := filledIn template marks (number.getD 0)
    let made ← if g.has 'u' then pure none else
      change fun fs => do
        let l ← fs.resolve (path name)
        if g.has 'd' then fs.makeDirectoryAt l else fs.writeAt l ByteArray.empty
    match made with
    | none =>
      write 1 (name ++ ['\n'])
      return 0
    | some fault =>
      let what := if g.has 'd' then "directory" else "file"
      sayFault "mktemp"
        (oct ("failed to create " ++ what ++ " via template ") ++ quoted template) fault
      return 1

/-! ## ln -/

def lnOptions : Options :=
  ⟨"bdfFiLnPrsS:t:Tv", [("force", 'f', .nothing), ("symbolic", 's', .nothing),
    ("no-dereference", 'n', .nothing), ("target-directory", 't', .something),
    ("no-target-directory", 'T', .nothing), ("verbose", 'v', .nothing),
    ("logical", 'L', .nothing), ("physical", 'P', .nothing), ("relative", 'r', .nothing)]⟩

/-- Make a link with a name to another file. One that is not symbolic is a copy. -/
def lnOne (g : Given) (source target : Octets) : Act Bool := do
  let fs ← files
  let symbolic := g.has 's'
  let failure (fault : FileFault) : Act Bool := do
    let what := if symbolic then "failed to create symbolic link " else "failed to create hard link "
    sayFault "ln" (oct what ++ quoted target) fault
    return false
  let finish (e : FileEntry) : Act Bool := do
    match fs.find false (path target) with
    | .ok (l, old) =>
      if !(g.has 'f') || FileEntry.isDirectory (some old) then failure .alreadyThere
      else
        setFiles (fs.setAt l e)
        announce
    | .error _ =>
      match ← change fun fs => do
          let l ← fs.resolveTo false (path target)
          fs.roomAt l
          return fs.setAt l e with
      | some fault => failure fault
      | none => announce
  if symbolic then finish (.link (Octets.toText source))
  else
    match fs.find (g.has 'L') (path source) with
    | .error fault =>
      sayFault "ln" (oct "failed to access " ++ quoted source) fault
      return false
    | .ok (_, .directory) =>
      say "ln" (shown source ++ oct ": hard link not allowed for directory")
      return false
    | .ok (_, e) => finish e
where
  announce : Act Bool := do
    if g.has 'v' then
      let arrow := if g.has 's' then " -> " else " => "
      write 1 (quoted target ++ oct arrow ++ quoted source ++ ['\n'])
    return true

/-- Where the operands of a program are to go that copies, moves or links: into a directory, or to one
new name. -/
inductive Destination where
  | into (directory : Octets) (sources : List Octets)
  | onto (source target : Octets)

/-- A directory that a name leads to, where links at its end are followed or not. -/
def isDirectoryName (last : Bool) (name : Octets) : Act Bool := do
  match (← files).find last (path name) with
  | .ok (_, .directory) => return true
  | _ => return false

/-- Why a name is no directory to put something into. -/
def directoryFault (name : Octets) : Act FileFault := do
  match (← files).find true (path name) with
  | .ok _ => return .notDirectory
  | .error fault => return fault

/-- Find out where the operands go. Without a destination the status is given. -/
def destination (program : String) (g : Given) (follow : Bool) : Act (Nat ⊕ Destination) := do
  match g.argument? 't' with
  | some directory =>
    if g.operands.isEmpty then return .inl (← usage program (oct "missing file operand") 1)
    else if ← isDirectoryName true directory then return .inr (.into directory g.operands)
    else
      sayFault program (oct "target directory " ++ quoted directory) (← directoryFault directory)
      return .inl 1
  | none =>
    match g.operands with
    | [] => return .inl (← usage program (oct "missing file operand") 1)
    | [one] =>
      return .inl (← usage program (oct "missing destination file operand after " ++ quoted one) 1)
    | [source, target] =>
      if !(g.has 'T') && (← isDirectoryName follow target) then return .inr (.into target [source])
      else return .inr (.onto source target)
    | operands =>
      let target := operands.getLast?.getD []
      if g.has 'T' then
        let extra := operands[2]?.getD []
        return .inl (← usage program (oct "extra operand " ++ quoted extra) 1)
      else if ← isDirectoryName true target then return .inr (.into target operands.dropLast)
      else
        sayFault program (oct "target " ++ quoted target) (← directoryFault target)
        return .inl 1

def carry (d : Nat ⊕ Destination) (act : Octets → Octets → Act Bool) : Act Nat :=
  match d with
  | .inl status => return status
  | .inr (.onto source target) => do return statusOf (← act source target)
  | .inr (.into directory sources) =>
    each sources fun source => act source (inDirectory directory (lastPart source))

def ln : Tool := reading "ln" lnOptions 1 fun g => do
  match g.operands, g.argument? 't' with
  | [source], none => return statusOf (← lnOne g source (inDirectory ['.'] (lastPart source)))
  | _, _ => carry (← destination "ln" g !(g.has 'n')) (lnOne g)

/-! ## chmod -/

/-- What a mode says about running a file: from what it was to what it is. -/
def modeOf? (text : Octets) : Option (Bool → Bool → Bool) :=
  if text.isEmpty then none
  else if text.all fun c => '0' ≤ c && c ≤ '7' then
    (Numeral.digits? 8 text).bind fun n =>
      if n < 0o10000 then some fun _ _ => n % 2 == 1 || n / 8 % 2 == 1 || n / 64 % 2 == 1
      else none
  else
    (Text.split ',' text).foldl
      (fun change? clause => do
        let change ← change?
        let next ← clauseOf? clause
        return fun isDirectory was => next isDirectory (change isDirectory was))
      (some fun _ was => was)
where
  clauseOf? (clause : Octets) : Option (Bool → Bool → Bool) :=
    let rest := clause.dropWhile fun c => "ugoa".toList.contains c
    if rest.isEmpty then none else actions? rest.length rest
  actions? : Nat → Octets → Option (Bool → Bool → Bool)
    | 0, _ => none
    | _, [] => some fun _ was => was
    | fuel + 1, op :: rest =>
      if "+-=".toList.contains op then
        let letters := rest.takeWhile fun c => "rwxXst".toList.contains c
        (actions? fuel (rest.drop letters.length)).map fun next =>
          fun isDirectory was =>
            let named := letters.contains 'x' || (letters.contains 'X' && (isDirectory || was))
            next isDirectory (match op with
              | '+' => was || named
              | '-' => was && !named
              | _ => named)
      else none

def chmodOptions : Options :=
  ⟨"Rcfvrwxstugoa,+=", [("recursive", 'R', .nothing), ("changes", 'c', .nothing),
    ("silent", 'f', .nothing), ("quiet", 'f', .nothing), ("verbose", 'v', .nothing),
    ("reference", 'n', .something)]⟩

def isMode (word : Octets) : Bool :=
  match word with
  | '-' :: c :: _ => "rwxXstugoa".toList.contains c
  | _ => false

def chmodOne (recursive silent : Bool) (mode : Bool → Bool → Bool) (name : Octets) : Act Bool := do
  let fs ← files
  match fs.find true (path name) with
  | .error fault =>
    unless silent do sayFault "chmod" (oct "cannot access " ++ quoted name) fault
    return false
  | .ok (l, _) =>
    let places := if recursive then (fs.entries.filter fun e => l.isPrefixOf e.1).map Prod.fst else [l]
    for place in places do
      let fs ← files
      if fs.isFileAt place then setFiles (fs.markAt place (mode false (fs.executableAt place)))
    return true

def chmod : Tool := fun words => do
  let given := words.find? isMode
  let others := match given with
    | some w => words.erase w
    | none => words
  match chmodOptions.read true (sizeOf others) others with
  | .error e => usage "chmod" e 1
  | .ok g =>
    let operands := given.toList ++ g.operands
    match operands with
    | [] => usage "chmod" (oct "missing operand") 1
    | [mode] => usage "chmod" (oct "missing operand after " ++ cited mode) 1
    | mode :: names =>
      match modeOf? mode with
      | none => usage "chmod" (oct "invalid mode: " ++ cited mode) 1
      | some change => each names (chmodOne (g.has 'R') (g.has 'f') change)

/-! ## truncate -/

def truncateOptions : Options :=
  ⟨"cor:s:", [("no-create", 'c', .nothing), ("size", 's', .something),
    ("reference", 'r', .something)]⟩

/-- A number with a letter for a power of 1024, or with two for one of 1000. -/
def scaled? (text : Octets) : Option Nat := do
  let ds := text.takeWhile Char.isDigit
  let n ← Numeral.digits? 10 ds
  let units := ["K", "M", "G", "T", "P", "E"]
  let suffix := String.ofList (text.drop ds.length)
  if suffix = "" then some n
  else if suffix = "b" then some (n * 512)
  else if suffix = "k" then some (n * 1024)
  else if suffix = "kB" then some (n * 1000)
  else
    match units.findIdx? fun u => suffix = u ∨ suffix = u ++ "iB" with
    | some i => some (n * Nat.pow 1024 (i + 1))
    | none => (units.findIdx? fun u => suffix = u ++ "B").map fun i => n * Nat.pow 1000 (i + 1)

def resized (size : Nat) (content : Octets) : Octets :=
  content.take size ++ List.replicate (size - content.length) '\x00'

def truncate : Tool := reading "truncate" truncateOptions 1 fun g => do
  match g.argument? 's' with
  | none => usage "truncate" (oct "you must specify either '--size' or '--reference'") 1
  | some text =>
    if g.operands.isEmpty then usage "truncate" (oct "missing file operand") 1
    else
      match scaled? (text.dropWhile fun c => c == '+' || c == '-') with
      | none =>
        say "truncate" (oct "Invalid number: " ++ cited text)
        return 1
      | some n =>
        each g.operands fun name => do
          let content ← contentOf name
          match content with
          | .error .missing => if g.has 'c' then return true
          | _ => pure ()
          let content := content.toOption.getD []
          let size := match text.head? with
            | some '+' => content.length + n
            | some '-' => content.length - n
            | _ => n
          match ← change fun fs => do
              fs.writeAt (← fs.resolve (path name)) (resized size content).toBytes with
          | none => return true
          | some fault =>
            sayFault "truncate" (oct "cannot open " ++ quoted name ++ oct " for writing") fault
            return false

end MakeConfig.Tool
