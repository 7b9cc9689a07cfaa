import MakeConfig.Path.Route

/-! # File systems

A file system as one process sees it: directories, files and symbolic links by the names that
lead to them from the root, and a working directory. A path leads through directories only, so
a step up from a missing directory leads nowhere. A path has a length limit, and so have its
names.
-/

namespace MakeConfig

/-- The names that lead from the root to an entry. -/
abbrev Location := List String

inductive FileEntry where
  | directory
  /-- A file with its content, which can be run as a program or not. -/
  | file (content : ByteArray) (executable : Bool)
  /-- Another path to follow, relative to the directory of the link. -/
  | link (target : String)
  /-- A device that forgets what is written. It gives nothing, or zeros without end. -/
  | device (zeros : Bool)

/-- Whether there is an entry and it is a directory. -/
def FileEntry.isDirectory : Option FileEntry → Bool
  | some .directory => true
  | _ => false

/-- Why an operation on files fails. -/
inductive FileFault where
  | missing
  | notDirectory
  | isDirectory
  | alreadyThere
  | notEmpty
  | tooLong
  | tooManyLinks
  | notPermitted
  deriving DecidableEq, Repr

def FileFault.message : FileFault → String
  | missing => "No such file or directory"
  | notDirectory => "Not a directory"
  | isDirectory => "Is a directory"
  | alreadyThere => "File exists"
  | notEmpty => "Directory not empty"
  | tooLong => "File name too long"
  | tooManyLinks => "Too many levels of symbolic links"
  | notPermitted => "Permission denied"

structure FileSystem where
  workingDirectory : Path
  entries : List (Location × FileEntry)

namespace FileSystem

variable (fs : FileSystem)

/-- The root is always there. -/
def entryAt? (l : Location) : Option FileEntry :=
  if l = [] then some .directory else fs.entries.lookup l

def isDirectoryAt (l : Location) : Bool := FileEntry.isDirectory (fs.entryAt? l)

/-! ## Following paths -/

/-- The most bytes of a path. -/
def maxPathLength : Nat := 4095

/-- The most bytes of a name. -/
def maxNameLength : Nat := 255

/-- The most links that a path may lead through. -/
def maxLinks : Nat := 40

/-- Names of entries are not empty, have no NUL and are not too long. -/
def isName (n : String) : Bool :=
  n != "" && !n.toList.contains '\x00' && n.utf8ByteSize ≤ maxNameLength

/-- Why a location is no directory to go on from, if it is none. -/
def barrierAt? (l : Location) : Option FileFault :=
  match fs.entryAt? l with
  | some .directory => none
  | some _ => some .notDirectory
  | none => some .missing

/-- Follow components from a location. Each step starts in a directory. A link on the way is left to
`jump`, and so is a link at the end if that counts as well. -/
def walkWith (jump : Location → List Path.Component → Except FileFault Location) (last : Bool)
    (l : Location) : List Path.Component → Except FileFault Location
  | [] => .ok l
  | c :: cs =>
    match fs.barrierAt? l with
    | some fault => .error fault
    | none =>
      match c with
      | .root => walkWith jump last [] cs
      | .here => walkWith jump last l cs
      | .up => walkWith jump last l.dropLast cs
      | .name n =>
        if n.utf8ByteSize > maxNameLength then .error .tooLong
        else
          match fs.entryAt? (l ++ [n]) with
          | some (.link target) =>
            if cs.isEmpty ∧ !last then .ok (l ++ [n])
            else jump l ((⟨target⟩ : Path).components ++ cs)
          | _ => walkWith jump last (l ++ [n]) cs

/-- Follow components through so many links at most. -/
def walk (last : Bool) : Nat → Location → List Path.Component → Except FileFault Location
  | 0 => fs.walkWith (fun _ _ => .error .tooManyLinks) last
  | links + 1 => fs.walkWith (walk last links) last

/-- Where a path leads, whether or not there is an entry. A link at its end is followed if `last`
says so, and a path that can only name a directory must lead to one. -/
def resolveTo (last : Bool) (p : Path) : Except FileFault Location :=
  if p.text = "" ∨ p.text.toList.contains '\x00' then .error .missing
  else if p.text.utf8ByteSize > maxPathLength then .error .tooLong
  else do
    let l ← fs.walk (last || p.namesDirectory) maxLinks []
      (fs.workingDirectory.join p).components
    if p.namesDirectory then
      match fs.barrierAt? l with
      | some fault => throw fault
      | none => return l
    else return l

def resolve (p : Path) : Except FileFault Location := fs.resolveTo true p

def locate? (p : Path) : Option Location := (fs.resolve p).toOption

/-! ## What is there -/

def entry? (p : Path) : Option FileEntry := (fs.locate? p).bind fs.entryAt?

def exists? (p : Path) : Bool := (fs.entry? p).isSome

def isDirectory (p : Path) : Bool := FileEntry.isDirectory (fs.entry? p)

/-- How many zeros there are where they have no end: more than anyone takes. -/
def supply : Nat := 0x100000

/-- What there is to read at a location. -/
def contentAt? (l : Location) : Option ByteArray :=
  match fs.entryAt? l with
  | some (.file content _) => some content
  | some (.device zeros) => some (if zeros then ⟨Array.replicate supply 0⟩ else ByteArray.empty)
  | _ => none

def executableAt (l : Location) : Bool :=
  match fs.entryAt? l with
  | some (.file _ executable) => executable
  | some .directory => true
  | _ => false

def content? (p : Path) : Option ByteArray := (fs.locate? p).bind fs.contentAt?

def isFileAt (l : Location) : Bool :=
  match fs.entryAt? l with
  | some (.file ..) => true
  | _ => false

def isFile (p : Path) : Bool := ((fs.locate? p).map fs.isFileAt).getD false

/-- The content of a file that holds valid UTF-8. -/
def text? (p : Path) : Option String := (fs.content? p).bind String.fromUTF8?

/-- The entry that a path leads to, which has to be there. -/
def find (last : Bool) (p : Path) : Except FileFault (Location × FileEntry) := do
  let l ← fs.resolveTo last p
  match fs.entryAt? l with
  | some e => return (l, e)
  | none => throw .missing

/-- The names in a directory, in the order of their making. -/
def namesAt (l : Location) : List String :=
  fs.entries.filterMap fun (place, _) =>
    match place.getLast? with
    | some name => if place.dropLast = l then some name else none
    | none => none

end FileSystem

end MakeConfig
