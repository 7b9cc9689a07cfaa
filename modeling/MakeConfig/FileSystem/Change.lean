import MakeConfig.FileSystem

/-! # Changing files

Operations that make, fill, copy and remove entries. One that fails leaves no trace, but for
the making of a directory with those that lead to it: it keeps the ones that were made.
-/

namespace MakeConfig.FileSystem

variable (fs : FileSystem)

/-! ## At locations -/

def setAt (l : Location) (e : FileEntry) : FileSystem :=
  { fs with entries := (fs.entries.filter fun x => x.1 != l) ++ [(l, e)] }

def removeAt (l : Location) : FileSystem :=
  { fs with entries := fs.entries.filter fun x => !l.isPrefixOf x.1 }

/-- Give the entries from one location down new locations from another one down. -/
def moveAt (source target : Location) : FileSystem :=
  let moved := fs.entries.filter fun x => source.isPrefixOf x.1
  { fs with
    entries := (fs.entries.filter fun x => !source.isPrefixOf x.1 && !target.isPrefixOf x.1) ++
      moved.map fun (l, e) => (target ++ l.drop source.length, e) }

/-- Whether an entry may be made at a location: its name is one, and it would be in a directory. -/
def roomAt (l : Location) : Except FileFault Unit := do
  match fs.barrierAt? l.dropLast with
  | some fault => throw fault
  | none => if l.all isName then return else throw .tooLong

/-- Give a file a content. The file is created if need be, in a directory that exists, and keeps
whether it can be run. -/
def writeAt (l : Location) (content : ByteArray) : Except FileFault FileSystem :=
  match fs.entryAt? l with
  | some .directory => .error .isDirectory
  | some (.file _ executable) => .ok (fs.setAt l (.file content executable))
  | some (.link _) => .error .tooManyLinks
  | some (.device _) => .ok fs
  | none => (fs.roomAt l).map fun _ => fs.setAt l (.file content false)

/-- Say whether a file can be run. -/
def markAt (l : Location) (executable : Bool) : FileSystem :=
  match fs.entryAt? l with
  | some (.file content _) => fs.setAt l (.file content executable)
  | _ => fs

def makeDirectoryAt (l : Location) : Except FileFault FileSystem :=
  match fs.entryAt? l with
  | some _ => .error .alreadyThere
  | none => (fs.roomAt l).map fun _ => fs.setAt l .directory

/-! ## At paths -/

def write? (p : Path) (content : ByteArray) : Option FileSystem := do
  (fs.writeAt (← fs.locate? p) content).toOption

def append? (p : Path) (content : ByteArray) : Option FileSystem :=
  fs.write? p ((fs.content? p).getD ByteArray.empty ++ content)

/-- Remove a file or a link. -/
def removeFile? (p : Path) : Option FileSystem :=
  match fs.find false p with
  | .ok (_, .directory) | .error _ => none
  | .ok (l, _) => some (fs.removeAt l)

/-- Make the directories on the way from a location, as far as that goes. -/
def makeDirectoriesFrom (fs : FileSystem) (l : Location) :
    List Path.Component → Except FileFault Unit × FileSystem
  | [] => (.ok (), fs)
  | c :: cs =>
    match c with
    | .root => makeDirectoriesFrom fs [] cs
    | .here => makeDirectoriesFrom fs l cs
    | .up => makeDirectoriesFrom fs l.dropLast cs
    | .name n =>
      match fs.walk true maxLinks l [.name n] with
      | .error fault => (.error fault, fs)
      | .ok l =>
        match fs.entryAt? l, fs.makeDirectoryAt l with
        | some .directory, _ => makeDirectoriesFrom fs l cs
        | some _, _ => (.error .notDirectory, fs)
        | none, .error fault => (.error fault, fs)
        | none, .ok fs => makeDirectoriesFrom fs l cs

/-- Make a directory with all directories that lead to it. Those that were made before a failure
stay. -/
def makeDirectories (p : Path) : Except FileFault Unit × FileSystem :=
  if p.text = "" ∨ p.text.toList.contains '\x00' then (.error .missing, fs)
  else if p.text.utf8ByteSize > maxPathLength then (.error .tooLong, fs)
  else makeDirectoriesFrom fs [] (fs.workingDirectory.join p).components

/-- Copy a file over another one or to a new name, with whether it can be run. The target is emptied
before the source is read, so a file copied onto itself is empty afterwards. -/
def copy? (source target : Path) : Option FileSystem := do
  guard (fs.isFile source)
  let executable := ((fs.locate? source).map fs.executableAt).getD false
  let l ← fs.locate? target
  let opened ← (fs.writeAt l ByteArray.empty).toOption
  let filled ← (opened.writeAt l ((opened.content? source).getD ByteArray.empty)).toOption
  return filled.markAt l executable

/-- The entries that a failed operation leaves behind are those from before. -/
def orUnchanged (result : Option FileSystem) : FileSystem := result.getD fs

end MakeConfig.FileSystem
