import MakeConfig.Program.Run

/-! # The program

The part that talks to the outside: it takes in the files below the working directory and
the environment, runs the program on them, and writes back what the run changed.
-/

namespace MakeConfig.Main

def textOf (l : Location) : String := "/" ++ "/".intercalate l

/-- Whether a content is that of a script that names its interpreter. -/
def isScript (content : ByteArray) : Bool := content.toList.take 2 == [35, 33]

/-- The entry at a location with those below it, down to a depth. What cannot be read is left
out, and files count as programs if they are scripts that name their interpreter. -/
def entriesFrom : Nat → Location → IO (List (Location × FileEntry))
  | 0, _ => pure []
  | depth + 1, l => do
    try
      let place ← IO.FS.realPath (textOf l)
      if ← place.isDir then
        let names := (← place.readDir).toList.map fun e => e.fileName
        let inner ← names.mapM fun name => entriesFrom depth (l ++ [name])
        return (l, .directory) :: inner.flatten
      else
        let content ← IO.FS.readBinFile place
        return [(l, .file content (isScript content))]
    catch _ => return []

/-- The directories above a location. -/
def leading (l : Location) : List (Location × FileEntry) :=
  (List.range l.length).map fun n => (l.take n, .directory)

def maxDepth : Nat := 32

/-- What is there on every machine. -/
def usualEntries : List (Location × FileEntry) :=
  [(["dev"], .directory), (["dev", "null"], .device false), (["dev", "zero"], .device true)]

def filesHere : IO FileSystem := do
  let here ← IO.FS.realPath "."
  let l := (Route.ofPath ⟨here.toString⟩).names
  return ⟨⟨here.toString⟩, usualEntries ++ leading l ++ (← entriesFrom maxDepth l)⟩

/-- Anyone may read a program and run it, and its owner may change it. -/
def programRights : IO.FileRight := ⟨⟨true, true, true⟩, ⟨true, false, true⟩, ⟨true, false, true⟩⟩

/-- Write what an entry of a later file system adds or changes. What a link leads to takes the place of
the link. -/
def writeEntry (before after : FileSystem) (l : Location) : IO Unit := do
  match after.entryAt? l with
  | some .directory => unless before.isDirectoryAt l do IO.FS.createDirAll (textOf l)
  | some (.file content executable) =>
    unless (before.contentAt? l).map ByteArray.toList == some content.toList do
      IO.FS.writeBinFile (textOf l) content
    if executable && !before.executableAt l then IO.setAccessRights (textOf l) programRights
  | some (.link _) =>
    match after.content? ⟨textOf l⟩ with
    | some content => IO.FS.writeBinFile (textOf l) content
    | none => pure ()
  | some (.device _) | none => pure ()

/-- Remove an entry unless a later file system has one of its kind there. -/
def removeEntry (after : FileSystem) (l : Location) (entry : FileEntry) : IO Unit := do
  let stays := FileEntry.isDirectory entry == after.isDirectoryAt l && (after.entryAt? l).isSome
  unless stays do
    if FileEntry.isDirectory entry then IO.FS.removeDir (textOf l) else IO.FS.removeFile (textOf l)

def writeChanges (before after : FileSystem) : IO Unit := do
  for (l, entry) in before.entries.reverse do
    removeEntry after l entry
  for (l, _) in after.entries do
    writeEntry before after l

/-- The lines of the environment, which have a zero character after each. -/
def environment : IO Environment := do
  let text ← IO.FS.readFile "/proc/self/environ"
  let settings := (Text.split '\x00' text.toList).filterMap fun line =>
    (Text.splitOnce? '=' line).map fun (name, value) => (String.ofList name, String.ofList value)
  return ⟨settings, .checked⟩

/-- A number from random bytes. -/
def randomNumber : IO Nat := do
  return (← IO.getRandomBytes 16).foldl (fun n b => n * 256 + b.toNat) 0

/-- The time is that at which the system shows this process. -/
def ambient : IO Ambient := do
  let self ← IO.FS.realPath "/proc/self/environ"
  let seconds := (← self.metadata).modified.sec
  let numbers ← (List.range 256).mapM fun _ => randomNumber
  return ⟨seconds, fun place => numbers[place % 256]?.getD 0⟩

/-- More than any schema that ends takes. -/
def maxSteps : Nat := 100000

end MakeConfig.Main

open MakeConfig MakeConfig.Main in
def main (arguments : List String) : IO UInt32 := do
  let files ← filesHere
  let environment ← environment
  let outside : Program.Outside := ⟨environment, ← ambient, Program.localTools environment⟩
  match Program.run maxSteps outside arguments ⟨files, ""⟩ with
  | none =>
    IO.eprintln "the schemas do not come to an end"
    return 1
  | some (status, machine) =>
    (← IO.getStdout).putStr machine.output
    writeChanges files machine.files
    return status.toUInt32
