import MakeConfig.Tool.Make

/-! # Tools that copy and move files

A file goes onto the file of a name or to a new name; a directory goes with all that is below it. What
is no directory never takes the place of one, nor the other way round.
-/

namespace MakeConfig.Tool

open Text Shell Act

/-- Complain, and say that it did not go well. -/
def refuse (program : String) (text : Octets) : Act Bool := do
  say program text
  return false

def refuseFault (program : String) (text : Octets) (fault : FileFault) : Act Bool := do
  sayFault program text fault
  return false

/-- Tell of a step that was made. -/
def announceIf (verbose : Bool) (text : Octets) : Act Unit := do
  if verbose then write 1 (text ++ ['\n'])

def arrow (source target : Octets) : Octets := quoted source ++ oct " -> " ++ quoted target

/-- Whether the entry at a location was changed later than another one. -/
def isNewer (fs : FileSystem) (l other : Location) : Bool :=
  let age (place : Location) : Nat := fs.entries.findIdx fun e => e.1 = place
  age other < age l

/-- Why two entries cannot take the place of one another, as the text of a complaint. -/
def mismatch? (source target : Octets) (new old : FileEntry) : Option Octets :=
  match FileEntry.isDirectory (some new), FileEntry.isDirectory (some old) with
  | true, false =>
    some (oct "cannot overwrite non-directory " ++ quoted target ++ oct " with directory " ++
      quoted source)
  | false, true =>
    some (oct "cannot overwrite directory " ++ quoted target ++ oct " with non-directory")
  | _, _ => none

/-! ## cp -/

def cpOptions : Options :=
  ⟨"abdfHiLlnPprRsS:t:Tuvx", [("archive", 'a', .nothing), ("force", 'f', .nothing),
    ("interactive", 'i', .nothing), ("link", 'l', .nothing), ("dereference", 'L', .nothing),
    ("no-clobber", 'n', .nothing), ("no-dereference", 'P', .nothing),
    ("preserve", 'p', .maybe), ("recursive", 'r', .nothing),
    ("remove-destination", 'f', .nothing), ("symbolic-link", 's', .nothing),
    ("target-directory", 't', .something), ("no-target-directory", 'T', .nothing),
    ("update", 'u', .maybe), ("verbose", 'v', .nothing), ("one-file-system", 'x', .nothing)]⟩

/-- How copies are made. -/
structure Copying where
  recursive : Bool
  /-- Whether links are followed: those that are named, and those that are met below. -/
  followNamed : Bool
  followMet : Bool
  keepOld : Bool
  onlyNewer : Bool
  keepModes : Bool
  verbose : Bool

def copyingOf (g : Given) : Copying :=
  let recursive := g.has 'r' || g.has 'R' || g.has 'a'
  let follow := g.has 'L' && !(g.has 'P')
  ⟨recursive, follow || g.has 'H' || !(recursive || g.has 'P' || g.has 'd'), follow,
    g.has 'n' || g.has 'i', g.has 'u', g.has 'p' || g.has 'a', g.has 'v'⟩

/-- Put the content of a file into another one. -/
def copyFile (c : Copying) (source target : Octets) (e : FileEntry) : Act Bool := do
  let failure (fault : FileFault) : Act Bool :=
    let fault := if target.getLast? = some '/' then .notDirectory else fault
    refuseFault "cp" (oct "cannot create regular file " ++ quoted target) fault
  let fs ← files
  let isNew := (fs.find true (path target)).toOption.isNone
  match e, fs.resolve (path target) with
  | _, .error fault => failure fault
  | .link link, .ok _ =>
    match ← change fun fs => do
        let l ← fs.resolveTo false (path target)
        fs.roomAt l
        return fs.setAt l (.link link) with
    | some fault => failure fault
    | none =>
      announceIf c.verbose (arrow source target)
      return true
  | e, .ok l =>
    let (content, executable) := match e with
      | .file content executable => (content, executable)
      | _ => (ByteArray.empty, false)
    match ← change fun fs => do
        let fs ← fs.writeAt l content
        return if isNew || c.keepModes then fs.markAt l executable else fs with
    | some fault => failure fault
    | none =>
      announceIf c.verbose (arrow source target)
      return true

/-- Make the directory that a copy of one is to be. -/
def copyDirectory (c : Copying) (source target : Octets) : Act Bool := do
  let fs ← files
  if fs.isDirectory (path target) then return true
  match ← change fun fs => do fs.makeDirectoryAt (← fs.resolve (path (withoutSlashes target))) with
  | some fault => refuseFault "cp" (oct "cannot create directory " ++ quoted target) fault
  | none =>
    announceIf c.verbose (arrow source target)
    return true

/-- Copy onto a name. The fuel bounds the depth of the directories. -/
def copyOnto (c : Copying) : Nat → Bool → Octets → Octets → Act Bool
  | 0, _, _, _ => return false
  | fuel + 1, named, source, target => do
    let fs ← files
    let below (l place : Location) : Act Bool := do
      let inItself := l.isPrefixOf place
      if inItself ∧ l.length + 1 < place.length then
        refuse "cp" (oct "cannot copy a directory, " ++ quoted source ++ oct ", into itself, " ++
          quoted target)
      else if ← copyDirectory c source target then
        let mut good := true
        for name in fs.namesAt l do
          unless l ++ [name] = place do
            let name := oct name
            unless ← copyOnto c fuel false (inDirectory source name) (inDirectory target name) do
              good := false
        if inItself then
          refuse "cp" (oct "cannot copy a directory, " ++ quoted source ++ oct ", into itself, " ++
            quoted target)
        else return good
      else return false
    match fs.find (if named then c.followNamed else c.followMet) (path source) with
    | .error fault => refuseFault "cp" (oct "cannot stat " ++ quoted source) fault
    | .ok (l, e) =>
      let isDirectory := FileEntry.isDirectory (some e)
      if isDirectory && !c.recursive then
        refuse "cp" (oct "-r not specified; omitting directory " ++ quoted source)
      else
        match fs.find true (path target) with
        | .ok (place, old) =>
          match mismatch? source target e old with
          | some text => refuse "cp" text
          | none =>
            if place = l && !isDirectory then
              refuse "cp" (quoted source ++ oct " and " ++ quoted target ++
                oct " are the same file")
            else if isDirectory then below l place
            else if c.keepOld || (c.onlyNewer && !isNewer fs l place) then return true
            else copyFile c source target e
        | .error _ =>
          if isDirectory then
            match fs.resolve (path (withoutSlashes target)) with
            | .ok place => below l place
            | .error fault => refuseFault "cp" (oct "cannot create directory " ++ quoted target) fault
          else copyFile c source target e

def cp : Tool := reading "cp" cpOptions 1 fun g => do
  let depth := ((← files).entries.map fun e => e.1.length).foldl max 0 + 2
  carry (← destination "cp" g true) (copyOnto (copyingOf g) depth true)

/-! ## mv -/

def mvOptions : Options :=
  ⟨"bfinS:t:TuvZ", [("force", 'f', .nothing), ("interactive", 'i', .nothing),
    ("no-clobber", 'n', .nothing), ("target-directory", 't', .something),
    ("no-target-directory", 'T', .nothing), ("update", 'u', .maybe), ("verbose", 'v', .nothing),
    ("strip-trailing-slashes", 'z', .nothing)]⟩

def moveOnto (g : Given) (source target : Octets) : Act Bool := do
  let fs ← files
  let failure (fault : FileFault) : Act Bool :=
    refuseFault "mv" (oct "cannot move " ++ quoted source ++ oct " to " ++ quoted target) fault
  match fs.find false (path source) with
  | .error fault => refuseFault "mv" (oct "cannot stat " ++ quoted source) fault
  | .ok (l, e) =>
    let isDirectory := FileEntry.isDirectory (some e)
    let finish (place : Location) : Act Bool := do
      setFiles (fs.moveAt l place)
      announceIf (g.has 'v') (oct "renamed " ++ arrow source target)
      return true
    let inside (place : Location) : Bool := isDirectory && l.isPrefixOf place
    let within : Act Bool :=
      refuse "mv" (oct "cannot move " ++ quoted source ++ oct " to a subdirectory of itself, " ++
        quoted target)
    match fs.find false (path target) with
    | .ok (place, old) =>
      if place = l then
        refuse "mv" (quoted source ++ oct " and " ++ quoted target ++ oct " are the same file")
      else
        match mismatch? source target e old with
        | some text => refuse "mv" text
        | none =>
          if g.has 'n' || (g.has 'u' && !isNewer fs l place) then return true
          else if inside place then within
          else if isDirectory && !(fs.namesAt place).isEmpty then
            refuseFault "mv" (oct "cannot overwrite " ++ quoted target) .notEmpty
          else finish place
    | .error _ =>
      let bare := if isDirectory then withoutSlashes target else target
      match fs.resolveTo false (path bare) with
      | .error fault => failure (if target.getLast? = some '/' then .notDirectory else fault)
      | .ok place =>
        match fs.roomAt place with
        | .error fault => failure fault
        | .ok () => if inside place then within else finish place

def mv : Tool := reading "mv" mvOptions 1 fun g => do
  carry (← destination "mv" g true) (moveOnto g)

/-! ## install -/

def installOptions : Options :=
  ⟨"bcCdDg:m:o:psS:t:Tv", [("directory", 'd', .nothing), ("mode", 'm', .something),
    ("target-directory", 't', .something), ("no-target-directory", 'T', .nothing),
    ("verbose", 'v', .nothing), ("preserve-timestamps", 'p', .nothing),
    ("owner", 'o', .something), ("group", 'g', .something), ("strip", 's', .nothing),
    ("compare", 'C', .nothing)]⟩

/-- Put a file in its place with the mode that it is to have. -/
def installOnto (g : Given) (source target : Octets) : Act Bool := do
  let mode := ((g.argument? 'm').bind modeOf?).getD fun _ _ => true
  if g.has 'D' then
    unless ← makeAll ⟨"install", none⟩ (leadingPart target) do return false
  let fs ← files
  match fs.find true (path source) with
  | .error fault => refuseFault "install" (oct "cannot stat " ++ quoted source) fault
  | .ok (_, .directory) => refuse "install" (oct "omitting directory " ++ quoted source)
  | .ok (l, _) =>
    let failure (fault : FileFault) : Act Bool :=
      refuseFault "install" (oct "cannot create regular file " ++ quoted target) fault
    match fs.resolve (path target) with
    | .error fault => failure (if target.getLast? = some '/' then .notDirectory else fault)
    | .ok place =>
      if place = l then
        refuse "install" (quoted source ++ oct " and " ++ quoted target ++
          oct " are the same file")
      else
        match ← change fun fs => do
            let fs ← fs.writeAt place ((fs.contentAt? l).getD ByteArray.empty)
            return fs.markAt place (mode false false) with
        | some fault => failure fault
        | none =>
          announceIf (g.has 'v') (arrow source target)
          return true

def install : Tool := reading "install" installOptions 1 fun g => do
  match (g.argument? 'm').map fun m => (m, modeOf? m) with
  | some (m, none) =>
    say "install" (oct "invalid mode " ++ cited m)
    return 1
  | _ =>
    if g.has 'd' then
      if g.operands.isEmpty then usage "install" (oct "missing file operand") 1
      else
        let announcement? := if g.has 'v' then some "creating directory " else none
        each g.operands (makeAll ⟨"install", announcement?⟩)
    else carry (← destination "install" g true) (installOnto g)

end MakeConfig.Tool
