import MakeConfig.Shell.Print
import MakeConfig.Tool.Lines

/-! # Tools for details

A tool that shows what is known of a file, and one that shows moments as dates. Owners, rights that
nobody looks at, and the time are the same everywhere.
-/

namespace MakeConfig.Tool

open Text Shell Act

/-! ## stat -/

/-- The type and the rights of an entry as one number. -/
def modeNumber : FileEntry → Nat
  | .directory => 0o40755
  | .file _ executable => if executable then 0o100755 else 0o100644
  | .link _ => 0o120777
  | .device _ => 0o20666

def kindOf : FileEntry → String
  | .directory => "directory"
  | .file content _ => if content.size = 0 then "regular empty file" else "regular file"
  | .link _ => "symbolic link"
  | .device _ => "character special file"

/-- The rights of an entry in letters, its type first. -/
def rightsText (e : FileEntry) : Octets :=
  let first := match e with
    | .directory => 'd'
    | .file .. => '-'
    | .link _ => 'l'
    | .device _ => 'c'
  let mode := modeNumber e
  first :: (List.range 9).map fun i =>
    if mode / Nat.pow 2 (8 - i) % 2 = 1 then "rwx".toList.getD (i % 3) '-' else '-'

def sizeOfEntry : FileEntry → Nat
  | .directory => 4096
  | .file content _ => content.size
  | .link target => target.utf8ByteSize
  | .device _ => 0

/-- What a letter of a format stands for. -/
def detail (name : Octets) (e : FileEntry) (letter : Char) : Octets :=
  match letter with
  | 'n' => name
  | 'N' =>
    match e with
    | .link target => quoted name ++ oct " -> " ++ quoted (oct target)
    | _ => quoted name
  | 's' => nat (sizeOfEntry e)
  | 'F' => oct (kindOf e)
  | 'a' => Numeral.digits 8 (modeNumber e % 0o1000)
  | 'A' => rightsText e
  | 'f' => Numeral.digits 16 (modeNumber e)
  | 'U' | 'G' => oct "root"
  | 'u' | 'g' => ['0']
  | 'h' => if FileEntry.isDirectory (some e) then ['2'] else ['1']
  | 'b' => nat ((sizeOfEntry e + 4095) / 4096 * 8)
  | 'B' => oct "512"
  | 'o' => oct "4096"
  | '%' => ['%']
  | _ => ['?']

/-- A format with its directives filled in. Backslashes count in some formats only. -/
def detailed (escapes : Bool) (name : Octets) (e : FileEntry) : Nat → Octets → Octets
  | 0, _ | _, [] => []
  | fuel + 1, c :: cs =>
    if c = '\\' ∧ escapes then
      let (d, rest) := Print.escape cs
      d :: detailed escapes name e fuel rest
    else if c ≠ '%' then c :: detailed escapes name e fuel cs
    else
      let d := Print.directive cs
      match d.rest with
      | [] => ['%']
      | letter :: rest => d.layout.text (detail name e letter) ++ detailed escapes name e fuel rest

def statOptions : Options :=
  ⟨"c:ft:L", [("format", 'c', .something), ("printf", 'p', .something), ("dereference", 'L', .nothing),
    ("file-system", 'f', .nothing), ("terse", 't', .nothing)]⟩

def stat : Tool := reading "stat" statOptions 1 fun g => do
  if g.operands.isEmpty then usage "stat" (oct "missing operand") 1
  else
    let escapes := g.last? "cp" == some 'p'
    let format := ((g.last? "cp").bind g.argument?).getD (oct "  File: %n")
    let mut good := true
    for name in g.operands do
      match (← files).find (g.has 'L') (path name) with
      | .ok (_, e) =>
        write 1 (detailed escapes name e format.length format ++ if escapes then [] else ['\n'])
      | .error fault =>
        sayFault "stat" (oct "cannot statx " ++ quoted name) fault
        good := false
    return statusOf good

/-! ## date -/

def dayNames : List String :=
  ["Sunday", "Monday", "Tuesday", "Wednesday", "Thursday", "Friday", "Saturday"]

def fullMonthNames : List String :=
  ["January", "February", "March", "April", "May", "June", "July", "August", "September", "October",
    "November", "December"]

structure Calendar where
  year : Nat
  /-- Counted from zero, and so is the day of the year. -/
  month : Nat
  day : Nat
  dayOfYear : Nat
  weekday : Nat
  seconds : Nat

def isLeap (year : Nat) : Bool := year % 4 = 0 && (year % 100 != 0 || year % 400 = 0)

def monthLengths (year : Nat) : List Nat :=
  [31, if isLeap year then 29 else 28, 31, 30, 31, 30, 31, 31, 30, 31, 30, 31]

/-- The year of a day that is counted from the start of a year. -/
def yearOf : Nat → Nat → Nat → Nat × Nat
  | 0, year, day => (year, day)
  | fuel + 1, year, day =>
    let length := if isLeap year then 366 else 365
    if day < length then (year, day) else yearOf fuel (year + 1) (day - length)

def monthIn (lengths : List Nat) (month day : Nat) : Nat × Nat :=
  match lengths with
  | [] => (month, day)
  | length :: rest => if day < length then (month, day) else monthIn rest (month + 1) (day - length)

def Calendar.ofSeconds (n : Nat) : Calendar :=
  let days := n / 86400
  let (year, dayOfYear) := yearOf (days / 365 + 1) 1970 days
  let (month, day) := monthIn (monthLengths year) 0 dayOfYear
  ⟨year, month, day + 1, dayOfYear, (days + 4) % 7, n % 86400⟩

def twoDigits (n : Nat) : Octets := if n < 10 then '0' :: nat n else nat n

/-- What a letter of a format of dates stands for. -/
def Calendar.part (c : Calendar) (moment : Nat) (letter : Char) : Octets :=
  let name (names : List String) (i : Nat) : Octets := oct (names.getD i "")
  let hour := c.seconds / 3600
  let twelve := if hour % 12 = 0 then 12 else hour % 12
  match letter with
  | 'Y' => nat c.year
  | 'C' => twoDigits (c.year / 100)
  | 'y' => twoDigits (c.year % 100)
  | 'm' => twoDigits (c.month + 1)
  | 'd' => twoDigits c.day
  | 'e' => padLeft 2 (nat c.day)
  | 'H' => twoDigits hour
  | 'k' => padLeft 2 (nat hour)
  | 'I' => twoDigits twelve
  | 'l' => padLeft 2 (nat twelve)
  | 'M' => twoDigits (c.seconds / 60 % 60)
  | 'S' => twoDigits (c.seconds % 60)
  | 'N' => oct "000000000"
  | 's' => nat moment
  | 'j' => (if c.dayOfYear < 9 then ['0', '0'] else if c.dayOfYear < 99 then ['0'] else []) ++
      nat (c.dayOfYear + 1)
  | 'A' => name dayNames c.weekday
  | 'a' => (name dayNames c.weekday).take 3
  | 'B' => name fullMonthNames c.month
  | 'b' | 'h' => (name fullMonthNames c.month).take 3
  | 'p' => if hour < 12 then oct "AM" else oct "PM"
  | 'P' => if hour < 12 then oct "am" else oct "pm"
  | 'u' => nat (if c.weekday = 0 then 7 else c.weekday)
  | 'w' => nat c.weekday
  | 'Z' => oct "UTC"
  | 'z' => oct "+0000"
  | 'n' => ['\n']
  | 't' => ['\t']
  | '%' => ['%']
  | letter => ['%', letter]

/-- Letters that stand for formats. -/
def datePatterns : List (Char × String) :=
  [('F', "%Y-%m-%d"), ('T', "%H:%M:%S"), ('X', "%H:%M:%S"), ('D', "%m/%d/%y"), ('x', "%m/%d/%y"),
    ('R', "%H:%M"), ('r', "%I:%M:%S %p"), ('c', "%a %b %e %H:%M:%S %Y")]

def dated (c : Calendar) (moment : Nat) : Octets → Octets
  | '%' :: letter :: cs =>
    (match datePatterns.lookup letter with
      | some pattern => simple pattern.toList
      | none => c.part moment letter) ++ dated c moment cs
  | d :: cs => d :: dated c moment cs
  | [] => []
where
  simple : Octets → Octets
    | '%' :: letter :: cs => c.part moment letter ++ simple cs
    | d :: cs => d :: simple cs
    | [] => []

def dateOptions : Options :=
  ⟨"d:r:uI::R", [("date", 'd', .something), ("reference", 'r', .something), ("utc", 'u', .nothing),
    ("universal", 'u', .nothing), ("iso-8601", 'I', .maybe), ("rfc-email", 'R', .nothing)]⟩

/-- The seconds up to the start of a day, which must be one of the calendar. -/
def secondsTo? (year month day : Nat) : Option Nat :=
  let lengths := monthLengths year
  let years := (List.range' 1970 (year - 1970)).foldl
    (fun days y => days + if isLeap y then 366 else 365) 0
  let months := (lengths.take (month - 1)).foldl (· + ·) 0
  if year < 1970 ∨ month = 0 ∨ day = 0 ∨ lengths.getD (month - 1) 0 < day then none
  else some ((years + months + day - 1) * 86400)

/-- The seconds of a time of day, whose own seconds may be left out. -/
def timeOfDay? (text : Octets) : Option Nat := do
  let parts ← (Text.split ':' text).mapM natural?
  match parts with
  | [h, m] => if h < 24 ∧ m < 60 then some (h * 3600 + m * 60) else none
  | [h, m, s] => if h < 24 ∧ m < 60 ∧ s < 60 then some (h * 3600 + m * 60 + s) else none
  | _ => none

/-- The moment that a text names: a count of seconds, the present, or a date with a time or
without. The present is the first moment that can be counted. -/
def momentOf? (text : Octets) : Option Nat :=
  match text with
  | '@' :: digits => natural? digits
  | text =>
    if text ∈ [[], oct "now", oct "today"] then some 0
    else do
      let parts ← (Text.split '-' (text.take 10)).mapM natural?
      let rest := text.drop 11
      let time ← if rest = [] ∧ text.length = 10 then some 0
        else if text[10]? = some ' ' ∨ text[10]? = some 'T' then timeOfDay? rest
        else none
      match parts with
      | [year, month, day] => return (← secondsTo? year month day) + time
      | _ => none

/-- Show a moment. Where none is given, it is the present. -/
def date : Tool := reading "date" dateOptions 1 fun g => do
  let moment? : Option Nat := match g.argument? 'd' with
    | some text => momentOf? text
    | none => some 0
  match g.operands, moment? with
  | _ :: extra :: _, _ => usage "date" (oct "extra operand " ++ cited extra) 1
  | _, none =>
    say "date" (oct "invalid date " ++ cited ((g.argument? 'd').getD []))
    return 1
  | operands, some moment =>
    let c := Calendar.ofSeconds moment
    match operands.headD ('+' :: oct (
        if g.has 'I' then "%F"
        else if g.has 'R' then "%a, %d %b %Y %T %z"
        else "%a %b %e %T %Z %Y")) with
    | '+' :: format =>
      write 1 (dated c moment format ++ ['\n'])
      return 0
    | operand =>
      say "date" (oct "invalid date " ++ cited operand)
      return 1

end MakeConfig.Tool
