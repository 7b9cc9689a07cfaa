import MakeConfig.Text.Digest
import MakeConfig.Tool.Lines

/-! # Tools for digests

Tools that print digests of files and check files against them, and one that writes bytes with
letters and digits only.
-/

namespace MakeConfig.Tool

open Text Shell Act

/-! ## Digests of files -/

structure DigestRule where
  name : String
  label : String
  /-- How many hexadecimal digits a digest has. -/
  size : Nat
  compute : Octets → Octets

def digestOptions : Options :=
  ⟨"bctwz", [("binary", 'b', .nothing), ("check", 'c', .nothing), ("tag", 'T', .nothing),
    ("text", 't', .nothing), ("zero", 'z', .nothing), ("warn", 'w', .nothing),
    ("quiet", 'q', .nothing), ("status", 's', .nothing), ("strict", 'S', .nothing),
    ("ignore-missing", 'm', .nothing)]⟩

/-- A name on one line. -/
def onOneLine (name : Octets) : Octets :=
  name.flatMap fun c =>
    match c with
    | '\\' => ['\\', '\\']
    | '\n' => ['\\', 'n']
    | '\r' => ['\\', 'r']
    | c => [c]

/-- The name that `onOneLine` makes something of. -/
def fromOneLine : Octets → Octets
  | '\\' :: 'n' :: cs => '\n' :: fromOneLine cs
  | '\\' :: 'r' :: cs => '\r' :: fromOneLine cs
  | '\\' :: '\\' :: cs => '\\' :: fromOneLine cs
  | c :: cs => c :: fromOneLine cs
  | [] => []

def digestLine (r : DigestRule) (g : Given) (name digest : Octets) : Octets :=
  let plain := g.has 'z'
  let written := if plain then name else onOneLine name
  let mark := if written = name then [] else ['\\']
  let body :=
    if g.has 'T' then oct (r.label ++ " (") ++ written ++ oct ") = " ++ digest
    else digest ++ [' ', if g.last? "bt" == some 'b' then '*' else ' '] ++ written
  mark ++ body ++ [if plain then '\x00' else '\n']

/-- The digest and the name that a line gives. -/
def checkedLine? (r : DigestRule) (line : Octets) : Option (Octets × Octets) :=
  let (escaped, line) := match line.dropWhile fun c => c == ' ' || c == '\t' with
    | '\\' :: cs => (true, cs)
    | cs => (false, cs)
  let digits := line.take r.size
  let found? : Option (Octets × Octets) :=
    match (Text.splitOnce? '(' line), line.drop r.size with
    | some (label, rest), after =>
      if label = oct (r.label ++ " ") then
        let name := (rest.reverse.dropWhile (· != ')')).reverse.dropLast
        let digest := rest.drop (name.length + 4)
        some (digest, name)
      else
        match after with
        | ' ' :: _ :: name => some (digits, name)
        | _ => none
    | none, ' ' :: _ :: name => some (digits, name)
    | none, _ => none
  match found? with
  | none => none
  | some (digest, name) =>
    if digest.length = r.size ∧ digest.all Numeral.isHexDigit ∧ !name.isEmpty then
      some (digest.map Char.toLower, if escaped then fromOneLine name else name)
    else none

/-- How a check went: the lines that are none, the files that cannot be read, and those that differ. -/
structure Verdict where
  valid : Nat
  malformed : Nat
  unreadable : Nat
  different : Nat

def warn (r : DigestRule) (count : Nat) (one many : String) : Act Unit := do
  if count > 0 then
    say r.name (oct "WARNING: " ++ nat count ++ oct (" " ++ if count = 1 then one else many))

def checkFile (r : DigestRule) (g : Given) (name content : Octets) : Act Bool := do
  let tell (name : Octets) (result : String) : Act Unit := do
    unless g.has 's' do write 1 (onOneLine name ++ oct (": " ++ result ++ "\n"))
  let mut v : Verdict := ⟨0, 0, 0, 0⟩
  for line in bareLines content do
    match checkedLine? r line with
    | none => v := { v with malformed := v.malformed + 1 }
    | some (digest, file) =>
      v := { v with valid := v.valid + 1 }
      match ← input file with
      | .error fault =>
        if fault = .missing && g.has 'm' then pure ()
        else
          sayName r.name file fault
          tell file "FAILED open or read"
          v := { v with unreadable := v.unreadable + 1 }
      | .ok text =>
        if r.compute text = digest then
          unless g.has 'q' do tell file "OK"
        else
          tell file "FAILED"
          v := { v with different := v.different + 1 }
  if v.valid = 0 then
    let label := if name = ['-'] then oct "standard input" else name
    say r.name (shown label ++ oct ": no properly formatted checksum lines found")
    return false
  unless g.has 's' do
    warn r v.malformed "line is improperly formatted" "lines are improperly formatted"
    warn r v.unreadable "listed file could not be read" "listed files could not be read"
    warn r v.different "computed checksum did NOT match" "computed checksums did NOT match"
  return v.unreadable = 0 && v.different = 0 && (v.malformed = 0 || !g.has 'S')

def digestTool (r : DigestRule) : Tool := reading r.name digestOptions 1 fun g => do
  let operands := if g.operands.isEmpty then [['-']] else g.operands
  let mut good := true
  for name in operands do
    match ← input name with
    | .error fault =>
      sayName r.name name fault
      good := false
    | .ok content =>
      if g.has 'c' then
        let passed ← checkFile r g name content
        good := good && passed
      else write 1 (digestLine r g name (r.compute content))
  return statusOf good

def digestRules : List DigestRule :=
  [⟨"md5sum", "MD5", 32, Digest.digest128⟩, ⟨"sha1sum", "SHA1", 40, Digest.digest160⟩,
    ⟨"sha224sum", "SHA224", 56, Digest.digest224⟩, ⟨"sha256sum", "SHA256", 64, Digest.digest256⟩,
    ⟨"sha384sum", "SHA384", 96, Digest.digest384⟩, ⟨"sha512sum", "SHA512", 128, Digest.digest512⟩]

/-! ## cksum -/

def cksum : Tool := reading "cksum" ⟨"", []⟩ 1 fun g => do
  let operands := if g.operands.isEmpty then [['-']] else g.operands
  let mut good := true
  for name in operands do
    match ← input name with
    | .error fault =>
      sayName "cksum" name fault
      good := false
    | .ok content =>
      let label := if g.operands.isEmpty then [] else ' ' :: name
      write 1 (nat (Digest.check content) ++ ' ' :: nat content.length ++ label ++ ['\n'])
  return statusOf good

/-! ## base64 -/

def sextetChars : Octets :=
  "ABCDEFGHIJKLMNOPQRSTUVWXYZabcdefghijklmnopqrstuvwxyz0123456789+/".toList

def sextet? (c : Char) : Option Nat := sextetChars.idxOf? c

/-- Three bytes become four characters. The last ones are filled up. -/
def toSextets : Octets → Octets
  | [] => []
  | a :: rest =>
    let char (n : Nat) : Char := sextetChars.getD (n % 64) 'A'
    match rest with
    | [] => [char (a.toNat / 4), char (a.toNat * 16), '=', '=']
    | [b] => [char (a.toNat / 4), char (a.toNat * 16 + b.toNat / 16), char (b.toNat * 4), '=']
    | b :: c :: rest =>
      [char (a.toNat / 4), char (a.toNat * 16 + b.toNat / 16), char (b.toNat * 4 + c.toNat / 64),
        char c.toNat] ++ toSextets rest

/-- The bytes that characters stand for, and whether all of them stand for some. -/
def fromSextets : Octets → Octets × Bool
  | [] => ([], true)
  | a :: b :: rest =>
    match sextet? a, sextet? b with
    | some m, some n =>
      let byte (n : Nat) : Char := Char.ofNat (n % 256)
      let first := byte (m * 4 + n / 16)
      match rest with
      | '=' :: '=' :: rest =>
        let (more, good) := fromSextets rest
        (first :: more, good)
      | c :: rest =>
        match sextet? c with
        | none => ([first], false)
        | some o =>
          let second := byte (n * 16 + o / 4)
          match rest with
          | '=' :: rest =>
            let (more, good) := fromSextets rest
            (first :: second :: more, good)
          | d :: rest =>
            match sextet? d with
            | none => ([first, second], false)
            | some p =>
              let (more, good) := fromSextets rest
              (first :: second :: byte (o * 64 + p) :: more, good)
          | [] => ([first, second], false)
      | [] => ([first], false)
    | _, _ => ([], false)
  | [_] => ([], false)

/-- Cut a text into lines of a width, or leave it whole if that is zero. -/
def wrapped (width : Nat) (text : Octets) : Octets :=
  if width = 0 then text else (Text.chunks width text).flatMap (· ++ ['\n'])

def base64 : Tool := reading "base64" ⟨"diw:", [("decode", 'd', .nothing),
    ("ignore-garbage", 'i', .nothing), ("wrap", 'w', .something)]⟩ 1 fun g => do
  match natural? ((g.argument? 'w').getD ['7', '6']), g.operands with
  | none, _ =>
    say "base64" (oct "invalid wrap size: " ++ quoted ((g.argument? 'w').getD []))
    return 1
  | _, _ :: extra :: _ => usage "base64" (oct "extra operand " ++ cited extra) 1
  | some width, operands =>
    match ← input (operands.headD ['-']) with
    | .error fault =>
      sayName "base64" (operands.headD ['-']) fault
      return 1
    | .ok content =>
      if g.has 'd' then
        let kept := content.filter fun c =>
          c != '\n' && (!g.has 'i' || c == '=' || (sextet? c).isSome)
        let (text, good) := fromSextets kept
        write 1 text
        unless good do say "base64" (oct "invalid input")
        return statusOf good
      else
        write 1 (wrapped width (toSextets content))
        return 0

end MakeConfig.Tool
