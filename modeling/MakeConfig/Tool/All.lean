import MakeConfig.Shell.Condition
import MakeConfig.Tool.Blocks
import MakeConfig.Tool.Compute
import MakeConfig.Tool.Copy
import MakeConfig.Tool.Details
import MakeConfig.Tool.Digest
import MakeConfig.Tool.Dump
import MakeConfig.Tool.Edit
import MakeConfig.Tool.Grep
import MakeConfig.Tool.Join
import MakeConfig.Tool.Listing
import MakeConfig.Tool.Wrap

/-! # All tools

The programs that can be called by their names, and where they are.
-/

namespace MakeConfig.Tool

open Text Shell Act

/-! ## Small ones -/

def done (status : Nat) : Tool := fun _ => return status

/-- Whether a word is made of the option letters of `echo`. -/
def isEchoOption (w : Octets) : Bool :=
  match w with
  | '-' :: c :: cs => (c :: cs).all fun c => c == 'n' || c == 'e' || c == 'E'
  | _ => false

/-- What the program prints. Unlike the command of the shell it leaves escapes alone unless it is told
not to. -/
def echo : Tool := fun words => do
  let options := (words.takeWhile isEchoOption).flatten
  let texts := words.dropWhile isEchoOption
  let escapes := (options.reverse.find? fun c => c == 'e' || c == 'E') == some 'e'
  let (text, ends) :=
    if escapes then Print.echoTexts texts else (List.intercalate [' '] texts, false)
  write 1 (if ends || options.contains 'n' then text else text ++ ['\n'])
  return 0

def printf : Tool := fun words => do
  match (if words.head? = some ['-', '-'] then words.drop 1 else words) with
  | [] => usage "printf" (oct "missing operand") 1
  | format :: rest =>
    let printed := Print.format format rest
    for flaw in printed.flaws do say "printf" flaw
    write 1 printed.text
    return if printed.status = 0 then 0 else 1

def test (name : Octets) : Tool := fun words => do
  match Condition.test (← files) name words with
  | .ok b => return if b then 0 else 1
  | .error text =>
    say (String.ofList name) text
    return 2

def pwd : Tool := fun _ => do
  let fs ← files
  let here := ((fs.locate? fs.workingDirectory).map textOf).getD (oct fs.workingDirectory.text)
  write 1 (here ++ ['\n'])
  return 0

def sleep : Tool := reading "sleep" ⟨"", []⟩ 1 fun g => do
  if g.operands.isEmpty then usage "sleep" (oct "missing operand") 1
  else
    match g.operands.find? fun w => !isDuration w with
    | some w => usage "sleep" (oct "invalid time interval " ++ cited w) 1
    | none => return 0

/-- How much a tool prints that would go on for ever: more than its readers take. -/
def endless : Nat := 0x100000

def yes : Tool := fun words => do
  let line := (if words.isEmpty then ['y'] else List.intercalate [' '] words) ++ ['\n']
  write 1 (List.replicate (endless / line.length + 1) line).flatten
  return 0

def whoami : Tool := fun _ => do
  print "root\n"
  return 0

def uname : Tool := reading "uname" ⟨"so", [("kernel-name", 's', .nothing),
    ("operating-system", 'o', .nothing)]⟩ 1 fun g => do
  match g.operands with
  | extra :: _ => usage "uname" (oct "extra operand " ++ cited extra) 1
  | [] =>
    let kernel := if g.has 's' || !g.has 'o' then ["Linux"] else []
    print (" ".intercalate (kernel ++ if g.has 'o' then ["GNU/Linux"] else []) ++ "\n")
    return 0

/-- There is one user only. -/
def id : Tool := reading "id" ⟨"ugGnr", [("user", 'u', .nothing), ("group", 'g', .nothing),
    ("groups", 'G', .nothing), ("name", 'n', .nothing), ("real", 'r', .nothing)]⟩ 1 fun g => do
  if (g.last? "ugG").isNone then print "uid=0(root) gid=0(root) groups=0(root)\n"
  else print (if g.has 'n' then "root\n" else "0\n")
  return 0

def arch : Tool := fun _ => do
  print "x86_64\n"
  return 0

def tty : Tool := fun _ => do
  print "not a tty\n"
  return 1

/-! ## The table -/

/-- Tools that print when they are done, after their complaints. -/
def settled : List (String × Tool) :=
  [("comm", comm), ("diff", diff), ("join", join), ("ls", ls), ("od", Dump.od),
    ("paste", paste), ("printf", printf), ("rev", rev), ("sed", Edit.sed), ("sort", sort), ("tac", tac)]

/-- Tools that print as they go on. -/
def running (call : Caller) : List (String × Tool) :=
  [("arch", arch), ("base64", base64), ("basename", basename), ("cat", cat), ("chgrp", done 0),
    ("chmod", chmod), ("chown", done 0), ("cksum", cksum), ("cmp", cmp), ("cp", cp), ("cut", cut),
    ("date", date), ("dd", dd), ("dirname", dirname), ("echo", echo), ("egrep", grepWith [oct "-E"]),
    ("env", env call), ("expand", expand), ("expr", Compute.expr), ("false", done 1),
    ("fgrep", grepWith [oct "-F"]), ("find", find call), ("fold", fold), ("grep", grep),
    ("head", head), ("id", id), ("install", install), ("ln", ln), ("mkdir", mkdir),
    ("mktemp", mktemp), ("mv", mv), ("nice", nice call), ("nl", nl), ("nohup", nohup call),
    ("printenv", printenv), ("pwd", pwd), ("readlink", readlink), ("realpath", realpath), ("rm", rm),
    ("rmdir", rmdir), ("seq", seq), ("sleep", sleep), ("split", split), ("stat", stat),
    ("sync", done 0), ("tail", tail), ("tee", tee), ("test", test (oct "test")), ("[", test ['[']),
    ("timeout", timeout call), ("touch", touch), ("tr", tr), ("true", done 0),
    ("truncate", truncate), ("tty", tty), ("uname", uname), ("uniq", uniq), ("unlink", unlink),
    ("wc", wc), ("whoami", whoami), ("xargs", xargs call), ("yes", yes)] ++
    digestRules.map fun r => (r.name, digestTool r)

/-- The tool of a name. -/
def named? (call : Caller) (name : Octets) : Option Tool :=
  let name := String.ofList name
  match settled.lookup name with
  | some tool => some fun words => heldBack (tool words)
  | none => (running call).lookup name

/-- The directories where the tools are. -/
def directories : List Octets := [oct "/usr/bin", oct "/bin"]

end MakeConfig.Tool
