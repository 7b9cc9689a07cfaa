import MakeConfig.FileSystem

/-! # The machine of a run

What a run changes outside itself: the files, and the text that it prints. A task fails with
an error, and what it did until then stays done.
-/

namespace MakeConfig

universe u

structure Machine where
  files : FileSystem
  output : String

namespace Machine

/-- A task that may fail. -/
abbrev Task (ε : Type) (α : Type) : Type := ExceptT ε (StateM Machine) α

namespace Task

variable {ε : Type}

def files : Task ε FileSystem := do return (← get).files

def print (text : String) : Task ε Unit := modify fun m => { m with output := m.output ++ text }

/-- Take the files that an operation leaves, or fail if there are none. -/
def store (failure : ε) (operation : FileSystem → Option FileSystem) : Task ε Unit := do
  match operation (← files) with
  | none => throw failure
  | some fs => modify fun m => { m with files := fs }

/-- Keep the files that an operation leaves in any case, and fail if it does. -/
def attempt {δ : Type} (failure : ε) (operation : FileSystem → Except δ Unit × FileSystem) :
    Task ε Unit := do
  let (result, fs) := operation (← files)
  modify fun m => { m with files := fs }
  match result with
  | .ok () => pure ()
  | .error _ => throw failure

/-- Make something fail in the way of another task. -/
def ofExcept {α : Type} {δ : Type} (failure : δ → ε) : Except δ α → Task ε α
  | .ok v => pure v
  | .error e => throw (failure e)

end Task

end Machine

end MakeConfig
