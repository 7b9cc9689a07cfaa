import MakeConfig.Item.Report

/-! # Dialogs

A dialog is asked for the values of items. It has a state of its own, may leave a question
unanswered, and is told why its last answer to the same question was refused. Dialogs that
retry are asked again after that.
-/

namespace MakeConfig

universe u

structure Dialog (σ : Type u) where
  ask : Item → Option Rejection → σ → Except Error (Option String) × σ
  retries : σ → Bool

namespace Dialog

/-- Leaves every question unanswered. -/
def defaults : Dialog Unit where
  ask _ _ s := (.ok none, s)
  retries _ := false

variable {σ : Type u}

/-- The answer that gives an item its saved value again. An option that is gone gives none. -/
def savedAnswer? (saved : OrderedMap String) (item : Item) : Option String :=
  (saved.get? item.name).bind fun value =>
    match item.kind with
    | .choice _ => (item.optionIndex? value).map Numeral.natText
    | _ => some value

/-- Answers with saved values. The questions left, and those after a refused answer, go to another
dialog. -/
def replay (saved : OrderedMap String) (other : Dialog σ) : Dialog σ where
  ask item last s :=
    match last, savedAnswer? saved item with
    | none, some answer => (.ok (some answer), s)
    | _, _ => other.ask item last s
  retries := other.retries

/-- A terminal that is not there. The question is still announced. -/
def terminal : Dialog String where
  ask item last s :=
    let failed := .error (.dialog "Failed to read user input: IO error: not a terminal")
    match last with
    | none => (failed, s ++ item.announcement)
    | some _ => (failed, s)
  retries _ := true

end Dialog

/-- Prepared answers, and the questions asked so far with the reasons they came with. -/
structure Script where
  answers : OrderedMap (List (Option String))
  asked : List (String × Option Reason)
  retry : Bool

namespace Script

/-- Take the next answer for an item. -/
def next (s : Script) (item : Item) (last : Option Rejection) :
    Except Error (Option String) × Script :=
  let s := { s with asked := s.asked ++ [(item.name, last.map Rejection.reason)] }
  match (s.answers.get? item.name).getD [], last with
  | answer :: more, _ => (.ok answer, { s with answers := s.answers.insert item.name more })
  | [], none => (.ok none, s)
  | [], some _ => (.error (.dialog ("script exhausted at " ++ item.name)), s)

/-- Gives prepared answers. After the last one a refused answer is fatal. -/
def dialog : Dialog Script where
  ask item last s := s.next item last
  retries s := s.retry

end Script

end MakeConfig
