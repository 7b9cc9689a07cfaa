import MakeConfig.Package.Build
import MakeConfig.Proofs.FileSystem.Ways
import Mathlib.Data.List.Basic

/-! # Repos in turn

The repos of a tree have their turns one after the other until one fails. In a turn all else is done
before the ledger is opened, so a turn that fails leaves what was done until then, and one that ends
well adds one entry to one ledger. Ledgers that nothing else touches are thus told by the entries.
-/

namespace MakeConfig

namespace Machine.Task

variable {ε α β : Type}

theorem run_bind (x : Task ε α) (f : α → Task ε β) (m : Machine) :
    (x >>= f).run m = match x.run m with
      | (.ok a, m') => (f a).run m'
      | (.error e, m') => (.error e, m') := by
  change (ExceptT.bindCont f (x.run m).1) (x.run m).2 = _
  rcases x.run m with ⟨r, m'⟩
  cases r <;> rfl

theorem run_files (m : Machine) : (files : Task ε FileSystem).run m = (.ok m.files, m) := rfl

theorem run_store (failure : ε) (operation : FileSystem → Option FileSystem) (m : Machine) :
    (store failure operation).run m = match operation m.files with
      | none => (.error failure, m)
      | some fs => (.ok (), { m with files := fs }) := by
  rw [store, run_bind, run_files]
  dsimp only
  cases operation m.files <;> rfl

end Machine.Task

namespace Package

open Machine.Task

/-! ## Turns -/

section Definitions

variable (tools : Tools) (vars : Variables Handle) (name : String)

/-- The turn of a repo: what the ledger remembers and what the machine is like when it comes. -/
structure Turn where
  site : RepoSite
  ledger : Ledger
  machine : Machine

namespace Turn

variable (turn : Turn)

def checkout : Path := turn.site.repo.directory.pathIn vars

def out : Path := turn.site.repo.out.pathIn vars

def path : Path := turn.site.base.joinText name

def prepared : Except RunError Manifest × Machine := (prepare tools vars turn.site).run turn.machine

def readied : FileSystem := (turn.prepared tools vars).2.files

def ended : Except RunError Ledger × Machine :=
  (process tools vars name turn.ledger turn.site).run turn.machine

/-- What the next turn starts from. -/
def next? : Option (Ledger × Machine) :=
  let after := turn.ended tools vars name
  after.1.toOption.map fun ledger => (ledger, after.2)

def record (manifest : Manifest) : String × Ledger :=
  turn.ledger.record (turn.checkout vars) (turn.out vars) manifest

def manifest? : Option Manifest :=
  match (turn.ended tools vars name).1, (turn.prepared tools vars).1 with
  | .ok _, .ok manifest => some manifest
  | _, _ => none

/-- What a turn adds to the ledger in the directory of the schema, if it ended well. -/
def addition? : Option (Path × String) :=
  (turn.manifest? tools vars name).map fun manifest => (turn.site.base, (turn.record vars manifest).1)

end Turn

def turnsBy (next? : Turn → Option (Ledger × Machine)) :
    Ledger → Machine → List RepoSite → List Turn
  | _, _, [] => []
  | ledger, machine, site :: sites =>
    let turn := Turn.mk site ledger machine
    turn :: match next? turn with
      | some (ledger, machine) => turnsBy next? ledger machine sites
      | none => []

/-- The turns of repos until one fails. -/
def turns : Ledger → Machine → List RepoSite → List Turn := turnsBy (Turn.next? tools vars name)

end Definitions

section Turns

variable {tools : Tools} {vars : Variables Handle} {name : String}

namespace Turn

theorem ended_eq (turn : Turn) : turn.ended tools vars name =
    match turn.prepared tools vars with
    | (.ok manifest, m) =>
      match m.files.append? (turn.path name) (turn.record vars manifest).1.toUTF8 with
      | none => (.error .io, m)
      | some fs => (.ok (turn.record vars manifest).2, { m with files := fs })
    | (.error e, m) => (.error e, m) := by
  have hprepared : (prepare tools vars turn.site).run turn.machine = turn.prepared tools vars := rfl
  rw [ended, process, run_bind, hprepared]
  rcases turn.prepared tools vars with ⟨e | manifest, m⟩
  · rfl
  · dsimp only
    rw [run_bind, run_store]
    dsimp only [path, record, checkout, out]
    cases m.files.append? (turn.site.base.joinText name) _ <;> rfl

theorem ended_cases (turn : Turn) :
    (turn.manifest? tools vars name = none ∧
      ∃ e, turn.ended tools vars name = (.error e, (turn.prepared tools vars).2)) ∨
    ∃ manifest m, turn.manifest? tools vars name = some manifest ∧
      (turn.readied tools vars).append? (turn.path name)
        (turn.record vars manifest).1.toUTF8 = some m.files ∧
      turn.ended tools vars name = (.ok (turn.record vars manifest).2, m) := by
  unfold manifest? readied
  rw [ended_eq]
  rcases turn.prepared tools vars with ⟨e | manifest, m⟩
  · exact .inl ⟨rfl, e, rfl⟩
  · dsimp only
    cases ha : m.files.append? (turn.path name) (turn.record vars manifest).1.toUTF8 with
    | none => exact .inl ⟨rfl, _, rfl⟩
    | some fs => exact .inr ⟨manifest, ⟨fs, m.output⟩, rfl, ha, rfl⟩

end Turn

/-! ## Runs -/

/-- The turns of a run and what it comes to: a run goes on after a turn that ends well, from what its
entry leaves, and a turn that does not is the last one. -/
inductive Runs (tools : Tools) (vars : Variables Handle) (name : String) :
    Ledger → Machine → List RepoSite → List Turn → Except RunError Ledger × Machine → Prop
  | finished (ledger : Ledger) (machine : Machine) :
    Runs tools vars name ledger machine [] [] (.ok ledger, machine)
  | failed {turn : Turn} {e : RunError} (hm : turn.manifest? tools vars name = none)
    (sites : List RepoSite) :
    Runs tools vars name turn.ledger turn.machine (turn.site :: sites) [turn]
      (.error e, (turn.prepared tools vars).2)
  | done {turn : Turn} {manifest : Manifest} {machine : Machine} {sites : List RepoSite}
    {turns : List Turn} {result : Except RunError Ledger × Machine}
    (hm : turn.manifest? tools vars name = some manifest)
    (happend : (turn.readied tools vars).append? (turn.path name)
      (turn.record vars manifest).1.toUTF8 = some machine.files)
    (rest : Runs tools vars name (turn.record vars manifest).2 machine sites turns result) :
    Runs tools vars name turn.ledger turn.machine (turn.site :: sites) (turn :: turns) result

theorem next?_of_ended {turn : Turn} {result : Except RunError Ledger} {machine : Machine}
    (h : turn.ended tools vars name = (result, machine)) :
    turn.next? tools vars name = result.toOption.map fun ledger => (ledger, machine) := by
  rw [Turn.next?, h]

theorem run_cons (turn : Turn) (sites : List RepoSite) :
    ((turn.site :: sites).foldlM (process tools vars name) turn.ledger).run turn.machine =
      match turn.ended tools vars name with
      | (.ok ledger, machine) => (sites.foldlM (process tools vars name) ledger).run machine
      | (.error e, machine) => (.error e, machine) := by
  have hfirst : (process tools vars name turn.ledger turn.site).run turn.machine =
      turn.ended tools vars name := rfl
  rw [List.foldlM_cons, run_bind, hfirst]
  rcases turn.ended tools vars name with ⟨e | ledger, machine⟩ <;> rfl

theorem runs (ledger : Ledger) (machine : Machine) (sites : List RepoSite) :
    Runs tools vars name ledger machine sites (turns tools vars name ledger machine sites)
      ((sites.foldlM (process tools vars name) ledger).run machine) := by
  induction sites generalizing ledger machine with
  | nil => exact .finished ledger machine
  | cons site sites ih =>
    have hrun := @run_cons tools vars name ⟨site, ledger, machine⟩ sites
    rcases @Turn.ended_cases tools vars name ⟨site, ledger, machine⟩ with
      ⟨hm, e, hended⟩ | ⟨manifest, m, hm, happend, hended⟩
    · rw [hended] at hrun
      rw [hrun]
      simp only [turns, turnsBy, next?_of_ended hended, Except.toOption, Option.map_none]
      exact .failed hm sites
    · rw [hended] at hrun
      rw [hrun]
      simp only [turns, turnsBy, next?_of_ended hended, Except.toOption, Option.map_some]
      exact .done hm happend (ih _ _)

namespace Runs

variable {ledger : Ledger} {machine : Machine} {sites : List RepoSite} {turns : List Turn}
  {result : Except RunError Ledger × Machine}

theorem mem_sites (h : Runs tools vars name ledger machine sites turns result) :
    ∀ turn ∈ turns, turn.site ∈ sites := by
  induction h with
  | finished => rintro turn ⟨⟩
  | @failed turn e hm sites =>
    intro k hk
    rw [List.mem_singleton.mp hk]
    exact List.mem_cons_self
  | @done turn manifest machine sites turns result _ _ _ ih =>
    intro k hk
    rcases List.mem_cons.mp hk with rfl | hk
    · exact List.mem_cons_self
    · exact List.mem_cons_of_mem _ (ih k hk)

/-- A run ends well after the turns of all repos, or with the first turn that fails. -/
theorem outcome (h : Runs tools vars name ledger machine sites turns result) :
    (∃ after, result.1 = .ok after ∧ turns.map Turn.site = sites ∧
      ∀ turn ∈ turns, (turn.manifest? tools vars name).isSome = true) ∨
    ∃ front last rest e, result.1 = .error e ∧ turns = front ++ [last] ∧
      sites = (front ++ [last]).map Turn.site ++ rest ∧
      (∀ turn ∈ front, (turn.manifest? tools vars name).isSome = true) ∧
      last.manifest? tools vars name = none := by
  induction h with
  | finished ledger machine => exact .inl ⟨ledger, rfl, rfl, by rintro turn ⟨⟩⟩
  | @failed turn e hm sites =>
    exact .inr ⟨[], turn, sites, e, rfl, rfl, rfl, by rintro turn ⟨⟩, hm⟩
  | @done turn manifest machine sites turns result hm _ _ ih =>
    have hdone : ∀ {front : List Turn},
        (∀ turn ∈ front, (turn.manifest? tools vars name).isSome = true) →
        ∀ k ∈ turn :: front, (k.manifest? tools vars name).isSome = true := by
      rintro front hfront k hk
      rcases List.mem_cons.mp hk with rfl | hk
      · rw [hm]
        rfl
      · exact hfront k hk
    rcases ih with
      ⟨after, hok, rfl, hall⟩ | ⟨front, last, rest, e, herror, rfl, rfl, hall, hlast⟩
    · exact .inl ⟨after, hok, rfl, hdone hall⟩
    · exact .inr ⟨turn :: front, last, rest, e, herror, rfl, rfl, hdone hall, hlast⟩

end Runs

/-! ## What ledgers hold -/

/-- The entries under one key, put together. Without any there is none. -/
def ledgerText? (entries : List (Path × String)) (key : Path) : Option String :=
  match entries.filter (·.1 = key) with
  | [] => none
  | found => some (String.join (found.map Prod.snd))

theorem ledgerText?_concat_of_ne {key other : Path} (h : other ≠ key)
    (entries : List (Path × String)) (text : String) :
    ledgerText? (entries ++ [(key, text)]) other = ledgerText? entries other := by
  simp [ledgerText?, List.filter_append, Ne.symm h]

theorem ledgerText?_concat_self (key : Path) (entries : List (Path × String)) (text : String) :
    ledgerText? (entries ++ [(key, text)]) key =
      some ((ledgerText? entries key).getD "" ++ text) := by
  have hfilter : (entries ++ [(key, text)]).filter (·.1 = key) =
      entries.filter (·.1 = key) ++ [(key, text)] := by
    simp [List.filter_append]
  unfold ledgerText?
  rw [hfilter]
  cases entries.filter (·.1 = key) with
  | nil => simp [String.join]
  | cons e es => simp [String.join, List.foldl_append]

def placed (name : String) (entries : List (Path × String)) : List (Path × String) :=
  entries.map fun e => (e.1.joinText name, e.2)

theorem ledgerText?_placed {entries : List (Path × String)} {directory : Path}
    (h : ∀ e ∈ entries, e.1.joinText name = directory.joinText name → e.1 = directory) :
    ledgerText? (placed name entries) (directory.joinText name) =
      ledgerText? entries directory := by
  have hfilter : (placed name entries).filter (·.1 = directory.joinText name) =
      placed name (entries.filter (·.1 = directory)) := by
    rw [placed, placed, List.filter_map]
    congr 1
    refine List.filter_congr fun e he => ?_
    simp only [Function.comp_apply, decide_eq_decide]
    exact ⟨h e he, congrArg fun d : Path => d.joinText name⟩
  unfold ledgerText?
  rw [hfilter]
  cases entries.filter (·.1 = directory) with
  | nil => rfl
  | cons e es => simp [placed, Function.comp_def]

/-- The ledgers hold what was entered into them, and they are files if they are there. -/
structure Recorded (paths : List Path) (entries : List (Path × String)) (fs : FileSystem) : Prop where
  texts : ∀ p ∈ paths, fs.fileAt? p = (ledgerText? entries p).map String.toUTF8
  plain : ∀ p ∈ paths, ∀ zeros, fs.entry? p ≠ some (.device zeros)

theorem Recorded.of_kept {paths : List Path} {entries : List (Path × String)}
    {fs fs' : FileSystem} (h : Recorded paths entries fs)
    (he : ∀ p ∈ paths, fs'.entry? p = fs.entry? p) : Recorded paths entries fs' where
  texts p hp := by
    rw [FileSystem.fileAt?_congr (he p hp)]
    exact h.texts p hp
  plain p hp := by
    rw [he p hp]
    exact h.plain p hp

theorem Recorded.append {paths : List Path} {entries : List (Path × String)} {fs fs' : FileSystem}
    (h : Recorded paths entries fs) {p : Path} (hp : p ∈ paths)
    (hapart : ∀ q ∈ paths, (fs.locate? p).isSome = true → fs.locate? p = fs.locate? q → p = q)
    {text : String} (ha : fs.append? p text.toUTF8 = some fs') :
    Recorded paths (entries ++ [(p, text)]) fs' := by
  obtain ⟨-, hself, hother⟩ := FileSystem.append?_eq_some ha (h.plain p hp)
  obtain ⟨l, -, hl, -, -⟩ := FileSystem.write?_eq_some ha (h.plain p hp)
  have hkept : ∀ q ∈ paths, q ≠ p → fs'.entry? q = fs.entry? q := by
    intro q hq hne
    exact hother q fun hsame => hne (hapart q hq (by rw [hl]; rfl) hsame.symm).symm
  constructor
  · intro q hq
    by_cases hqp : q = p
    · subst hqp
      rw [hself, h.texts q hq, ledgerText?_concat_self]
      cases ledgerText? entries q with
      | none => simp
      | some old => simp [String.toByteArray_append]
    · rw [FileSystem.fileAt?_congr (hkept q hq hqp), ledgerText?_concat_of_ne hqp]
      exact h.texts q hq
  · intro q hq zeros he
    by_cases hqp : q = p
    · subst hqp
      obtain ⟨x, hfile⟩ := FileSystem.fileAt?_eq_some_iff.mp hself
      cases he.symm.trans hfile
    · rw [hkept q hq hqp] at he
      exact h.plain q hq zeros he

/-- What is done before the ledger is opened leaves the ledgers alone, and none of them is the same
file as another. -/
structure Turn.Quiet (tools : Tools) (vars : Variables Handle) (paths : List Path) (turn : Turn) :
    Prop where
  untouched : ∀ p ∈ paths, FileSystem.entry? (turn.readied tools vars) p = turn.machine.files.entry? p
  apart : ∀ p ∈ paths, ∀ q ∈ paths, ((turn.readied tools vars).locate? p).isSome = true →
    (turn.readied tools vars).locate? p = (turn.readied tools vars).locate? q → p = q

instance (paths : List Path) (turn : Turn) : Decidable (turn.Quiet tools vars paths) :=
  decidable_of_iff
    ((∀ p ∈ paths, FileSystem.entry? (turn.readied tools vars) p = turn.machine.files.entry? p) ∧
      ∀ p ∈ paths, ∀ q ∈ paths, ((turn.readied tools vars).locate? p).isSome = true →
        (turn.readied tools vars).locate? p = (turn.readied tools vars).locate? q → p = q)
    ⟨fun h => ⟨h.1, h.2⟩, fun h => ⟨h.untouched, h.apart⟩⟩

/-- After a run the ledgers hold what they held before and the entries of the turns that ended
well. -/
theorem Runs.recorded {paths : List Path} {ledger : Ledger} {machine : Machine}
    {sites : List RepoSite} {turns : List Turn} {result : Except RunError Ledger × Machine}
    (h : Runs tools vars name ledger machine sites turns result)
    (hsites : ∀ site ∈ sites, site.base.joinText name ∈ paths)
    (hq : ∀ turn ∈ turns, turn.Quiet tools vars paths)
    {entries : List (Path × String)} (hr : Recorded paths entries machine.files) :
    Recorded paths (entries ++ placed name (turns.filterMap (Turn.addition? tools vars name)))
      result.2.files := by
  induction h generalizing entries with
  | finished ledger machine => simpa [placed] using hr
  | @failed turn e hm sites =>
    have hprepared := hr.of_kept (hq turn List.mem_cons_self).untouched
    simpa [placed, Turn.addition?, Turn.readied, hm] using hprepared
  | @done turn manifest machine sites turns result hm happend rest ih =>
    have hturn := hq turn List.mem_cons_self
    have hp : turn.path name ∈ paths := hsites turn.site List.mem_cons_self
    have hfirst := (hr.of_kept hturn.untouched).append hp (hturn.apart _ hp) happend
    have hrest := ih (fun site hs => hsites site (List.mem_cons_of_mem _ hs))
      (fun k hk => hq k (List.mem_cons_of_mem _ hk)) hfirst
    simpa [placed, Turn.addition?, Turn.path, hm] using hrest

/-! ## Old ledgers -/

theorem removeLedger_eq_ok {p : Path} {m m' : Machine} (h : (removeLedger p).run m = (.ok (), m')) :
    m'.files.fileAt? p = none ∧
      ∀ q, m.files.fileAt? q = none → m'.files.fileAt? q = none := by
  rw [removeLedger, run_bind, run_files] at h
  dsimp only at h
  split at h
  · rw [run_store] at h
    cases hr : m.files.removeFile? p with
    | none =>
      rw [hr] at h
      cases h
    | some fs =>
      rw [hr] at h
      cases h
      obtain ⟨hself, hother⟩ := FileSystem.removeFile?_eq_some hr
      refine ⟨hself, fun q hq => ?_⟩
      rw [Option.eq_none_iff_forall_ne_some] at hq ⊢
      exact fun content hf => hq content (hother q content hf)
  · next hfile =>
    cases h
    refine ⟨?_, fun q hq => hq⟩
    rw [FileSystem.isFile_iff] at hfile
    simpa using hfile

theorem fileAt?_of_removed {paths : List Path} {m m' : Machine}
    (h : (paths.forM removeLedger).run m = (.ok (), m')) :
    (∀ p ∈ paths, m'.files.fileAt? p = none) ∧
      ∀ q, m.files.fileAt? q = none → m'.files.fileAt? q = none := by
  induction paths generalizing m with
  | nil =>
    cases h
    exact ⟨by rintro p ⟨⟩, fun q hq => hq⟩
  | cons p paths ih =>
    rw [List.forM_eq_forM, List.forM_cons, run_bind] at h
    cases hfirst : (removeLedger p).run m with
    | mk result m₁ =>
      rw [hfirst] at h
      cases result with
      | error e => cases h
      | ok u =>
        obtain ⟨hself, hkept⟩ := removeLedger_eq_ok hfirst
        obtain ⟨hrest, hlater⟩ := ih h
        refine ⟨fun q hq => ?_, fun q hq => hlater q (hkept q hq)⟩
        rcases List.mem_cons.mp hq with rfl | hq
        · exact hlater q hself
        · exact hrest q hq

end Turns

end Package

end MakeConfig
