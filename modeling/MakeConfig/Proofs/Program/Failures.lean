import MakeConfig.Program.Run
import MakeConfig.Proofs.Lists
import MakeConfig.Proofs.Package.Turns
import MakeConfig.Proofs.Tree.Reachable

/-! # Outputs of runs that fail

At the end of a run the entries are generated before a file is opened, and recipes are looked for when
the configuration file is open already. So a run that cannot generate an entry leaves everything as
it was, and a run that misses a recipe leaves a configuration file that ends after the variables.
-/

namespace MakeConfig

namespace Machine.Task

variable {ε δ α : Type}

theorem run_ofExcept (failure : δ → ε) (x : Except δ α) (m : Machine) :
    (ofExcept failure x).run m = (x.mapError failure, m) := by
  cases x <;> rfl

end Machine.Task

namespace Tree

variable {t : Tree} {files : FileSystem} {e : Error}

theorem recipePaths_eq_error_iff :
    t.recipePaths files = .error e ↔ ∃ front recipe rest, t.recipes = front ++ recipe :: rest ∧
      (∀ r ∈ front, files.isFile (r.path.pathIn t.vars) = true) ∧
      files.isFile (recipe.path.pathIn t.vars) = false ∧
      e = .fileNotFound (recipe.path.pathIn t.vars) := by
  have hok : ∀ recipe : Recipe, (∃ path, (if files.isFile (recipe.path.pathIn t.vars) then
      Except.ok (recipe.path.pathIn t.vars) else .error (.fileNotFound (recipe.path.pathIn t.vars))) =
        (Except.ok path : Except Error Path)) ↔ files.isFile (recipe.path.pathIn t.vars) = true := by
    intro recipe
    split <;> simp_all
  have herror : ∀ recipe : Recipe, (if files.isFile (recipe.path.pathIn t.vars) then
      Except.ok (recipe.path.pathIn t.vars) else .error (.fileNotFound (recipe.path.pathIn t.vars))) =
        (Except.error e : Except Error Path) ↔ files.isFile (recipe.path.pathIn t.vars) = false ∧
          e = .fileNotFound (recipe.path.pathIn t.vars) := by
    intro recipe
    cases files.isFile (recipe.path.pathIn t.vars) with
    | true => simp
    | false => simpa using eq_comm
  simp only [recipePaths, mapM_eq_error_iff, hok, herror]

end Tree

namespace Program

open Machine.Task

variable {outside : Outside} {context : Context} {outputs : Outputs} {t : Tree} {m m' : Machine}
  {e : Error}

theorem run_writeOutput (path : Path) (text : FileSystem → String × Except Error Unit)
    (m : Machine) : (writeOutput path text).run m =
      match m.files.write? path ByteArray.empty with
      | none => (.error .io, m)
      | some opened =>
        match opened.write? path (text opened).1.toUTF8 with
        | none => (.error .io, { m with files := opened })
        | some filled => ((text opened).2.mapError .engine, { m with files := filled }) := by
  rw [writeOutput, run_bind, run_store]
  cases m.files.write? path ByteArray.empty with
  | none => rfl
  | some opened =>
    dsimp only
    rw [run_bind, run_files]
    dsimp only
    rw [run_bind, run_store]
    cases opened.write? path (text opened).1.toUTF8 with
    | none => rfl
    | some filled => exact run_ofExcept _ _ _

/-- The text of a configuration file up to the recipes. -/
def variablesText (t : Tree) : String :=
  String.join (t.vars.values.entries.map Artifact.variableLine)

theorem config_of_missing {files : FileSystem} (h : t.recipePaths files = .error e)
    (generated : List (String × String)) :
    Artifact.config files t generated = (variablesText t, .error e) := by
  simp only [Artifact.config, h, variablesText]

theorem config_of_found {files : FileSystem} {paths : List Path} (h : t.recipePaths files = .ok paths)
    (generated : List (String × String)) : (Artifact.config files t generated).2 = .ok () := by
  simp only [Artifact.config, h]

/-! ## The end of a run -/

def ending (outputs : Outputs) (generated : List (String × String)) : Machine.Task RunError Unit := do
  writeOutput outputs.header fun _ => (Artifact.header generated, .ok ())
  print (summary outputs)

theorem run_ending_ne (outputs : Outputs) (generated : List (String × String)) (m m' : Machine)
    (e : Error) : (ending outputs generated).run m ≠ (.error (.engine e), m') := by
  rw [ending, run_bind, run_writeOutput]
  cases m.files.write? outputs.header ByteArray.empty with
  | none => rintro ⟨⟩
  | some opened =>
    dsimp only
    cases opened.write? outputs.header (Artifact.header generated).toUTF8 with
    | none => rintro ⟨⟩
    | some filled => rintro ⟨⟩

theorem run_finish (hr : context.reposEnabled = false) (m : Machine) :
    (finish outside context outputs t).run m = match outside.generated t with
      | .error e => (.error (.engine e), m)
      | .ok generated =>
        match (writeOutput outputs.config fun fs => Artifact.config fs t generated).run m with
        | (.ok _, m') => (ending outputs generated).run m'
        | (.error e, m') => (.error e, m') := by
  have hfinish : finish outside context outputs t =
      ofExcept .engine (outside.generated t) >>= fun generated =>
        (writeOutput outputs.config fun fs => Artifact.config fs t generated) >>= fun _ =>
          ending outputs generated := by
    simp [finish, hr, ending]
  rw [hfinish, run_bind, run_ofExcept]
  cases outside.generated t with
  | error e => rfl
  | ok generated =>
    dsimp only [Except.mapError]
    rw [run_bind]
    rcases (writeOutput outputs.config fun fs => Artifact.config fs t generated).run m with ⟨r, m'⟩
    cases r <;> rfl

/-- How the end of a run fails for the sake of its tree, and the machine that it leaves. -/
inductive Fails (outside : Outside) (outputs : Outputs) (t : Tree) (m : Machine) :
    Error → Machine → Prop where
  | ungenerated {e : Error} : outside.generated t = .error e → Fails outside outputs t m e m
  | missing {generated : List (String × String)} {opened filled : FileSystem}
      {front rest : List Recipe} {recipe : Recipe} :
      outside.generated t = .ok generated →
      m.files.write? outputs.config ByteArray.empty = some opened →
      t.recipes = front ++ recipe :: rest →
      (∀ r ∈ front, opened.isFile (r.path.pathIn t.vars) = true) →
      opened.isFile (recipe.path.pathIn t.vars) = false →
      opened.write? outputs.config (variablesText t).toUTF8 = some filled →
      Fails outside outputs t m (.fileNotFound (recipe.path.pathIn t.vars))
        { m with files := filled }

theorem run_finish_eq_error_iff (hr : context.reposEnabled = false) :
    (finish outside context outputs t).run m = (.error (.engine e), m') ↔
      Fails outside outputs t m e m' := by
  rw [run_finish hr]
  constructor
  · intro h
    cases hg : outside.generated t with
    | error e' =>
      rw [hg] at h
      cases h
      exact .ungenerated hg
    | ok generated =>
      rw [hg] at h
      dsimp only at h
      rw [run_writeOutput] at h
      cases ho : m.files.write? outputs.config ByteArray.empty with
      | none =>
        rw [ho] at h
        cases h
      | some opened =>
        rw [ho] at h
        cases hp : t.recipePaths opened with
        | ok paths =>
          dsimp only at h
          cases hw : opened.write? outputs.config
              (Artifact.config opened t generated).1.toUTF8 with
          | none =>
            rw [hw] at h
            cases h
          | some filled =>
            rw [hw, config_of_found hp] at h
            exact absurd h (run_ending_ne _ _ _ _ _)
        | error e' =>
          dsimp only at h
          rw [config_of_missing hp generated] at h
          cases hw : opened.write? outputs.config (variablesText t).toUTF8 with
          | none =>
            rw [hw] at h
            cases h
          | some filled =>
            rw [hw] at h
            cases h
            obtain ⟨front, recipe, rest, hrecipes, hfront, hmissing, rfl⟩ :=
              Tree.recipePaths_eq_error_iff.mp hp
            exact .missing hg ho hrecipes hfront hmissing hw
  · rintro (hg | ⟨hg, ho, hrecipes, hfront, hmissing, hw⟩)
    · rw [hg]
    · have hp := Tree.recipePaths_eq_error_iff.mpr ⟨_, _, _, hrecipes, hfront, hmissing, rfl⟩
      rw [hg]
      dsimp only
      rw [run_writeOutput, ho]
      dsimp only
      rw [config_of_missing hp, hw]
      rfl

theorem exists_fails_of_missing {generated : List (String × String)} {opened : FileSystem}
    (hg : outside.generated t = .ok generated)
    (ho : m.files.write? outputs.config ByteArray.empty = some opened)
    (hp : t.recipePaths opened = .error e) : ∃ m', Fails outside outputs t m e m' := by
  obtain ⟨front, recipe, rest, hrecipes, hfront, hmissing, rfl⟩ :=
    Tree.recipePaths_eq_error_iff.mp hp
  obtain ⟨filled, hw⟩ := FileSystem.exists_write?_again ho (variablesText t).toUTF8
  exact ⟨_, .missing hg ho hrecipes hfront hmissing hw⟩

/-- No more than the file for the configuration is touched, and it is touched only if it was opened. -/
theorem Fails.files (h : Fails outside outputs t m e m') :
    m'.files = m.files ∧ ((∃ e', outside.generated t = .error e') ∨
        ∃ zeros, m.files.entry? outputs.config = some (.device zeros)) ∨
      m.files.Filled m'.files outputs.config (variablesText t).toUTF8 ∧
        (∃ generated, outside.generated t = .ok generated) ∧
        ∀ zeros, m.files.entry? outputs.config ≠ some (.device zeros) := by
  cases h with
  | ungenerated hg => exact .inl ⟨rfl, .inl ⟨e, hg⟩⟩
  | @missing generated opened filled _ _ _ hg ho _ _ _ hw =>
    by_cases hd : ∃ zeros, m.files.entry? outputs.config = some (.device zeros)
    · obtain ⟨zeros, hz⟩ := hd
      obtain rfl : m.files = opened :=
        Option.some.inj ((FileSystem.write?_device hz _).symm.trans ho)
      obtain rfl : m.files = filled :=
        Option.some.inj ((FileSystem.write?_device hz _).symm.trans hw)
      exact .inl ⟨rfl, .inr ⟨zeros, hz⟩⟩
    · have hopened := FileSystem.filled_of_write? ho (not_exists.mp hd)
      obtain ⟨x, hx⟩ := FileSystem.fileAt?_eq_some_iff.mp hopened.there
      have hfilled := FileSystem.filled_of_write? hw (by simp [hx])
      exact .inr ⟨hopened.trans hfilled, ⟨generated, hg⟩, not_exists.mp hd⟩

/-- What is left of the outputs when the end of a run has failed: nothing but the configuration file is
touched, which ends after the variables if it is. -/
structure Left (outside : Outside) (outputs : Outputs) (t : Tree) (m m' : Machine) : Prop where
  printed : m'.output = m.output
  ways : ∀ q, m'.files.locate? q = m.files.locate? q
  others : ∀ q, m.files.locate? q ≠ m.files.locate? outputs.config →
    m'.files.entry? q = m.files.entry? q
  config : (∃ generated, outside.generated t = .ok generated) →
    (∀ zeros, m.files.entry? outputs.config ≠ some (.device zeros)) →
      m'.files.fileAt? outputs.config = some (variablesText t).toUTF8
  kept_iff : (m'.files.fileAt? outputs.config = m.files.fileAt? outputs.config ∧
      m'.files.fileAt? outputs.header = m.files.fileAt? outputs.header) ↔
    (∃ e, outside.generated t = .error e) ∨
      (∃ zeros, m.files.entry? outputs.config = some (.device zeros)) ∨
      m.files.fileAt? outputs.config = some (variablesText t).toUTF8

theorem Fails.left (h : Fails outside outputs t m e m') : Left outside outputs t m m' := by
  have hprinted : m'.output = m.output := by
    cases h with
    | ungenerated | missing => rfl
  rcases h.files with ⟨hsame, hwhy⟩ | ⟨hfilled, ⟨generated, hg⟩, hd⟩
  · refine ⟨hprinted, fun _ => by rw [hsame], fun _ _ => by rw [hsame], ?_, ?_⟩
    · rintro ⟨generated, hg⟩ hd
      rcases hwhy with ⟨e', he'⟩ | ⟨zeros, hz⟩
      · cases hg.symm.trans he'
      · exact absurd hz (hd zeros)
    · rw [hsame]
      exact iff_of_true ⟨rfl, rfl⟩ (hwhy.imp_right .inl)
  · refine ⟨hprinted, hfilled.ways, hfilled.others, fun _ _ => hfilled.there, ?_, ?_⟩
    · rintro ⟨hconfig, -⟩
      exact .inr (.inr (hconfig ▸ hfilled.there))
    · rintro (⟨e', he'⟩ | ⟨zeros, hz⟩ | hheld)
      · cases hg.symm.trans he'
      · exact absurd hz (hd zeros)
      · exact ⟨hfilled.fileAt?_eq hheld _, hfilled.fileAt?_eq hheld _⟩

/-! ## Outputs -/

namespace Unfound

def schemaText : String :=
  "\x7b\"A\":\x7b\"type\":\"bool\",\"default\":\"y\",\"force\":true\x7d," ++
  "\"r\":\x7b\"type\":\"recipe\",\"path\":\"missing.mk\"\x7d\x7d"

def start : Machine where
  files := ⟨⟨"/"⟩, [(["config.json"], .file schemaText.toUTF8 false),
    ([".config"], .file "CONFIG_A=n\n\nDEF+=\n".toUTF8 false),
    (["autogen.h"], .file "old\n".toUTF8 false)]⟩
  output := ""

def world : Outside := ⟨⟨[], .checked⟩, ⟨0, fun _ => 0⟩, localTools ⟨[], .checked⟩⟩

def setup : Context := ⟨Settings.usual, ⟨"/"⟩, true⟩

def places : Outputs := setup.outputs none none

def configured : Option (Except Error Unit × Session Unit) :=
  Session.configure ⟨start.files, world.environment⟩ Dialog.defaults 2 Tree.root
    ⟨.plant "config.json" ⟨"/"⟩, ()⟩

def ended (t : Tree) : Except RunError Unit × Machine :=
  (finish world setup places t).run start

def stopsWith (t : Tree) (text : String) : Bool :=
  match ended t with
  | (.error (.engine (.fileNotFound path)), m') =>
    decide (path = ⟨"/missing.mk"⟩ ∧
      m'.files.entry? places.config = some (.file text.toUTF8 false))
  | _ => false

theorem stopsWith_iff {t : Tree} {text : String} : stopsWith t text = true ↔
    ∃ m', ended t = (.error (.engine (.fileNotFound ⟨"/missing.mk"⟩)), m') ∧
      m'.files.entry? places.config = some (.file text.toUTF8 false) := by
  unfold stopsWith
  split <;> simp_all

end Unfound

/-- The end of a run fails for the sake of its tree exactly if an entry cannot be generated or a recipe
is missing. The outputs are as before if it is an entry, and for want of a recipe the configuration file
ends after the variables. A recipe that is missing when this file is open always makes the run fail. -/
theorem outputs_after_failure (hr : context.reposEnabled = false) :
    ((finish outside context outputs t).run m = (.error (.engine e), m') ↔
      Fails outside outputs t m e m') ∧
    (Fails outside outputs t m e m' → Left outside outputs t m m') ∧
    ∀ generated opened, outside.generated t = .ok generated →
      m.files.write? outputs.config ByteArray.empty = some opened →
        t.recipePaths opened = .error e → ∃ m', Fails outside outputs t m e m' :=
  ⟨run_finish_eq_error_iff hr, Fails.left, fun _ _ => exists_fails_of_missing⟩

theorem outputs_after_failure_missing :
    ∃ t m', Unfound.configured = some (.ok (), ⟨t, ()⟩) ∧
      Unfound.setup.reposEnabled = false ∧
      Unfound.ended t = (.error (.engine (.fileNotFound ⟨"/missing.mk"⟩)), m') ∧
      m'.files.fileAt? Unfound.places.config = some "CONFIG_A=y\n".toUTF8 ∧
      m'.files.fileAt? Unfound.places.header = some "old\n".toUTF8 := by
  have hrun : Session.endsIn (fun s => Unfound.stopsWith s.tree "CONFIG_A=y\n" &&
      (Unfound.world.generated s.tree).toOption.isSome &&
      decide (variablesText s.tree = "CONFIG_A=y\n")) Unfound.configured = true := by
    decide +kernel
  obtain ⟨t, ⟨⟩, ht, hend⟩ := Session.endsIn_iff.mp hrun
  simp only [Bool.and_eq_true, decide_eq_true_eq, Option.isSome_iff_exists,
    FileSystem.toOption_eq_some_iff] at hend
  obtain ⟨⟨hstops, hgenerated⟩, htext⟩ := hend
  obtain ⟨m', hm', -⟩ := Unfound.stopsWith_iff.mp hstops
  have hplace : Unfound.start.files.entry? Unfound.places.config =
      some (.file "CONFIG_A=n\n\nDEF+=\n".toUTF8 false) := by
    decide +kernel
  have hrepos : Unfound.setup.reposEnabled = false := rfl
  obtain ⟨hfails, hleft, -⟩ := outputs_after_failure hrepos
  have hleft := hleft (hfails.mp hm')
  refine ⟨t, m', ht, hrepos, hm', ?_, ?_⟩
  · rw [← htext]
    exact hleft.config hgenerated (by simp [hplace])
  · have hheader := hleft.others Unfound.places.header (by decide +kernel)
    rw [FileSystem.fileAt?_congr hheader]
    decide +kernel

/-- A tree is configured, and one recipe of it has no file: the configuration file holds the
variables and nothing else when the run has failed. -/
theorem config_lost_missing :
    ∃ t m', Unfound.configured = some (.ok (), ⟨t, ()⟩) ∧
      Unfound.setup.reposEnabled = false ∧
      (finish Unfound.world Unfound.setup Unfound.places t).run Unfound.start =
        (.error (.engine (.fileNotFound ⟨"/missing.mk"⟩)), m') ∧
      m'.files.fileAt? Unfound.places.config ≠ Unfound.start.files.fileAt? Unfound.places.config := by
  have hrun : Session.endsIn (fun s => Unfound.stopsWith s.tree "CONFIG_A=y\n")
      Unfound.configured = true := by
    decide +kernel
  obtain ⟨t, ⟨⟩, ht, hend⟩ := Session.endsIn_iff.mp hrun
  obtain ⟨m', hm', hconfig⟩ := Unfound.stopsWith_iff.mp hend
  refine ⟨t, m', ht, rfl, hm', ?_⟩
  rw [FileSystem.fileAt?_eq_some_iff.mpr ⟨false, hconfig⟩]
  decide +kernel

end Program

end MakeConfig
