import MakeConfig.Program.Run
import MakeConfig.Proofs.FileSystem.Entries

/-! # Where outputs go

A place that is given to a run comes before the one in its settings file, and that comes before the usual
one. What a settings file says is relative to its own directory, the rest to the directory of the run. But
the usual places are filled in before the paths of a settings file are taken from its directory, so an
output of which this file says nothing goes there as well.
-/

namespace MakeConfig

/-- A settings file by its path, with what it holds. -/
structure SettingsFile where
  path : Path
  document : Toml

namespace SettingsFile

def directory (base : Path) (f : SettingsFile) : Path := base.join (f.path.parent?.getD ⟨""⟩)

structure In (files : FileSystem) (f : SettingsFile) : Prop where
  document : ∃ text, files.text? f.path = some text ∧ Toml.ofText? text = some f.document
  decodable : (Settings.ofToml? f.document).isSome = true

def settings (f : SettingsFile) : Settings :=
  ((Settings.ofToml? f.document).getD Settings.usual).relativeTo (f.path.parent?.getD ⟨""⟩)

theorem isAbsolute_directory {base : Path} (ha : base.isAbsolute = true) (f : SettingsFile) :
    (f.directory base).isAbsolute = true := Path.isAbsolute_join_of_base ha _

end SettingsFile

namespace Settings

/-- The settings file of a run, if it has one: the one that is given, or the one in the directory of the
run. -/
inductive Source (files : FileSystem) : Option Path → Option SettingsFile → Prop
  | given {f : SettingsFile} : f.In files → Source files (some f.path) (some f)
  | found {f : SettingsFile} : f.path = files.workingDirectory.joinText fileName →
      files.isFile f.path = true → f.In files → Source files none (some f)
  | missing : files.isFile (files.workingDirectory.joinText fileName) = false →
      Source files none none

theorem Source.there {files : FileSystem} {given? : Option Path} {f : SettingsFile}
    (h : Source files given? (some f)) : f.In files := by
  cases h with
  | given hf => exact hf
  | found _ _ hf => exact hf

def ofSource : Option SettingsFile → Settings
  | none => usual
  | some f => f.settings

variable {files : FileSystem} {given? : Option Path} {file? : Option SettingsFile} {s : Settings}

theorem relativeTo_empty (s : Settings) : s.relativeTo ⟨""⟩ = s := by
  have hjoin : ∀ p : Path, (⟨""⟩ : Path).join p = p := fun p => by simp [Path.join]
  simp only [relativeTo, hjoin]

theorem load_eq_ok_iff {p : Path} :
    load files p = .ok s ↔ ∃ f : SettingsFile, f.path = p ∧ f.In files ∧ s = f.settings := by
  have hparent : ∀ s : Settings, (p.parent?.map fun base => s.relativeTo base).getD s =
      s.relativeTo (p.parent?.getD ⟨""⟩) := by
    intro s
    cases p.parent? with
    | none => exact s.relativeTo_empty.symm
    | some base => rfl
  unfold load
  simp only [hparent]
  constructor
  · intro h
    split at h
    · cases h
    · next text htext =>
      split at h
      · cases h
      · next s₀ hs =>
        obtain ⟨document, hdocument, hs⟩ := Option.bind_eq_some_iff.mp hs
        cases h
        refine ⟨⟨p, document⟩, rfl, ⟨⟨text, htext, hdocument⟩, by rw [hs]; rfl⟩, ?_⟩
        rw [SettingsFile.settings, hs]
        rfl
  · rintro ⟨f, rfl, ⟨⟨text, htext, hdocument⟩, hdecodable⟩, rfl⟩
    obtain ⟨s₀, hs⟩ := Option.isSome_iff_exists.mp hdecodable
    rw [htext]
    simp only [ofText?, hdocument, Option.bind_some, hs, SettingsFile.settings, Option.getD_some]

theorem discover_eq_ok_iff :
    discover files given? files.workingDirectory = .ok s ↔
      ∃ file?, Source files given? file? ∧ s = ofSource file? := by
  unfold discover
  cases given? with
  | some p =>
    dsimp only
    rw [load_eq_ok_iff]
    constructor
    · rintro ⟨f, rfl, hf, rfl⟩
      exact ⟨some f, .given hf, rfl⟩
    · rintro ⟨_, hsource, rfl⟩
      cases hsource with
      | given hf => exact ⟨_, rfl, hf, rfl⟩
  | none =>
    dsimp only
    split
    · next hfile =>
      rw [load_eq_ok_iff]
      constructor
      · rintro ⟨f, hpath, hf, rfl⟩
        exact ⟨some f, .found hpath (hpath ▸ hfile) hf, rfl⟩
      · rintro ⟨_, hsource, rfl⟩
        cases hsource with
        | found hpath _ hf => exact ⟨_, hpath, hf, rfl⟩
        | missing hnone => cases hfile.symm.trans hnone
    · next hfile =>
      constructor
      · rintro ⟨⟩
        exact ⟨none, .missing (Bool.eq_false_iff.mpr hfile), rfl⟩
      · rintro ⟨_, hsource, rfl⟩
        cases hsource with
        | found hpath hthere _ => exact absurd (hpath ▸ hthere) hfile
        | missing _ => rfl

end Settings

namespace Program

inductive Output where
  | config
  | header

namespace Output

def key : Output → String
  | config => "config"
  | header => "header"

def usualName : Output → String
  | config => ".config"
  | header => "autogen.h"

def setting (s : Settings) : Output → Path
  | config => s.config
  | header => s.header

def place (places : Outputs) : Output → Path
  | config => places.config
  | header => places.header

def written? (o : Output) (document : Toml) : Option Path := do
  let sections ← Settings.fieldsOf? ["output", "repos"] (some document)
  let fields ← Settings.fieldsOf? ["config", "header", "ledger"] (sections.lookup "output")
  let value ← fields.lookup o.key
  value.string?.map Path.mk

/-- Where an output belongs: at the place given to the run, else at the one in the settings file, taken
from the directory of that file, else at the usual one in the directory of the run. -/
def expected (base : Path) (file? : Option SettingsFile) (flag? : Option Path) (o : Output) : Path :=
  match flag?, file? with
  | some path, _ => base.join path
  | none, none => base.join ⟨o.usualName⟩
  | none, some f =>
    match o.written? f.document with
    | some path => (f.directory base).join path
    | none => base.join ⟨o.usualName⟩

theorem isName_usualName (o : Output) : Path.IsName o.usualName := by
  cases o <;> decide

theorem setting_usual (o : Output) : o.setting Settings.usual = ⟨o.usualName⟩ := by
  cases o <;> rfl

theorem setting_relativeTo (o : Output) (base : Path) (s : Settings) :
    o.setting (s.relativeTo base) = base.join (o.setting s) := by
  cases o <;> rfl

theorem fieldOr?_string {fields : List (String × Toml)} {name : String} {usual p : Path}
    (h : fieldOr? fields name usual (fun value => value.string?.map Path.mk) = some p) :
    p = ((fields.lookup name).bind fun value => value.string?.map Path.mk).getD usual := by
  unfold fieldOr? at h
  cases hl : fields.lookup name with
  | none =>
    rw [hl] at h
    cases h
    rfl
  | some value =>
    rw [hl] at h
    simp only [Option.bind_some, h, Option.getD_some]

theorem setting_of_ofToml? {document : Toml} {s : Settings} (h : Settings.ofToml? document = some s)
    (o : Output) : o.setting s = (o.written? document).getD ⟨o.usualName⟩ := by
  unfold Settings.ofToml? at h
  obtain ⟨sections, hsections, h⟩ := Option.bind_eq_some_iff.mp h
  obtain ⟨output, houtput, h⟩ := Option.bind_eq_some_iff.mp h
  obtain ⟨repos, -, h⟩ := Option.bind_eq_some_iff.mp h
  obtain ⟨config, hconfig, h⟩ := Option.bind_eq_some_iff.mp h
  obtain ⟨header, hheader, h⟩ := Option.bind_eq_some_iff.mp h
  obtain ⟨ledger, -, h⟩ := Option.bind_eq_some_iff.mp h
  obtain ⟨enabled, -, h⟩ := Option.bind_eq_some_iff.mp h
  obtain ⟨clean, -, h⟩ := Option.bind_eq_some_iff.mp h
  cases h
  have hwritten : o.written? document =
      (output.lookup o.key).bind fun value => value.string?.map Path.mk := by
    simp only [written?, hsections, houtput, bind, Option.bind_some]
  rw [hwritten]
  cases o with
  | config => exact fieldOr?_string hconfig
  | header => exact fieldOr?_string hheader

/-- An output of which neither the run nor its settings file says anything. -/
structure Unsaid (file? : Option SettingsFile) (flag? : Option Path) (o : Output)
    (f : SettingsFile) : Prop where
  file : file? = some f
  flag : flag? = none
  document : o.written? f.document = none

/-- What is known of the place of an output. It is the expected one, but for an output of which nothing
is said although there is a settings file: that goes to the directory of this file. -/
structure Placed (files : FileSystem) (given? : Option Path) (file? : Option SettingsFile)
    (flag? : Option Path) (o : Output) (place : Path) : Prop where
  said : (∀ f, ¬ Unsaid file? flag? o f) →
    place = o.expected files.workingDirectory file? flag?
  unsaid : ∀ f, Unsaid file? flag? o f →
    place = (f.directory files.workingDirectory).joinText o.usualName
  found : given? = none → place.same (o.expected files.workingDirectory file? flag?) = true
  entry_iff : files.isDirectory files.workingDirectory = true →
    FileSystem.Passable place →
    FileSystem.Passable (o.expected files.workingDirectory file? flag?) →
      (files.resolveTo false place =
          files.resolveTo false (o.expected files.workingDirectory file? flag?) ↔
        ∀ f, Unsaid file? flag? o f → files.locate? (f.directory files.workingDirectory) =
          files.locate? files.workingDirectory)

variable {files : FileSystem} {given? flag? : Option Path} {file? : Option SettingsFile}
  {o : Output} {f : SettingsFile}

theorem expected_of_unsaid {base : Path} (h : Unsaid file? flag? o f) :
    o.expected base file? flag? = base.joinText o.usualName := by
  obtain ⟨rfl, rfl, hd⟩ := h
  simp only [expected, hd, Path.joinText]

theorem setting_settings (hf : f.In files) (base : Path) (o : Output) :
    base.join (o.setting f.settings) =
      (f.directory base).join ((o.written? f.document).getD ⟨o.usualName⟩) := by
  obtain ⟨s, hs⟩ := Option.isSome_iff_exists.mp hf.decodable
  rw [SettingsFile.settings, setting_relativeTo, hs, Option.getD_some, setting_of_ofToml? hs,
    SettingsFile.directory, Path.join_assoc]

theorem components_directory_of_found (ha : files.workingDirectory.isAbsolute = true)
    (h : Settings.Source files none (some f)) :
    (f.directory files.workingDirectory).components = files.workingDirectory.components := by
  cases h with
  | found hpath _ _ =>
    have hn : Path.IsName Settings.fileName := by decide
    obtain ⟨d, hparent, habs, hcomponents⟩ := Path.exists_parent_joinText ha hn
    rw [SettingsFile.directory, hpath, hparent, Option.getD_some, Path.join_of_isAbsolute habs,
      hcomponents]

section Places

variable (ha : files.workingDirectory.isAbsolute = true) (h : Settings.Source files given? file?)

include h

theorem place_of_said (hsaid : ∀ f, ¬ Unsaid file? flag? o f) :
    files.workingDirectory.join (flag?.getD (o.setting (Settings.ofSource file?))) =
      o.expected files.workingDirectory file? flag? := by
  cases flag? with
  | some flag => cases file? <;> rfl
  | none =>
    cases file? with
    | none => rw [Option.getD_none, Settings.ofSource, setting_usual, expected]
    | some f =>
      rw [Option.getD_none, Settings.ofSource, setting_settings h.there]
      cases hw : o.written? f.document with
      | none => exact absurd ⟨rfl, rfl, hw⟩ (hsaid f)
      | some path => simp only [expected, hw, Option.getD_some]

theorem place_of_unsaid (hu : Unsaid file? flag? o f) :
    files.workingDirectory.join (flag?.getD (o.setting (Settings.ofSource file?))) =
      (f.directory files.workingDirectory).joinText o.usualName := by
  obtain ⟨rfl, rfl, hd⟩ := hu
  rw [Option.getD_none, Settings.ofSource, setting_settings h.there, hd, Option.getD_none,
    Path.joinText]

include ha

theorem same_of_unsaid (hu : Unsaid file? flag? o f) (hg : given? = none) :
    ((f.directory files.workingDirectory).joinText o.usualName).same
      (files.workingDirectory.joinText o.usualName) = true := by
  subst hg
  have hcomponents := components_directory_of_found ha (hu.file ▸ h)
  have hd := f.isAbsolute_directory ha
  rw [Path.same, beq_iff_eq, Path.components_joinText hd o.isName_usualName,
    Path.components_joinText ha o.isName_usualName, hcomponents]

theorem holds_of_source (f : SettingsFile) (hf : file? = some f) :
    files.Holds (f.directory files.workingDirectory) f.path := by
  subst hf
  obtain ⟨text, htext, -⟩ := h.there.document
  obtain ⟨d, hparent, hholds⟩ := FileSystem.holds_parent ha htext
  rwa [SettingsFile.directory, hparent]

theorem entry_iff_of_unsaid (hu : Unsaid file? flag? o f)
    (hw : files.isDirectory files.workingDirectory = true)
    (hplace : FileSystem.Passable ((f.directory files.workingDirectory).joinText o.usualName))
    (hexpected : FileSystem.Passable (files.workingDirectory.joinText o.usualName)) :
    files.resolveTo false ((f.directory files.workingDirectory).joinText o.usualName) =
        files.resolveTo false (files.workingDirectory.joinText o.usualName) ↔
      files.locate? (f.directory files.workingDirectory) =
        files.locate? files.workingDirectory := by
  have hn := o.isName_usualName
  have hshort : o.usualName.utf8ByteSize ≤ FileSystem.maxNameLength := by cases o <;> decide
  have hd := f.isAbsolute_directory ha
  obtain ⟨l, m, hwalk, hl, -⟩ := holds_of_source ha h f hu.file
  rw [Path.join_of_isAbsolute hd] at hwalk
  obtain ⟨k, hk, hentry⟩ := FileSystem.isDirectory_iff.mp hw
  obtain ⟨-, hwalk', -⟩ := FileSystem.resolveTo_eq_ok_iff.mp (FileSystem.toOption_eq_some_iff.mp hk)
  rw [Bool.true_or, Path.join_of_isAbsolute ha] at hwalk'
  have hk' := FileSystem.barrierAt?_eq_none_iff.mpr hentry
  rw [FileSystem.resolveTo_joinText hd hn hplace hwalk ⟨hl, hshort⟩,
    FileSystem.resolveTo_joinText ha hn hexpected hwalk' ⟨hk', hshort⟩,
    FileSystem.locate?_of_walk hd (FileSystem.passable_of_joinText hd hn hplace) hwalk hl, hk]
  simp

theorem placed_of_source (flag? : Option Path) (o : Output) :
    Placed files given? file? flag? o
      (files.workingDirectory.join (flag?.getD (o.setting (Settings.ofSource file?)))) := by
  constructor
  case said => exact place_of_said h
  case unsaid => exact fun f hu => place_of_unsaid h hu
  case found =>
    intro hg
    by_cases hu : ∃ f, Unsaid file? flag? o f
    · obtain ⟨f, hu⟩ := hu
      rw [place_of_unsaid h hu, expected_of_unsaid hu]
      exact same_of_unsaid ha h hu hg
    · rw [place_of_said h (not_exists.mp hu)]
      exact beq_self_eq_true _
  case entry_iff =>
    intro hw hplace hexpected
    by_cases hu : ∃ f, Unsaid file? flag? o f
    · obtain ⟨f, hu⟩ := hu
      rw [place_of_unsaid h hu] at hplace ⊢
      rw [expected_of_unsaid hu] at hexpected ⊢
      rw [entry_iff_of_unsaid ha h hu hw hplace hexpected]
      constructor
      · rintro he f' hu'
        obtain rfl := Option.some.inj (hu.file.symm.trans hu'.file)
        exact he
      · exact fun he => he f hu
    · rw [place_of_said h (not_exists.mp hu)]
      exact iff_of_true rfl fun f hf => absurd ⟨f, hf⟩ hu

end Places

end Output

namespace Below

def text : String := "[output]\nconfig = \"build/.config\"\n"

def files (text : String) : FileSystem where
  workingDirectory := ⟨"/w"⟩
  entries := [(["w"], .directory), (["w", "sub"], .directory),
    (["w", "sub", "s.toml"], .file text.toUTF8 false)]

def settingsFile (text : String) : SettingsFile where
  path := ⟨"sub/s.toml"⟩
  document := (Toml.ofText? text).getD (.table [])

theorem in_files {text : String} (hread : (files text).text? ⟨"sub/s.toml"⟩ = some text)
    (hs : (Settings.ofText? text).isSome = true) : (settingsFile text).In (files text) := by
  obtain ⟨s, hs⟩ := Option.isSome_iff_exists.mp hs
  obtain ⟨document, hdocument, hs⟩ := Option.bind_eq_some_iff.mp hs
  have hheld : (settingsFile text).document = document := by
    rw [settingsFile, hdocument, Option.getD_some]
  exact ⟨⟨text, hread, by rw [hheld, hdocument]⟩, by rw [hheld, hs]; rfl⟩

theorem in_files_text : (settingsFile text).In (files text) :=
  in_files (by decide +kernel) (by decide +kernel)

theorem in_files_empty : (settingsFile "").In (files "") :=
  in_files (by decide +kernel) (by decide +kernel)

end Below

/-- Outputs are placed by the run before the settings file, relative to the directory of the run and of
the file, and without either at their usual places. Only an output that a settings file says nothing of
goes to the directory of this file, which is the expected place exactly if it is the directory of the
run. -/
theorem outputs_placed {files : FileSystem} {given? : Option Path} {file? : Option SettingsFile}
    (ha : files.workingDirectory.isAbsolute = true) (h : Settings.Source files given? file?) :
    ∃ s, Settings.discover files given? files.workingDirectory = .ok s ∧
      (∀ f, file? = some f → files.Holds (f.directory files.workingDirectory) f.path) ∧
      ∀ (skipRepos : Bool) (flag? : Output → Option Path) (o : Output),
        Output.Placed files given? file? (flag? o) o (o.place
          ((⟨s, files.workingDirectory, skipRepos⟩ : Context).outputs (flag? .config)
            (flag? .header))) := by
  refine ⟨_, Settings.discover_eq_ok_iff.mpr ⟨file?, h, rfl⟩, Output.holds_of_source ha h, ?_⟩
  intro skipRepos flag? o
  have hplaced := Output.placed_of_source ha h (flag? o) o
  cases o with
  | config => exact hplaced
  | header => exact hplaced

open Below in
/-- The configuration file goes to the place in the settings file, and the header, of which nothing is
said, to the directory of this file. -/
theorem outputs_placed_below :
    ∃ s, Settings.discover (files text) (some ⟨"sub/s.toml"⟩) ⟨"/w"⟩ = .ok s ∧
      (files text).Holds ⟨"/w/sub"⟩ ⟨"sub/s.toml"⟩ ∧
      ((⟨s, ⟨"/w"⟩, false⟩ : Context).outputs none none).config = ⟨"/w/sub/build/.config"⟩ ∧
      ((⟨s, ⟨"/w"⟩, false⟩ : Context).outputs none none).header = ⟨"/w/sub/autogen.h"⟩ ∧
      (files text).resolveTo false ⟨"/w/sub/autogen.h"⟩ ≠
        (files text).resolveTo false ⟨"/w/autogen.h"⟩ := by
  obtain ⟨s, hs, hholds, hplaced⟩ := outputs_placed (by decide) (.given in_files_text)
  have hdirectory : (settingsFile text).directory (files text).workingDirectory =
      ⟨"/w/sub"⟩ := by decide +kernel
  have hconfig : ((⟨s, ⟨"/w"⟩, false⟩ : Context).outputs none none).config =
      ⟨"/w/sub/build/.config"⟩ := by
    refine ((hplaced false (fun _ => none) .config).said ?_).trans (by decide +kernel)
    rintro _ ⟨⟨⟩, -, hd⟩
    exact absurd hd (by decide +kernel)
  have hunsaid : Output.Unsaid (some (settingsFile text)) none .header (settingsFile text) :=
    ⟨rfl, rfl, by decide +kernel⟩
  have hplace : ((⟨s, ⟨"/w"⟩, false⟩ : Context).outputs none none).header = ⟨"/w/sub/autogen.h"⟩ := by
    refine ((hplaced false (fun _ => none) .header).unsaid _ hunsaid).trans ?_
    rw [hdirectory]
    decide +kernel
  have hheader : Output.Placed (files text) (some ⟨"sub/s.toml"⟩)
      (some (settingsFile text)) none .header ⟨"/w/sub/autogen.h"⟩ := by
    rw [← hplace]
    exact hplaced false (fun _ => none) .header
  have hexpected : Output.header.expected (files text).workingDirectory
      (some (settingsFile text)) none = ⟨"/w/autogen.h"⟩ := by decide +kernel
  refine ⟨s, hs, hdirectory ▸ hholds _ rfl, hconfig, hplace, fun he => ?_⟩
  rw [← hexpected] at he
  have hsame := (hheader.entry_iff (by decide +kernel) ⟨by decide +kernel, by decide +kernel⟩
    (hexpected ▸ ⟨by decide +kernel, by decide +kernel⟩)).mp he _ hunsaid
  rw [hdirectory] at hsame
  exact absurd hsame (by decide +kernel)

open Below in
/-- An empty settings file below moves the configuration file, which without a settings file would be in
the directory of the run. -/
theorem outputs_moved_below :
    ∃ s, Settings.Source (files "") (some ⟨"sub/s.toml"⟩) (some (settingsFile "")) ∧
      Output.config.written? (settingsFile "").document = none ∧
      Settings.discover (files "") (some ⟨"sub/s.toml"⟩) ⟨"/w"⟩ = .ok s ∧
      Settings.discover (files "") none ⟨"/w"⟩ = .ok Settings.usual ∧
      ((⟨Settings.usual, ⟨"/w"⟩, false⟩ : Context).outputs none none).config = ⟨"/w/.config"⟩ ∧
      ((⟨s, ⟨"/w"⟩, false⟩ : Context).outputs none none).config = ⟨"/w/sub/.config"⟩ ∧
      (files "").locate? ⟨"/w/sub/.config"⟩ ≠ (files "").locate?
        (Output.config.expected ⟨"/w"⟩ (some (settingsFile "")) none) := by
  refine ⟨(settingsFile "").settings, .given in_files_empty, by decide +kernel, ?_, ?_,
    by decide +kernel, by decide +kernel, by decide +kernel⟩
  · exact Settings.discover_eq_ok_iff.mpr ⟨_, .given in_files_empty, rfl⟩
  · exact Settings.discover_eq_ok_iff.mpr ⟨none, .missing (by decide +kernel), rfl⟩

end Program

end MakeConfig
