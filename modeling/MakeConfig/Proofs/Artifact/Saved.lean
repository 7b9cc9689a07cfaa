import MakeConfig.Artifact.Config
import MakeConfig.Path.Template
import MakeConfig.Proofs.Lists
import MakeConfig.Proofs.Text.Lines
import MakeConfig.Proofs.Tree.Reachable

/-! # Configuration files that are read back

A configuration file is a line for each variable, for each recipe, and two more at the end. Only the
lines of variables are taken for such when the file is read, so what was written is read back, but
for blanks at the end of a value.
-/

namespace MakeConfig

open Text

/-- A text that can name a variable in a line of its own. -/
def IsName (name : String) : Prop :=
  name ≠ "" ∧ ∀ c ∈ name.toList, Template.isNameChar c = true

/-- A text without a line feed, which is what ends a line. -/
def OneLine (text : String) : Prop := '\n' ∉ text.toList

theorem isBlank_of_isNameChar {c : Char} (h : Template.isNameChar c = true) :
    isBlank c = false := by
  have hn : (65 ≤ c.toNat ∧ c.toNat ≤ 90) ∨ (97 ≤ c.toNat ∧ c.toNat ≤ 122) ∨
      (48 ≤ c.toNat ∧ c.toNat ≤ 57) ∨ c.toNat = 95 := by
    delta Template.isNameChar Char.isAlphanum Char.isAlpha Char.isUpper Char.isLower
      Char.isDigit at h
    simp only [Bool.or_eq_true, Bool.and_eq_true, decide_eq_true_eq, beq_iff_eq, ge_iff_le,
      UInt32.le_iff_toNat_le] at h
    rcases h with ((h | h) | h) | rfl
    · exact .inl h
    · exact .inr (.inl h)
    · exact .inr (.inr (.inl h))
    · exact .inr (.inr (.inr rfl))
  simp only [isBlank, Bool.or_eq_false_iff, Bool.and_eq_false_iff, decide_eq_false_iff_not,
    beq_eq_false_iff_ne]
  omega

instance (name : String) : Decidable (IsName name) :=
  @instDecidableAnd _ _ inferInstance (List.decidableBAll _ _)

instance (text : String) : Decidable (OneLine text) := inferInstanceAs (Decidable (¬ _))

theorem IsName.oneLine {name : String} (h : IsName name) : OneLine name := fun hm =>
  absurd (h.2 '\n' hm) (by decide)

namespace Artifact

/-! ## The lines of a file -/

def variableText (e : String × String) : List Char :=
  Saved.mark.toList ++ e.1.toList ++ '=' :: e.2.toList

def includeText (path : Path) : List Char := "include ".toList ++ path.text.toList

def definitionsText (generated : List (String × String)) : List Char :=
  "DEF+=".toList ++ generated.flatMap fun e => ' ' :: e.1.toList ++ '=' :: e.2.toList

def configLines (values : List (String × String)) (paths : List Path)
    (generated : List (String × String)) : List (List Char) :=
  values.map variableText ++ paths.map includeText ++ [[], definitionsText generated]

theorem toList_variableLine (e : String × String) :
    (variableLine e).toList = variableText e ++ ['\n'] := by
  simp only [variableLine, variableText, String.toList_append, List.append_assoc]
  rfl

theorem toList_includeLine (path : Path) :
    (includeLine path).toList = includeText path ++ ['\n'] := by
  have hend : "\n".toList = ['\n'] := rfl
  unfold includeLine includeText
  rw [String.toList_append, String.toList_append, hend]

theorem toList_definitionsLine (generated : List (String × String)) :
    (definitionsLine generated).toList = definitionsText generated ++ ['\n'] := by
  have hentry : ∀ e : String × String,
      (" " ++ e.1 ++ "=" ++ e.2).toList = ' ' :: e.1.toList ++ '=' :: e.2.toList := by
    intro e
    simp
  unfold definitionsLine definitionsText
  simp only [String.toList_append, String.toList_join, List.flatMap_map, ← hentry]
  rfl

theorem toList_join_lines {α : Type} {line : α → String} {text : α → List Char}
    (h : ∀ x, (line x).toList = text x ++ ['\n']) (xs : List α) :
    (String.join (xs.map line)).toList = ended (xs.map text) := by
  simp [ended, String.toList_join, List.flatMap_map, h]

theorem wholeConfig_lines {files : FileSystem} {t : Tree} {generated : List (String × String)}
    {text : String} (h : wholeConfig files t generated = .ok text) :
    ∃ paths, t.recipePaths files = .ok paths ∧
      text.toList = ended (configLines t.vars.values.entries paths generated) := by
  unfold wholeConfig config at h
  cases hp : t.recipePaths files with
  | error e => simp [hp, Except.map] at h
  | ok paths =>
    simp only [hp, Except.map, Except.ok.injEq] at h
    refine ⟨paths, rfl, ?_⟩
    subst h
    simp [toList_join_lines toList_variableLine, toList_join_lines toList_includeLine,
      toList_definitionsLine, configLines, ended]

theorem not_mem_variableText {e : String × String} :
    '\n' ∉ variableText e ↔ OneLine e.1 ∧ OneLine e.2 := by
  have hmark : '\n' ∉ Saved.mark.toList := by decide
  have hequals : '\n' ≠ '=' := by decide
  simp only [variableText, List.mem_append, List.mem_cons, not_or, hmark, hequals, OneLine,
    not_false_eq_true, true_and]

theorem not_mem_definitionsText {generated : List (String × String)} :
    '\n' ∉ definitionsText generated ↔ ∀ e ∈ generated, OneLine e.1 ∧ OneLine e.2 := by
  have hstart : '\n' ∉ "DEF+=".toList := by decide
  have hspace : '\n' ≠ ' ' := by decide
  have hequals : '\n' ≠ '=' := by decide
  simp only [definitionsText, List.mem_append, List.mem_flatMap, List.mem_cons, not_or, not_exists,
    not_and, hstart, hspace, hequals, OneLine, not_false_eq_true, true_and]

theorem not_mem_includeText {path : Path} : '\n' ∉ includeText path ↔ OneLine path.text := by
  have hstart : '\n' ∉ "include ".toList := by decide
  unfold includeText
  rw [List.mem_append, not_or]
  exact and_iff_right hstart

theorem not_mem_configLines_iff {values generated : List (String × String)} {paths : List Path} :
    (∀ l ∈ configLines values paths generated, '\n' ∉ l) ↔
      (∀ e ∈ values, OneLine e.1 ∧ OneLine e.2) ∧ (∀ path ∈ paths, OneLine path.text) ∧
        ∀ e ∈ generated, OneLine e.1 ∧ OneLine e.2 := by
  simp only [configLines, List.forall_mem_append, List.forall_mem_map, List.forall_mem_cons,
    not_mem_variableText, not_mem_includeText, not_mem_definitionsText, List.not_mem_nil,
    not_false_eq_true, false_implies, implies_true, true_and, and_true, and_assoc]

theorem not_mem_configLines {values generated : List (String × String)} {paths : List Path}
    (hnames : ∀ e ∈ values, IsName e.1) (hkeys : ∀ e ∈ generated, IsName e.1)
    (hvalues : ∀ e ∈ values, OneLine e.2) (hgenerated : ∀ e ∈ generated, OneLine e.2)
    (hpaths : ∀ path ∈ paths, OneLine path.text) :
    ∀ l ∈ configLines values paths generated, '\n' ∉ l := by
  refine not_mem_configLines_iff.mpr ⟨fun e he => ?_, hpaths, fun e he => ?_⟩
  · exact ⟨(hnames e he).oneLine, hvalues e he⟩
  · exact ⟨(hkeys e he).oneLine, hgenerated e he⟩

end Artifact

theorem Tree.mem_of_recipePaths {t : Tree} {files : FileSystem} {paths : List Path}
    (h : t.recipePaths files = .ok paths) :
    ∀ path ∈ paths, ∃ recipe ∈ t.recipes, path = recipe.path.pathIn t.vars := by
  intro path hp
  obtain ⟨recipe, hr, hf⟩ := exists_of_forall₂ (mapM_eq_ok_iff.mp h).flip hp
  refine ⟨recipe, hr, ?_⟩
  dsimp only at hf
  split at hf
  · exact (Except.ok.inj hf).symm
  · cases hf

/-! ## Reading lines -/

namespace Saved

/-- What is left of a value in a line: blanks at its end are lost. -/
def kept (value : String) : String := String.ofList (trimRight value.toList)

theorem kept_eq_self_iff (value : String) :
    kept value = value ↔ ∀ c, value.toList.getLast? = some c → isBlank c = false := by
  rw [← trimRight_eq_self_iff, kept, ← String.toList_inj, String.toList_ofList]

theorem entry?_endLine (line : List Char) : entry? (endLine line) = entry? line := by
  unfold entry?
  rw [trim_endLine]

theorem entry?_nil : entry? [] = none := by decide

theorem entry?_cons {c : Char} (hb : isBlank c = false) (hc : c ≠ 'C') (cs : List Char) :
    entry? (c :: cs) = none := by
  have hmark : mark.toList.isPrefixOf (c :: trimRight cs) = false := by
    have hne : ('C' == c) = false := by simpa using hc.symm
    rw [show mark.toList = 'C' :: "ONFIG_".toList from rfl, List.isPrefixOf, hne, Bool.false_and]
  simp [ entry?, trim_cons hb, hmark]

theorem entry?_of_trim {line rest : List Char} (h : trim line = mark.toList ++ rest) :
    entry? line = (splitOnce? '=' rest).map fun e =>
      (String.ofList (trim e.1), String.ofList e.2) := by
  have hhead : (mark.toList ++ rest).head? ≠ some '#' := by simp [mark]
  have hprefix : mark.toList.isPrefixOf (mark.toList ++ rest) = true := by simp
  have hdrop : (mark.toList ++ rest).drop mark.length = rest := List.drop_left
  unfold entry?
  simp only [h, hhead, hprefix, hdrop, if_true, if_false, Option.bind_eq_bind, Option.bind_some]
  cases splitOnce? '=' rest <;> rfl

/-- A line of a variable gives its name, and its value up to blanks at the end. -/
theorem entry?_variableText {e : String × String} (h : IsName e.1) :
    entry? (Artifact.variableText e) = some (e.1, kept e.2) := by
  have hblank : ∀ c ∈ e.1.toList, isBlank c = false := fun c hc => isBlank_of_isNameChar (h.2 c hc)
  have hequals : '=' ∉ e.1.toList := fun hm => absurd (h.2 '=' hm) (by decide)
  have htrim : trim (Artifact.variableText e) =
      mark.toList ++ (e.1.toList ++ '=' :: trimRight e.2.toList) := by
    have hmark : mark.toList = 'C' :: "ONFIG_".toList := rfl
    have hsign : isBlank '=' = false := by decide
    rw [Artifact.variableText, hmark, List.cons_append, List.cons_append, trim_cons (by decide),
      trimRight_append hsign, List.append_assoc, List.cons_append]
  rw [entry?_of_trim htrim, splitOnce?_append hequals, Option.map_some, trim_of_no_blank hblank,
    String.ofList_toList, kept]

theorem filterMap_entry?_variables {values : List (String × String)}
    (h : ∀ e ∈ values, IsName e.1) :
    (values.map Artifact.variableText).filterMap entry? =
      values.map fun e => (e.1, kept e.2) := by
  rw [List.filterMap_map, ← List.filterMap_eq_map]
  exact List.filterMap_congr fun e he => entry?_variableText (h e he)

theorem filterMap_entry?_configLines {values : List (String × String)}
    (h : ∀ e ∈ values, IsName e.1) (paths : List Path) (generated : List (String × String)) :
    (Artifact.configLines values paths generated).filterMap entry? =
      values.map fun e => (e.1, kept e.2) := by
  have hpaths : (paths.map Artifact.includeText).filterMap entry? = [] := by
    rw [List.filterMap_map, List.filterMap_eq_nil_iff]
    exact fun path _ => entry?_cons (c := 'i') (by decide) (by decide) _
  have hdefinitions : entry? (Artifact.definitionsText generated) = none :=
    entry?_cons (c := 'D') (by decide) (by decide) _
  simp [Artifact.configLines, filterMap_entry?_variables h, hpaths, hdefinitions, entry?_nil]

theorem map_kept_eq_self_iff (values : List (String × String)) :
    (values.map fun e => (e.1, kept e.2)) = values ↔ ∀ e ∈ values, kept e.2 = e.2 := by
  induction values with
  | nil => simp
  | cons e values ih =>
    obtain ⟨name, value⟩ := e
    simp [ih]

/-! ## An example -/

namespace Sample

def schemaText : String :=
  "\x7b\"N\":\x7b\"type\":\"string\",\"gen-list\":\x7b\"K\":\"to_string\"\x7d\x7d," ++
  "\"r\":\x7b\"type\":\"recipe\",\"path\":\"r.mk\"\x7d\x7d"

def around : Surroundings where
  files := ⟨⟨"/"⟩, [(["config.json"], .file schemaText.toUTF8 false),
    (["r.mk"], .file "".toUTF8 false)]⟩
  environment := ⟨[], .checked⟩

def planted : Tree := .plant "config.json" ⟨"/"⟩

def tree (answer : String) : Tree := ((planted.parse around Tree.root).2.assign ⟨0⟩ answer).2

def generated : List (String × String) := [("K", "\"x\"")]

theorem reachable_tree (answer : String) : (tree answer).Reachable :=
  .call (.call (.plant _ _) (.parse around planted Tree.root)) (.setUserValue _ ⟨0⟩ answer)

def writes (answer : String) (check : String → Bool) : Bool :=
  decide ((tree answer).vars.values.entries = [("N", answer)] ∧
    ∀ recipe ∈ (tree answer).recipes, OneLine (recipe.path.pathIn (tree answer).vars).text) &&
  match Artifact.wholeConfig around.files (tree answer) generated with
  | .ok text => check text
  | .error _ => false

theorem written_of_writes (answer : String) (check : String → Bool)
    (h : writes answer check = true) :
    (tree answer).vars.values.entries = [("N", answer)] ∧
      (∀ recipe ∈ (tree answer).recipes,
        OneLine (recipe.path.pathIn (tree answer).vars).text) ∧
      ∃ text, Artifact.wholeConfig around.files (tree answer) generated = .ok text ∧
        check text = true := by
  obtain ⟨htree, hwritten⟩ := Bool.and_eq_true_iff.mp h
  obtain ⟨hvalues, hrecipes⟩ := of_decide_eq_true htree
  refine ⟨hvalues, hrecipes, ?_⟩
  split at hwritten
  · next text hw => exact ⟨text, hw, hwritten⟩
  · cases hwritten

end Sample

/-! ## Reading files -/

/-- A configuration file gives its variables back in their order. A value is as it was unless it
ends in a blank. -/
theorem ofText_wholeConfig {files : FileSystem} {t : Tree} {generated : List (String × String)}
    {text : String} (hw : Artifact.wholeConfig files t generated = .ok text)
    (hnames : ∀ e ∈ t.vars.values.entries, IsName e.1) (hkeys : ∀ e ∈ generated, IsName e.1)
    (hvalues : ∀ e ∈ t.vars.values.entries, OneLine e.2)
    (hgenerated : ∀ e ∈ generated, OneLine e.2)
    (hpaths : ∀ recipe ∈ t.recipes, OneLine (recipe.path.pathIn t.vars).text) :
    (ofText text).entries = t.vars.values.entries.map (fun e => (e.1, kept e.2)) ∧
      ((ofText text).entries = t.vars.values.entries ↔
        ∀ e ∈ t.vars.values.entries, ∀ c, e.2.toList.getLast? = some c → isBlank c = false) := by
  obtain ⟨paths, hp, htext⟩ := Artifact.wholeConfig_lines hw
  have hlines : ∀ l ∈ Artifact.configLines t.vars.values.entries paths generated, '\n' ∉ l := by
    refine Artifact.not_mem_configLines hnames hkeys hvalues hgenerated fun path hm => ?_
    obtain ⟨recipe, hr, rfl⟩ := Tree.mem_of_recipePaths hp path hm
    exact hpaths recipe hr
  have hentries : (lines text.toList).filterMap entry? =
      t.vars.values.entries.map fun e => (e.1, kept e.2) := by
    rw [htext, lines_ended hlines, List.filterMap_map, ← filterMap_entry?_configLines hnames]
    exact List.filterMap_congr fun line _ => entry?_endLine line
  have hnodup : ((t.vars.values.entries.map fun e => (e.1, kept e.2)).map Prod.fst).Nodup := by
    rw [List.map_map]
    exact t.vars.values.nodup
  have hread : (ofText text).entries = t.vars.values.entries.map fun e => (e.1, kept e.2) := by
    rw [ofText, hentries, OrderedMap.entries_ofList hnodup]
  refine ⟨hread, ?_⟩
  rw [hread, map_kept_eq_self_iff]
  simp only [kept_eq_self_iff]

/-- A value with signs in it that have a meaning elsewhere, and with a blank in front, is read back
beside a recipe and a generated entry. -/
theorem ofText_wholeConfig_signs :
    (Sample.tree " x=#1").Reachable ∧
      ∃ text, Artifact.wholeConfig Sample.around.files (Sample.tree " x=#1") Sample.generated =
        .ok text ∧ (ofText text).entries = [("N", " x=#1")] := by
  obtain ⟨hvalues, hrecipes, text, hw, -⟩ :=
    Sample.written_of_writes " x=#1" (fun _ => true) (by decide +kernel)
  refine ⟨Sample.reachable_tree _, text, hw, ?_⟩
  obtain ⟨hread, -⟩ := ofText_wholeConfig hw (by rw [hvalues]; decide) (by decide)
    (by rw [hvalues]; decide) (by decide) hrecipes
  rw [hread, hvalues]
  decide +kernel

/-- A blank at the end of a value is lost, though names, values and paths are as they should be. -/
theorem ofText_wholeConfig_blank :
    (Sample.tree "a ").Reachable ∧
      (Sample.tree "a ").vars.values.entries = [("N", "a ")] ∧
      (IsName "N" ∧ OneLine "a " ∧ (∀ e ∈ Sample.generated, IsName e.1 ∧ OneLine e.2) ∧
        ∀ recipe ∈ (Sample.tree "a ").recipes,
          OneLine (recipe.path.pathIn (Sample.tree "a ").vars).text) ∧
      ∃ text, Artifact.wholeConfig Sample.around.files (Sample.tree "a ") Sample.generated =
        .ok text ∧ (ofText text).entries = [("N", "a")] := by
  obtain ⟨hvalues, hrecipes, text, hw, hread⟩ := Sample.written_of_writes "a "
    (fun text => decide ((ofText text).entries = [("N", "a")])) (by decide +kernel)
  exact ⟨Sample.reachable_tree _, hvalues, ⟨by decide, by decide, by decide, hrecipes⟩, text, hw,
    of_decide_eq_true hread⟩

end Saved

end MakeConfig
