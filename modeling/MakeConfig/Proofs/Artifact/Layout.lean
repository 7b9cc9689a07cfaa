import MakeConfig.Artifact.Header
import MakeConfig.Proofs.Artifact.Saved
import MakeConfig.Proofs.Tree.Order
import MakeConfig.Proofs.Tree.Valued

/-! # Lines of what is written

Variables, recipes and generated entries have lines of their own, and values are written as they
stand. So the lines are as they should be exactly if there is no line feed in a value. Texts and
options may have one. Truth values and numbers have none, whatever a conversion makes of them.
-/

namespace MakeConfig

open Numeral Text

/-! ## Values in one line -/

theorem not_mem_digits {radix : Nat} (hr : 1 < radix) (hle : radix ≤ 16) (n : Nat) :
    '\n' ∉ digits radix n := by
  have hdigits : ∀ d < 16, Nat.digitChar d ≠ '\n' := by decide
  intro h
  obtain ⟨d, hd, hc⟩ := digitChar_of_mem_digits hr h
  exact hdigits d (Nat.lt_of_lt_of_le hd hle) hc.symm

theorem not_mem_signedDigits {radix : Nat} (hr : 1 < radix) (hle : radix ≤ 16) (v : Int) :
    '\n' ∉ signedDigits radix v := by
  have hminus : '\n' ≠ '-' := by decide
  unfold signedDigits
  split
  · exact List.not_mem_cons_of_ne_of_not_mem hminus (not_mem_digits hr hle _)
  · exact not_mem_digits hr hle _

theorem oneLine_ofList {cs : List Char} : OneLine (String.ofList cs) ↔ '\n' ∉ cs := by
  rw [OneLine, String.toList_ofList]

theorem oneLine_natText (n : Nat) : OneLine (natText n) :=
  oneLine_ofList.mpr (not_mem_digits (by decide) (by decide) n)

theorem oneLine_hexText (n : Nat) : OneLine (hexText n) :=
  oneLine_ofList.mpr (not_mem_digits (by decide) (by decide) n)

theorem oneLine_intText (v : Int) : OneLine (intText v) :=
  oneLine_ofList.mpr (not_mem_signedDigits (by decide) (by decide) v)

theorem oneLine_yesNo (b : Bool) : OneLine (yesNo b) := by
  cases b <;> decide

theorem oneLine_quoted {text : String} : OneLine (quoted text) ↔ OneLine text := by
  have hquote : '\n' ∉ "\"".toList := by decide
  simp only [OneLine, quoted, String.toList_append, List.mem_append, hquote, or_false, false_or]

theorem oneLine_of_hexDigits? {text : String} {ds : List Char}
    (h : Kind.hexDigits? text.toList = some ds) : OneLine text := by
  unfold Kind.hexDigits? at h
  split at h
  · next cs hcs =>
    split at h
    · next hall =>
      have hdigit : isHexDigit '\n' = false := by decide
      have hzero : '\n' ≠ '0' := by decide
      have hx : '\n' ≠ 'x' := by decide
      have hmem : '\n' ∉ cs := fun hm => by
        simp [List.all_eq_true.mp hall.2 '\n' hm] at hdigit
      rw [OneLine, hcs]
      simp only [List.mem_cons, not_or]
      exact ⟨hzero, hx, hmem⟩
    · cases h
  · cases h

/-- A text that is taken over as it stands, from an answer or from a schema. -/
def Kind.Verbatim (kind : Kind) (text : String) : Prop :=
  kind = .text ∨ ∃ options, kind = .choice options ∧ text ∈ options

section Values

variable {kind : Kind} {text out : String} {value : Value}

theorem Kind.Spells.verbatim (h : kind.Spells text value) (hl : ¬ OneLine text) :
    kind.Verbatim text := by
  cases h with
  | bool b => exact absurd (oneLine_yesNo b) hl
  | @tristate _ t ht =>
    unfold Tristate.ofText? at ht
    split at ht
    · exact absurd (by decide) hl
    · exact absurd (by decide) hl
    · exact absurd (by decide) hl
    · cases ht
  | choice hoption _ => exact .inr ⟨_, rfl, List.mem_of_getElem? hoption⟩
  | hex hds _ _ _ => exact absurd (oneLine_of_hexDigits? hds) hl
  | integer _ _ => exact absurd (oneLine_intText _) hl
  | text _ => exact .inl rfl

end Values

/-! ## Conversions in one line -/

namespace Value

variable {target : Conversion}

theorem oneLine_ofBool (b : Bool) (target : Conversion) : OneLine (ofBool b target) := by
  cases b <;> cases target <;> decide

theorem oneLine_ofTristate (t : Tristate) (target : Conversion) :
    OneLine (ofTristate t target) := by
  cases t <;> cases target <;> decide

theorem oneLine_ofHex (value : Nat) {spelling : String} (hs : OneLine spelling)
    (target : Conversion) : OneLine (ofHex value spelling target) := by
  cases target with
  | integer => exact oneLine_natText value
  | hex | text => exact hs
  | bool | tristate => exact oneLine_yesNo _

theorem oneLine_ofInteger (v : Int) (target : Conversion) : OneLine (ofInteger v target) := by
  cases target with
  | integer | text => exact oneLine_intText v
  | hex => exact oneLine_ofList.mpr (not_mem_signedDigits (by decide) (by decide) v)
  | bool | tristate => exact oneLine_yesNo _

theorem oneLine_ofChoice (index : Nat) (option : String) (ht : target ≠ .text) :
    OneLine (ofChoice index option target) := by
  have hyes : OneLine "y" := by decide
  cases target with
  | integer => exact oneLine_natText index
  | hex => exact oneLine_hexText index
  | bool | tristate => exact hyes
  | text => exact absurd rfl ht

theorem oneLine_ofText {build : Build} {visible : Bool} {text out : String} (ht : target ≠ .text)
    (h : ofText build visible text target = .ok out) : OneLine out := by
  have hzero : OneLine "0" := by decide
  have hhex : OneLine "0x00" := by decide
  cases target with
  | integer =>
    simp only [ofText] at h
    split at h
    · obtain ⟨v, -, rfl⟩ := Reading.map_eq_ok_iff.mp h
      exact oneLine_intText v
    · exact Except.ok.inj h ▸ hzero
  | hex =>
    simp only [ofText] at h
    split at h
    · obtain ⟨v, -, rfl⟩ := Reading.map_eq_ok_iff.mp h
      exact oneLine_hexText v
    · exact Except.ok.inj h ▸ hhex
  | bool | tristate => exact Except.ok.inj h ▸ oneLine_yesNo visible
  | text => exact absurd rfl ht

end Value

/-- A conversion puts a text between quotes, or what it gives is one line. -/
theorem Kind.Spells.quoted_of_convert {kind : Kind} {text out : String} {value : Value}
    (h : kind.Spells text value) {build : Build} {visible : Bool} {target : Conversion}
    (hc : value.convert build visible target = .ok out) (hl : ¬ OneLine out) :
    target = .text ∧ out = quoted text := by
  cases h with
  | bool b => exact absurd (Except.ok.inj hc ▸ Value.oneLine_ofBool b target) hl
  | tristate _ => exact absurd (Except.ok.inj hc ▸ Value.oneLine_ofTristate _ target) hl
  | hex hds _ _ _ =>
    have hspelling := oneLine_of_hexDigits? hds
    exact absurd (Except.ok.inj hc ▸ Value.oneLine_ofHex _ hspelling target) hl
  | integer _ _ => exact absurd (Except.ok.inj hc ▸ Value.oneLine_ofInteger _ target) hl
  | choice _ _ =>
    by_cases ht : target = .text
    · subst ht
      exact ⟨rfl, (Except.ok.inj hc).symm⟩
    · exact absurd (Except.ok.inj hc ▸ Value.oneLine_ofChoice _ _ ht) hl
  | text _ =>
    by_cases ht : target = .text
    · subst ht
      exact ⟨rfl, (Except.ok.inj hc).symm⟩
    · exact absurd (Value.oneLine_ofText ht hc) hl

/-! ## Generated entries -/

/-- The text of a generated entry is the value of an item, as it stands or between quotes, and there
is a line feed in it. -/
structure Item.Spills (item : Item) (entry : String × String) (text : String) : Prop where
  current : item.current? = some text
  verbatim : item.kind.Verbatim text
  broken : ¬ OneLine text
  derived : (entry.1, .self) ∈ item.generates.entries ∧ entry.2 = text ∨
    (entry.1, .convert .text) ∈ item.generates.entries ∧ entry.2 = quoted text

theorem Item.derived_of_generated {item : Item} {build : Build} {ambient : Ambient} {start : Nat}
    {entries : List (String × String)} (hg : item.generated build ambient start = .ok entries)
    {entry : String × String} (he : entry ∈ entries) :
    ∃ derivation place, (entry.1, derivation) ∈ item.generates.entries ∧
      item.derive build ambient place derivation = .ok entry.2 := by
  cases hc : item.current?.isNone with
  | true =>
    simp only [generated, hc, if_true, Except.ok.injEq] at hg
    subst hg
    cases he
  | false =>
    rw [generated_of_current hc] at hg
    obtain ⟨⟨⟨key, derivation⟩, i⟩, hmem, hderived⟩ :=
      exists_of_forall₂ (mapM_eq_ok_iff.mp hg).flip he
    cases hd : item.derive build ambient (start + i) derivation with
    | error e => simp [hd, Except.map] at hderived
    | ok text =>
      simp only [hd, Except.map, Except.ok.injEq] at hderived
      subst hderived
      exact ⟨derivation, start + i, List.fst_mem_of_mem_zipIdx hmem, hd⟩

theorem Item.Typed.spills {item : Item} (h : item.Typed) {build : Build} {ambient : Ambient}
    {place : Nat} {entry : String × String} {derivation : Derivation}
    (hmem : (entry.1, derivation) ∈ item.generates.entries)
    (hd : item.derive build ambient place derivation = .ok entry.2) (hl : ¬ OneLine entry.2) :
    ∃ text, item.Spills entry text := by
  cases derivation with
  | self =>
    cases hc : item.current? with
    | none => simp [derive, hc] at hd
    | some text =>
      simp only [derive, hc, Except.ok.injEq] at hd
      obtain ⟨value, hv⟩ := h.current hc
      exact ⟨text, hc, hv.verbatim (hd ▸ hl), hd ▸ hl, .inl ⟨hmem, hd.symm⟩⟩
  | convert target =>
    obtain ⟨value, hvalue, hconvert⟩ := convert_eq_ok_iff.mp hd
    obtain ⟨text, hc, hspells⟩ := h.spells_of_value? hvalue
    obtain ⟨rfl, hquoted⟩ := hspells.quoted_of_convert hconvert hl
    have hbroken : ¬ OneLine text := fun ht => hl (hquoted ▸ oneLine_quoted.mpr ht)
    exact ⟨text, hc, hspells.verbatim hbroken, hbroken, .inr ⟨hmem, hquoted⟩⟩
  | random bytes =>
    simp only [derive, Except.ok.injEq] at hd
    exact absurd (hd ▸ oneLine_natText _) hl
  | now =>
    simp only [derive, Except.ok.injEq] at hd
    exact absurd (hd ▸ oneLine_intText _) hl

namespace Tree

variable {t : Tree} {build : Build} {ambient : Ambient} {entries : List (String × String)}

theorem derived_of_generated (hg : t.generated build ambient = .ok entries) {entry : String × String}
    (he : entry ∈ entries) :
    ∃ item ∈ t.items, ∃ derivation place, (entry.1, derivation) ∈ item.generates.entries ∧
      item.derive build ambient place derivation = .ok entry.2 := by
  obtain ⟨parts, rfl, hparts⟩ := generatedFrom_parts hg
  obtain ⟨part, hpart, he⟩ := List.mem_flatten.mp he
  obtain ⟨item, hitem, start, hgenerated⟩ := exists_of_forall₂ hparts.flip hpart
  exact ⟨item, hitem, item.derived_of_generated hgenerated he⟩

theorem item?_of_mem_items {item : Item} (h : item ∈ t.items) : ∃ id, t.item? id = some item := by
  obtain ⟨node, -, hitem⟩ := List.mem_flatMap.mp h
  obtain ⟨id, -, hi⟩ := List.mem_filterMap.mp hitem
  exact ⟨id, hi⟩

end Tree

/-! ## Lines -/

namespace Artifact

def macroText (e : String × String) : List Char :=
  "#define ".toList ++ e.1.toList ++ ' ' :: e.2.toList

def headerLines (generated : List (String × String)) : List (List Char) :=
  ["#ifndef ".toList ++ headerGuard.toList, "#define ".toList ++ headerGuard.toList] ++
    generated.map macroText ++ ["#endif".toList]

theorem toList_macroLine (e : String × String) : (macroLine e).toList = macroText e ++ ['\n'] := by
  have hspace : " ".toList = [' '] := rfl
  have hend : "\n".toList = ['\n'] := rfl
  unfold macroLine macroText
  simp only [String.toList_append, hspace, hend, List.append_assoc, List.cons_append,
    List.nil_append]

theorem toList_header (generated : List (String × String)) :
    (header generated).toList = ended (headerLines generated) := by
  have hend : "\n".toList = ['\n'] := rfl
  have hlast : "#endif\n".toList = "#endif".toList ++ ['\n'] := rfl
  have hentries := toList_join_lines toList_macroLine generated
  unfold header headerLines
  unfold ended at hentries ⊢
  simp only [String.toList_append, hentries, hend, hlast, List.flatMap_append, List.flatMap_cons,
    List.flatMap_nil, List.append_assoc, List.append_nil]

theorem not_mem_macroText {e : String × String} :
    '\n' ∉ macroText e ↔ OneLine e.1 ∧ OneLine e.2 := by
  have hstart : '\n' ∉ "#define ".toList := by decide
  have hspace : '\n' ≠ ' ' := by decide
  unfold macroText
  simp only [List.mem_append, List.mem_cons, not_or, hstart, hspace, OneLine, not_false_eq_true,
    true_and]

theorem not_mem_headerLines_iff {generated : List (String × String)} :
    (∀ l ∈ headerLines generated, '\n' ∉ l) ↔ ∀ e ∈ generated, OneLine e.1 ∧ OneLine e.2 := by
  have hopens : ∀ l ∈ ["#ifndef ".toList ++ headerGuard.toList,
      "#define ".toList ++ headerGuard.toList], '\n' ∉ l := by decide
  have hcloses : ∀ l ∈ ["#endif".toList], '\n' ∉ l := by decide
  unfold headerLines
  rw [List.forall_mem_append, List.forall_mem_append, List.forall_mem_map]
  simp only [not_mem_macroText]
  constructor
  · rintro ⟨⟨-, hentries⟩, -⟩
    exact hentries
  · intro hentries
    exact ⟨⟨hopens, hentries⟩, hcloses⟩

theorem count_macroText {e : String × String} (hk : OneLine e.1) :
    (macroText e).count '\n' = e.2.toList.count '\n' := by
  have hstart : ("#define ".toList).count '\n' = 0 := by decide
  have hkey : e.1.toList.count '\n' = 0 := List.count_eq_zero.mpr hk
  unfold macroText
  rw [List.count_append, List.count_append, hstart, hkey, Nat.zero_add]
  exact List.count_cons_of_ne (by decide)

/-- A header has a line for each entry, three more, and one more for each line feed in a value. -/
theorem count_header {generated : List (String × String)}
    (hkeys : ∀ e ∈ generated, OneLine e.1) :
    (header generated).toList.count '\n' =
      generated.length + 3 + (generated.flatMap fun e => e.2.toList).count '\n' := by
  have hentries : (generated.map macroText).flatten.count '\n' =
      (generated.flatMap fun e => e.2.toList).count '\n' := by
    induction generated with
    | nil => rfl
    | cons e generated ih =>
      rw [List.map_cons, List.flatten_cons, List.flatMap_cons, List.count_append,
        List.count_append, count_macroText (hkeys e List.mem_cons_self),
        ih fun e he => hkeys e (List.mem_cons_of_mem _ he)]
  have hopens : ["#ifndef ".toList ++ headerGuard.toList,
      "#define ".toList ++ headerGuard.toList].flatten.count '\n' = 0 := by decide
  have hcloses : ["#endif".toList].flatten.count '\n' = 0 := by decide
  rw [toList_header, count_ended]
  unfold headerLines
  rw [List.flatten_append, List.flatten_append, List.count_append, List.count_append, hentries,
    hopens, hcloses]
  simp only [List.length_append, List.length_cons, List.length_nil, List.length_map]
  omega

/-! ## An example -/

namespace Note

def schemaText : String :=
  "\x7b\"N\":\x7b\"type\":\"string\",\"gen-list\":\x7b\"K\":\"self\"\x7d\x7d\x7d"

def around : Surroundings where
  files := ⟨⟨"/"⟩, [(["config.json"], .file schemaText.toUTF8 false)]⟩
  environment := ⟨[], .checked⟩

def planted : Tree := .plant "config.json" ⟨"/"⟩

def tree (answer : String) : Tree := ((planted.parse around Tree.root).2.assign ⟨0⟩ answer).2

def ambient : Ambient := ⟨0, fun _ => 0⟩

theorem reachable_tree (answer : String) : (tree answer).Reachable :=
  .call (.call (.plant _ _) (.parse around planted Tree.root)) (.setUserValue _ ⟨0⟩ answer)

/-- Names and paths are as they should be, and the value is written under its name and its key. -/
def Written (answer : String) (entries : List (String × String)) (text : String) : Prop :=
  (∀ item ∈ (tree answer).items, IsName item.name ∧ ∀ key ∈ item.generates.keys, IsName key) ∧
  (∀ recipe ∈ (tree answer).recipes, OneLine (recipe.path.pathIn (tree answer).vars).text) ∧
  (∀ build, (tree answer).generated build ambient = .ok entries) ∧
  wholeConfig around.files (tree answer) entries = .ok text

theorem written_of_check {answer text : String} {entries : List (String × String)}
    (hnames : ∀ item ∈ (tree answer).items,
      IsName item.name ∧ ∀ key ∈ item.generates.keys, IsName key)
    (hrecipes : (tree answer).recipes.length = 0)
    (hgenerated : ∀ build, ((tree answer).generated build ambient).toOption = some entries)
    (htext : (wholeConfig around.files (tree answer) entries).toOption = some text) :
    Written answer entries text := by
  refine ⟨hnames, ?_, ?_, ?_⟩
  · rw [List.eq_nil_of_length_eq_zero hrecipes]
    exact fun _ hr => absurd hr List.not_mem_nil
  · intro build
    specialize hgenerated build
    cases hg : (tree answer).generated build ambient with
    | error e => simp [hg, Except.toOption] at hgenerated
    | ok got => simpa [hg, Except.toOption] using hgenerated
  · cases hw : wholeConfig around.files (tree answer) entries with
    | error e => simp [hw, Except.toOption] at htext
    | ok got => simpa [hw, Except.toOption] using htext

end Note

/-- What is written has its lines exactly if all values are in one line, which only texts and options
can fail to be. A line feed in a value makes one line more of the header. -/
theorem lines_of_values {t : Tree} (h : t.Reachable)
    (hkeys : ∀ item ∈ t.items, ∀ key ∈ item.generates.keys, IsName key)
    (hpaths : ∀ recipe ∈ t.recipes, OneLine (recipe.path.pathIn t.vars).text)
    {build : Build} {ambient : Ambient} {generated : List (String × String)}
    (hg : t.generated build ambient = .ok generated) :
    (header generated).toList.count '\n' =
      generated.length + 3 + (generated.flatMap fun e => e.2.toList).count '\n' ∧
    (split '\n' (header generated).toList = headerLines generated ++ [[]] ↔
      ∀ e ∈ generated, OneLine e.2) ∧
    (∀ files text, wholeConfig files t generated = .ok text →
      ∃ paths, t.recipePaths files = .ok paths ∧
        (split '\n' text.toList =
            configLines t.vars.values.entries paths generated ++ [[]] ↔
          (∀ e ∈ t.vars.values.entries, OneLine e.1 ∧ OneLine e.2) ∧
            ∀ e ∈ generated, OneLine e.2)) ∧
    (∀ e ∈ generated, ¬ OneLine e.2 → ∃ item ∈ t.items, ∃ text, item.Spills e text) ∧
    ∀ id item text, t.item? id = some item → item.user? = some text → ¬ OneLine text →
      item.kind.Verbatim text := by
  have hnames : ∀ e ∈ generated, OneLine e.1 := by
    intro e he
    obtain ⟨item, hitem, derivation, -, hmem, -⟩ := Tree.derived_of_generated hg he
    exact (hkeys item hitem e.1 (List.mem_map_of_mem (f := Prod.fst) hmem)).oneLine
  have hentries : (∀ e ∈ generated, OneLine e.1 ∧ OneLine e.2) ↔ ∀ e ∈ generated, OneLine e.2 :=
    ⟨fun hall e he => (hall e he).2, fun hall e he => ⟨hnames e he, hall e he⟩⟩
  refine ⟨count_header hnames, ?_, ?_, ?_, ?_⟩
  · rw [toList_header, split_ended_iff, not_mem_headerLines_iff, hentries]
  · intro files text hw
    obtain ⟨paths, hp, htext⟩ := wholeConfig_lines hw
    refine ⟨paths, hp, ?_⟩
    have hincludes : ∀ path ∈ paths, OneLine path.text := by
      intro path hm
      obtain ⟨recipe, hr, rfl⟩ := Tree.mem_of_recipePaths hp path hm
      exact hpaths recipe hr
    rw [htext, split_ended_iff, not_mem_configLines_iff, hentries, and_iff_right hincludes]
  · intro e he hl
    obtain ⟨item, hitem, derivation, place, hmem, hd⟩ := Tree.derived_of_generated hg he
    obtain ⟨id, hi⟩ := Tree.item?_of_mem_items hitem
    exact ⟨item, hitem, (h.typed hi).spills hmem hd hl⟩
  · intro id item text hi huser hl
    obtain ⟨value, hv⟩ := h.typed hi text huser
    exact hv.verbatim hl

theorem lines_of_values_text :
    (Note.tree "x=1").Reachable ∧
      split '\n' (header [("K", "x=1")]).toList = headerLines [("K", "x=1")] ++ [[]] ∧
      ∃ text paths, wholeConfig Note.around.files (Note.tree "x=1") [("K", "x=1")] = .ok text ∧
        split '\n' text.toList =
          configLines (Note.tree "x=1").vars.values.entries paths [("K", "x=1")] ++ [[]] := by
  have hwritten : Note.Written "x=1" [("K", "x=1")] "CONFIG_N=x=1\n\nDEF+= K=x=1\n" :=
    Note.written_of_check (by decide +kernel) (by decide +kernel)
      (fun build => by cases build <;> decide +kernel) (by decide +kernel)
  obtain ⟨hnames, hrecipes, hg, hw⟩ := hwritten
  obtain ⟨-, hheader, hconfig, -⟩ := lines_of_values (Note.reachable_tree "x=1")
    (fun item hitem => (hnames item hitem).2) hrecipes (hg .checked)
  obtain ⟨paths, -, hlines⟩ := hconfig _ _ hw
  exact ⟨Note.reachable_tree _, hheader.mpr (by decide), _, paths, hw,
    hlines.mpr ⟨by decide +kernel, by decide⟩⟩

/-- A text may have a line feed in it, which breaks the line of its variable and of its entry. -/
theorem lines_broken_text :
    (Note.tree "a\nb").Reachable ∧
      ∃ text, Note.Written "a\nb" [("K", "a\nb")] text ∧
        (header [("K", "a\nb")]).toList.count '\n' = 5 ∧
        split '\n' (header [("K", "a\nb")]).toList ≠ headerLines [("K", "a\nb")] ++ [[]] ∧
        split '\n' text.toList ≠
          configLines (Note.tree "a\nb").vars.values.entries [] [("K", "a\nb")] ++ [[]] :=
  ⟨Note.reachable_tree _, "CONFIG_N=a\nb\n\nDEF+= K=a\nb\n",
    Note.written_of_check (by decide +kernel) (by decide +kernel)
      (fun build => by cases build <;> decide +kernel) (by decide +kernel), by decide +kernel,
    by decide +kernel, by decide +kernel⟩

end Artifact

end MakeConfig
