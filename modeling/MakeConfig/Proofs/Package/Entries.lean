import MakeConfig.Proofs.Lists
import MakeConfig.Proofs.Package.Ledgers
import Mathlib.Data.List.Induction
import Mathlib.Data.List.Infix
import Mathlib.Logic.Relation

/-! # Packages entered one after the other

A ledger remembers the library directories that it has listed, and nothing else. Each directory is
listed with the first package that has it, in whatever way later ones spell it, and all other lines of
a package are those that it would have in a ledger of its own.
-/

namespace MakeConfig

namespace Path

/-- A path with a slash too many or an inner dot. -/
inductive Padded : Path → Path → Prop where
  | piece {p q : Path} {first piece : List Char} {before after : List (List Char)} :
      piece = [] ∨ piece = ['.'] → p.pieces = first :: (before ++ piece :: after) →
        q.pieces = first :: (before ++ after) → p.isAbsolute = q.isAbsolute → Padded p q

theorem Padded.components_eq {p q : Path} (h : Padded p q) : p.components = q.components := by
  cases h with
  | @piece first piece before after hpiece hp hq habsolute =>
    have hnone : component? piece = none := by
      rcases hpiece with rfl | rfl <;> rfl
    simp only [components, hp, hq, habsolute, List.filterMap_append, List.filterMap_cons_none hnone]

theorem components_eq_of_padded {p q : Path} (h : Relation.EqvGen Padded p q) :
    p.components = q.components := by
  induction h with
  | rel _ _ h => exact h.components_eq
  | refl _ => rfl
  | symm _ _ _ ih => exact ih.symm
  | trans _ _ _ _ _ ih ih' => exact ih.trans ih'

theorem same_iff {p q : Path} : p.same q = true ↔ p.components = q.components := beq_iff_eq

end Path

namespace Ledger

structure Delivery where
  checkout : Path
  out : Path
  manifest : Manifest

def after (deliveries : List Delivery) : Ledger :=
  deliveries.foldl (fun l d => (l.record d.checkout d.out d.manifest).2) .empty

theorem after_concat (before : List Delivery) (d : Delivery) :
    after (before ++ [d]) = ((after before).record d.checkout d.out d.manifest).2 :=
  List.foldl_concat ..

/-! ## Directories -/

variable {l : Ledger} {before : List Delivery} {d : Delivery} {p : Path}

theorem lists_iff : l.lists p = true ↔ p.components ∈ l.directories.map Path.components := by
  rw [lists, List.any_eq_true, List.mem_map]
  exact exists_congr fun q => and_congr_right fun _ => Path.same_iff.trans eq_comm

theorem directories_record (l : Ledger) (d : Delivery) :
    (l.record d.checkout d.out d.manifest).2.directories =
      if d.out.components ∈ l.directories.map Path.components then l.directories
      else l.directories ++ [d.out] := by
  simp only [record, lists_iff]
  split <;> rfl

theorem components_after (before : List Delivery) :
    (after before).directories.map Path.components =
      (before.map fun e => e.out.components).eraseDups := by
  induction before using List.reverseRecOn with
  | nil => rfl
  | append_singleton before d ih =>
    rw [after_concat, directories_record, List.map_append, List.map_singleton, eraseDups_concat,
      ← ih, apply_ite (List.map Path.components), List.map_append, List.map_singleton]
    simp only [ih, List.mem_eraseDups]

theorem lists_after_iff :
    (after before).lists p = true ↔ ∃ e ∈ before, e.out.components = p.components := by
  rw [lists_iff, components_after, List.mem_eraseDups, List.mem_map]

/-- A directory is listed as the first package that has it spells it. -/
theorem first_of_mem_after (h : p ∈ (after before).directories) :
    ∃ front e rest, before = front ++ e :: rest ∧ e.out = p ∧
      ∀ k ∈ front, k.out.components ≠ p.components := by
  induction before using List.reverseRecOn with
  | nil => cases h
  | append_singleton before d ih =>
    rw [after_concat, directories_record] at h
    split at h
    · obtain ⟨front, e, rest, rfl, hout, hfront⟩ := ih h
      exact ⟨front, e, rest ++ [d], by simp, hout, hfront⟩
    · next hnew =>
      rcases List.mem_append.mp h with h | h
      · obtain ⟨front, e, rest, rfl, hout, hfront⟩ := ih h
        exact ⟨front, e, rest ++ [d], by simp, hout, hfront⟩
      · obtain rfl := List.mem_singleton.mp h
        refine ⟨before, d, [], rfl, rfl, fun k hk hsame => hnew ?_⟩
        rw [← lists_iff, lists_after_iff]
        exact ⟨k, hk, hsame⟩

/-! ## Lines -/

def ListsDirectory (line : List Char) : Prop := "LDIR-y+=".toList <+: line

instance (line : List Char) : Decidable (ListsDirectory line) :=
  inferInstanceAs (Decidable (_ <+: _))

/-- The line of a library, static before dynamic, by what occurs in its name. -/
def linkLine? (output : String) : Option (List Char) :=
  if ".a".toList <:+: output.toList then some ("SLIB-y+=".toList ++ output.toList)
  else if ".so".toList <:+: output.toList then some ("DLIB-y+=".toList ++ output.toList)
  else none

namespace Delivery

def lines (d : Delivery) : List (List Char) :=
  d.manifest.outputs.filterMap linkLine? ++
    d.manifest.includes.map (fun directory =>
      "INC-y+=".toList ++ (d.checkout.joinNormal directory).text.toList) ++
    ["REPO-y+=".toList ++ d.checkout.text.toList]

def text (before : List Delivery) (d : Delivery) : String :=
  ((after before).record d.checkout d.out d.manifest).1

end Delivery

theorem occursIn_iff {part cs : List Char} : Text.occursIn part cs = true ↔ part <:+: cs := by
  induction cs with
  | nil => simp [Text.occursIn]
  | cons c cs ih => simp [Text.occursIn, ih, List.infix_cons_iff]

theorem linkLine?_eq (output : String) :
    (libraryLine? output).map (fun line => line.toList.dropLast) = linkLine? output := by
  unfold libraryLine? LibraryKind.of? linkLine?
  simp only [occursIn_iff]
  by_cases ha : ".a".toList <:+: output.toList
  · simp only [ha, if_true, Option.map_some, dropLast_line]
  · by_cases hso : ".so".toList <:+: output.toList
    · simp only [ha, hso, if_true, if_false, Option.map_some, dropLast_line]
    · simp only [ha, hso, if_false, Option.map_none]

theorem lines_eq (d : Delivery) :
    (packageLines d.checkout d.manifest).map (fun line => line.toList.dropLast) = d.lines := by
  have hlinks : (fun output => (libraryLine? output).map fun line => line.toList.dropLast) =
      linkLine? := funext linkLine?_eq
  simp only [packageLines, Delivery.lines, List.map_append, List.map_filterMap, hlinks, List.map_map,
    List.map_singleton, Function.comp_def, dropLast_line]

theorem not_listsDirectory_of_mem_lines {line : List Char} (h : line ∈ d.lines) :
    ¬ ListsDirectory line := by
  have hmarks : ∀ mark ∈ packageMarks, mark.toList.head? ≠ some 'L' ∧ mark.toList ≠ [] := by decide
  rw [← lines_eq] at h
  obtain ⟨whole, hwhole, rfl⟩ := List.mem_map.mp h
  obtain ⟨mark, hmark, text, rfl, -⟩ := packageLines_cases hwhole
  obtain ⟨hhead, hne⟩ := hmarks mark hmark
  rw [dropLast_line]
  rintro ⟨rest, he⟩
  have hfirst := congrArg List.head? he
  rw [List.head?_append_of_ne_nil _ hne] at hfirst
  exact hhead hfirst.symm

theorem listsDirectory_directoryText (p : Path) : ListsDirectory (directoryText p) :=
  List.prefix_append _ _

theorem split_text (before : List Delivery) (h : OneLined d.checkout d.out d.manifest) :
    Text.split '\n' (d.text before).toList =
      (d.lines ++ if ∃ e ∈ before, e.out.components = d.out.components then []
        else [directoryText d.out]) ++ [[]] := by
  have hlines : (after before).entryLines d.checkout d.out d.manifest =
      d.lines ++ if ∃ e ∈ before, e.out.components = d.out.components then []
        else [directoryText d.out] := by
    rw [entryLines, List.map_append, lines_eq]
    simp only [lists_after_iff]
    split
    · rw [List.map_nil]
    · have hline : (directoryLine d.out).toList.dropLast = directoryText d.out := dropLast_line _ _
      rw [List.map_singleton, hline]
  rw [← hlines, Delivery.text, toList_record, Text.split_ended]
  exact fun line => not_mem_of_mem_entryLines h

/-- What a package adds to a ledger after others, in lines: the line of its library directory comes
last and is there only if no package before has the same directory, and the rest is its own. -/
structure Entered (before : List Delivery) (d : Delivery) (lines : List (List Char)) : Prop where
  text : Text.split '\n' (d.text before).toList = lines ++ [[]]
  listed : (∃ line ∈ lines, ListsDirectory line) ↔
    ∀ e ∈ before, e.out.components ≠ d.out.components
  last : ∀ front line rest, lines = front ++ line :: rest → ListsDirectory line →
    line = directoryText d.out ∧ rest = []
  others : lines.filter (fun line => ¬ ListsDirectory line) = d.lines

theorem exists_entered (before : List Delivery) (h : OneLined d.checkout d.out d.manifest) :
    ∃ lines, Entered before d lines := by
  have hown : ∀ line ∈ d.lines, ¬ ListsDirectory line := fun _ => not_listsDirectory_of_mem_lines
  have hothers : d.lines.filter (fun line => ¬ ListsDirectory line) = d.lines :=
    List.filter_eq_self.mpr fun line hline => decide_eq_true (hown line hline)
  have htext := split_text before h
  by_cases hsame : ∃ e ∈ before, e.out.components = d.out.components
  · rw [if_pos hsame, List.append_nil] at htext
    refine ⟨d.lines, htext, ?_, ?_, hothers⟩
    · refine iff_of_false ?_ fun hnew => ?_
      · rintro ⟨line, hline, hlists⟩
        exact hown line hline hlists
      · obtain ⟨e, he, hout⟩ := hsame
        exact hnew e he hout
    · intro front line rest he hlists
      exact absurd hlists (hown line (he ▸ List.mem_append_right front List.mem_cons_self))
  · have hlists := listsDirectory_directoryText d.out
    rw [if_neg hsame] at htext
    refine ⟨_, htext, ?_, ?_, ?_⟩
    · refine iff_of_true ⟨_, List.mem_append_right _ (List.mem_singleton_self _), hlists⟩ ?_
      exact fun e he hout => hsame ⟨e, he, hout⟩
    · intro front line rest he hline
      rcases List.eq_nil_or_concat rest with rfl | ⟨rest, last, rfl⟩
      · obtain ⟨-, hlast⟩ := List.append_inj' he rfl
        exact ⟨(List.singleton_inj.mp hlast).symm, rfl⟩
      · rw [List.concat_eq_append, ← List.cons_append, ← List.append_assoc] at he
        obtain ⟨hfront, -⟩ := List.append_inj' he rfl
        exact absurd hline (hown line (hfront ▸ List.mem_append_right front List.mem_cons_self))
    · simpa [List.filter_append, hlists] using hown

/-! ## Ledgers of many packages -/

/-- A ledger lists each library directory once, in the order and the spelling of the packages that have
it first, and such a package ends with the line that lists it. The other lines of a package are those
that it has in a ledger of its own. -/
theorem directories_listed_once (before : List Delivery) (d : Delivery)
    (h : OneLined d.checkout d.out d.manifest) :
    (∃ lines alone, Entered before d lines ∧ Entered [] d alone ∧
      lines.filter (fun line => ¬ ListsDirectory line) =
        alone.filter (fun line => ¬ ListsDirectory line) ∧
      ∀ e ∈ before, Relation.EqvGen Path.Padded e.out d.out →
        ∀ line ∈ lines, ¬ ListsDirectory line) ∧
    FirstsOf (before.map fun e => e.out.components)
      ((after before).directories.map Path.components) ∧
    ∀ p ∈ (after before).directories, ∃ front e rest, before = front ++ e :: rest ∧ e.out = p ∧
      ∀ k ∈ front, k.out.components ≠ p.components := by
  obtain ⟨lines, hlines⟩ := exists_entered before h
  obtain ⟨alone, halone⟩ := exists_entered [] h
  refine ⟨⟨lines, alone, hlines, halone, hlines.others.trans halone.others.symm, ?_⟩, ?_, ?_⟩
  · intro e he hpadded line hline hlists
    exact hlines.listed.mp ⟨line, hline, hlists⟩ e he (Path.components_eq_of_padded hpadded)
  · rw [components_after]
    exact firstsOf_eraseDups _
  · exact fun p => first_of_mem_after

namespace Respelled

def manifest : Manifest := ⟨"b", ["../inc"], ["libb.so", "notes", "libb.a"], [], none⟩

def first : Delivery := ⟨⟨"/p/a"⟩, ⟨"/p/dep"⟩, manifest⟩

def second : Delivery := ⟨⟨"/p/b"⟩, ⟨"/p//./dep/"⟩, manifest⟩

theorem padded : Relation.EqvGen Path.Padded first.out second.out := by
  have hend : Path.Padded ⟨"/p/dep/"⟩ first.out :=
    @Path.Padded.piece _ _ [] [] [['p'], "dep".toList] [] (.inl rfl) rfl rfl rfl
  have hdot : Path.Padded ⟨"/p/./dep/"⟩ ⟨"/p/dep/"⟩ :=
    @Path.Padded.piece _ _ [] ['.'] [['p']] ["dep".toList, []] (.inr rfl) rfl rfl rfl
  have hslash : Path.Padded second.out ⟨"/p/./dep/"⟩ :=
    @Path.Padded.piece _ _ [] [] [['p']] [['.'], "dep".toList, []] (.inl rfl) rfl rfl rfl
  exact .symm _ _ (.trans _ _ _ (.rel _ _ hslash) (.trans _ _ _ (.rel _ _ hdot) (.rel _ _ hend)))

end Respelled

theorem directories_listed_once_respelled :
    OneLined Respelled.second.checkout Respelled.second.out Respelled.second.manifest ∧
      Respelled.second.text [Respelled.first] =
        "DLIB-y+=libb.so\nSLIB-y+=libb.a\nINC-y+=/p/inc\nREPO-y+=/p/b\n" ∧
      (∃ lines, Entered [Respelled.first] Respelled.second lines ∧
        ∀ line ∈ lines, ¬ ListsDirectory line) ∧
      FirstsOf [Respelled.first.out.components]
        ((after [Respelled.first]).directories.map Path.components) := by
  have hlined : OneLined Respelled.second.checkout Respelled.second.out Respelled.second.manifest := by
    decide
  obtain ⟨⟨lines, -, hlines, -, -, hrepeated⟩, hfirsts, -⟩ :=
    directories_listed_once [Respelled.first] Respelled.second hlined
  refine ⟨hlined, by decide +kernel, ⟨lines, hlines, ?_⟩, hfirsts⟩
  exact hrepeated Respelled.first (List.mem_singleton_self _) Respelled.padded

end Ledger

end MakeConfig
