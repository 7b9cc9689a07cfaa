import MakeConfig.Proofs.Package.Places
import MakeConfig.Proofs.Package.Turns
import Mathlib.Data.List.Perm.Basic

/-! # Ledgers after a run

A run that starts without old ledgers leaves the entries of its own turns and nothing else: a ledger
in every directory with a schema whose repos were handled, and no ledger elsewhere. Ledgers forget
nothing that was listed before in the same run, so a library directory is listed in one place only,
wherever its packages are named.
-/

namespace MakeConfig

/-! ## Lines -/

namespace Ledger

/-- What an entry is made of has no line feeds in it. -/
structure OneLined (checkout out : Path) (m : Manifest) : Prop where
  checkout : '\n' ∉ checkout.text.toList
  out : '\n' ∉ out.text.toList
  outputs : ∀ output ∈ m.outputs, '\n' ∉ output.toList
  includes : ∀ directory ∈ m.includes, '\n' ∉ directory.toList

instance (checkout out : Path) (m : Manifest) : Decidable (OneLined checkout out m) :=
  decidable_of_iff
    (('\n' ∉ checkout.text.toList ∧ '\n' ∉ out.text.toList) ∧
      (∀ output ∈ m.outputs, '\n' ∉ output.toList) ∧
      ∀ directory ∈ m.includes, '\n' ∉ directory.toList)
    ⟨fun h => ⟨h.1.1, h.1.2, h.2.1, h.2.2⟩,
      fun h => ⟨⟨h.checkout, h.out⟩, h.outputs, h.includes⟩⟩

def packageMarks : List String := ["SLIB-y+=", "DLIB-y+=", "INC-y+=", "REPO-y+="]

def directoryText (out : Path) : List Char := "LDIR-y+=".toList ++ out.text.toList

def entryLines (l : Ledger) (checkout out : Path) (m : Manifest) : List (List Char) :=
  (packageLines checkout m ++ if l.lists out then [] else [directoryLine out]).map
    fun line => line.toList.dropLast

variable {l : Ledger} {checkout out : Path} {m : Manifest}

theorem libraryLine?_cases {output line : String} (h : libraryLine? output = some line) :
    ∃ mark ∈ packageMarks, line = mark ++ output ++ "\n" := by
  unfold libraryLine? at h
  split at h
  · exact ⟨"SLIB-y+=", by decide, (Option.some.inj h).symm⟩
  · exact ⟨"DLIB-y+=", by decide, (Option.some.inj h).symm⟩
  · cases h

theorem packageLines_cases {line : String} (h : line ∈ packageLines checkout m) :
    ∃ mark ∈ packageMarks, ∃ text, line = mark ++ text ++ "\n" ∧
      (text ∈ m.outputs ∨ (∃ directory ∈ m.includes, text = (checkout.joinNormal directory).text) ∨
        text = checkout.text) := by
  simp only [packageLines, List.mem_append, List.mem_filterMap, List.mem_map,
    List.mem_singleton] at h
  rcases h with (⟨output, ho, hline⟩ | ⟨directory, hd, rfl⟩) | rfl
  · obtain ⟨mark, hmark, rfl⟩ := libraryLine?_cases hline
    exact ⟨mark, hmark, output, rfl, .inl ho⟩
  · exact ⟨"INC-y+=", by decide, _, rfl, .inr (.inl ⟨directory, hd, rfl⟩)⟩
  · exact ⟨"REPO-y+=", by decide, _, rfl, .inr (.inr rfl)⟩

theorem OneLined.text (h : OneLined checkout out m) {text : String}
    (ht : text ∈ m.outputs ∨
      (∃ directory ∈ m.includes, text = (checkout.joinNormal directory).text) ∨
      text = checkout.text) : '\n' ∉ text.toList := by
  rcases ht with ht | ⟨directory, hd, rfl⟩ | rfl
  · exact h.outputs text ht
  · intro hc
    rcases Path.mem_text_normal hc with hc | hc | hc
    · cases hc
    · cases hc
    rcases Path.mem_text_joinText hc with hc | hc | hc
    · cases hc
    · exact h.checkout hc
    · exact h.includes directory hd hc
  · exact h.checkout

theorem toList_record (l : Ledger) (checkout out : Path) (m : Manifest) :
    (l.record checkout out m).1.toList = Text.ended (l.entryLines checkout out m) := by
  have hended : ∀ lines : List String, (∀ line ∈ lines, ∃ text, line = text ++ "\n") →
      (String.join lines).toList = Text.ended (lines.map fun line => line.toList.dropLast) := by
    intro lines hlines
    rw [String.toList_join, Text.ended, List.flatMap_map]
    refine List.flatMap_congr fun line hline => ?_
    obtain ⟨text, rfl⟩ := hlines line hline
    simp
  have hpackage : ∀ line ∈ packageLines checkout m, ∃ text, line = text ++ "\n" := by
    intro line hline
    obtain ⟨mark, -, text, rfl, -⟩ := packageLines_cases hline
    exact ⟨mark ++ text, rfl⟩
  unfold record entryLines
  dsimp only
  split
  · rw [hended _ hpackage, List.append_nil]
  · refine hended _ fun line hline => ?_
    rcases List.mem_append.mp hline with hline | hline
    · exact hpackage line hline
    · exact ⟨_, List.mem_singleton.mp hline⟩

theorem dropLast_line (mark text : String) :
    (mark ++ text ++ "\n").toList.dropLast = mark.toList ++ text.toList := by
  simp

theorem not_mem_of_mem_entryLines (h : OneLined checkout out m) {line : List Char}
    (hl : line ∈ l.entryLines checkout out m) : '\n' ∉ line := by
  have hmarks : ∀ mark ∈ packageMarks, '\n' ∉ mark.toList := by decide
  obtain ⟨line, hline, rfl⟩ := List.mem_map.mp hl
  rcases List.mem_append.mp hline with hline | hline
  · obtain ⟨mark, hmark, text, rfl, htext⟩ := packageLines_cases hline
    rw [dropLast_line, List.mem_append]
    exact fun hc => hc.elim (hmarks mark hmark) (h.text htext)
  · split at hline
    · cases hline
    · rw [List.mem_singleton.mp hline, directoryLine, dropLast_line, List.mem_append]
      exact fun hc => hc.elim (by decide) h.out

theorem directoryText_injective {d d' : Path} (h : directoryText d = directoryText d') : d = d' := by
  have htext := String.toList_inj.mp (List.append_cancel_left h)
  cases d
  cases d'
  exact congrArg Path.mk htext

theorem directoryText_ne_nil (d : Path) : directoryText d ≠ [] :=
  List.append_ne_nil_of_left_ne_nil (by decide) _

theorem count_entryLines (d : Path) :
    (l.entryLines checkout out m).count (directoryText d) =
      if l.lists out = false ∧ out = d then 1 else 0 := by
  have hmarks : ∀ mark ∈ packageMarks, mark.toList.head? ≠ some 'L' ∧ mark.toList ≠ [] := by decide
  have hpackage : directoryText d ∉
      (packageLines checkout m).map fun line => line.toList.dropLast := by
    intro hmem
    obtain ⟨line, hline, he⟩ := List.mem_map.mp hmem
    obtain ⟨mark, hmark, text, rfl, -⟩ := packageLines_cases hline
    obtain ⟨hhead, hne⟩ := hmarks mark hmark
    have hfirst := congrArg List.head? he
    rw [dropLast_line, List.head?_append_of_ne_nil _ hne] at hfirst
    exact hhead hfirst
  have hline : (directoryLine out).toList.dropLast = directoryText out := dropLast_line _ _
  rw [entryLines, List.map_append, List.count_append, List.count_eq_zero.mpr hpackage, Nat.zero_add]
  cases hlists : l.lists out with
  | true => simp
  | false =>
    by_cases hd : out = d
    · subst hd
      simp [hline]
    · have hne : directoryText out ≠ directoryText d := fun he => hd (directoryText_injective he)
      simp [hline, hd, hne]

theorem lists_record (l : Ledger) (checkout out : Path) (m : Manifest) (d : Path) :
    (l.record checkout out m).2.lists d = true ↔ l.lists d = true ∨ d.same out = true := by
  unfold record
  dsimp only
  split
  · next hout =>
    refine ⟨.inl, fun h => h.elim id fun hsame => ?_⟩
    obtain ⟨q, hq, hsame'⟩ := List.any_eq_true.mp hout
    refine List.any_eq_true.mpr ⟨q, hq, ?_⟩
    exact beq_iff_eq.mpr ((beq_iff_eq.mp hsame).trans (beq_iff_eq.mp hsame'))
  · simp [lists, List.any_append]

end Ledger

namespace Package

open Ledger

section Lines

variable {tools : Tools} {vars : Variables Handle} {name : String}

def Turn.lines? (tools : Tools) (vars : Variables Handle) (name : String) (turn : Turn) :
    Option (Path × List (List Char)) :=
  (turn.manifest? tools vars name).map fun manifest =>
    (turn.path name, turn.ledger.entryLines (turn.checkout vars) (turn.out vars) manifest)

/-- Lines in a text, under the ledger that they go to. -/
def inText (e : Path × List (List Char)) : Path × String := (e.1, String.ofList (Text.ended e.2))

theorem placed_entries (turns : List Turn) :
    placed name (turns.filterMap (Turn.addition? tools vars name)) =
      (turns.filterMap (Turn.lines? tools vars name)).map inText := by
  rw [placed, List.map_filterMap, List.map_filterMap]
  refine List.filterMap_congr fun turn _ => ?_
  rw [Turn.addition?, Turn.lines?, Option.map_map, Option.map_map]
  congr 1
  funext manifest
  simp only [Function.comp_apply, inText, ← toList_record, String.ofList_toList]
  rfl

theorem Turn.isNormal_out (turn : Turn) (vars : Variables Handle) : (turn.out vars).IsNormal :=
  Binding.isNormal_pathWith _ _

/-! ## Counts -/

variable {ledger : Ledger} {machine : Machine} {sites : List RepoSite} {turns : List Turn}
  {result : Except RunError Ledger × Machine}

theorem Runs.count_of_listed (h : Runs tools vars name ledger machine sites turns result) {d : Path}
    (hd : ledger.lists d = true) :
    ((turns.filterMap (Turn.lines? tools vars name)).flatMap Prod.snd).count (directoryText d) =
      0 := by
  induction h with
  | finished => rfl
  | failed hm => simp [Turn.lines?, hm]
  | @done turn manifest machine sites turns result hm _ _ ih =>
    have hrest := ih ((lists_record _ _ _ _ _).mpr (.inl hd))
    have hself : ¬ (turn.ledger.lists (turn.out vars) = false ∧ turn.out vars = d) := by
      rintro ⟨hnew, rfl⟩
      cases hd.symm.trans hnew
    simp [Turn.lines?, hm, count_entryLines, hself, hrest]

theorem Runs.count_of_done (h : Runs tools vars name ledger machine sites turns result) {d : Path}
    (hnormal : d.IsNormal) (hnew : ledger.lists d = false)
    (hd : ∃ turn ∈ turns, (turn.manifest? tools vars name).isSome = true ∧ turn.out vars = d) :
    ((turns.filterMap (Turn.lines? tools vars name)).flatMap Prod.snd).count (directoryText d) =
      1 := by
  induction h with
  | finished =>
    obtain ⟨turn, ⟨⟩, -⟩ := hd
  | @failed turn e hm sites =>
    obtain ⟨last, hlast, hdone, -⟩ := hd
    obtain rfl := List.mem_singleton.mp hlast
    rw [hm] at hdone
    cases hdone
  | @done turn manifest machine sites turns result hm _ hruns ih =>
    have hout := turn.isNormal_out vars
    by_cases hself : turn.out vars = d
    · have hlisted := hruns.count_of_listed (d := d)
        ((lists_record _ _ _ _ _).mpr (.inr (hself ▸ beq_self_eq_true _)))
      simp [Turn.lines?, hm, count_entryLines, hself, hnew, hlisted]
    · have hrest := ih ?_ ?_
      · simp [Turn.lines?, hm, count_entryLines, hself, hrest]
      · rw [← Bool.not_eq_true, Turn.record, lists_record]
        rintro (hlists | hsame)
        · cases hnew.symm.trans hlists
        · exact hself (hnormal.eq_of_same hout hsame).symm
      · obtain ⟨k, hk, hdone, hkd⟩ := hd
        rcases List.mem_cons.mp hk with rfl | hk
        · exact absurd hkd hself
        · exact ⟨k, hk, hdone, hkd⟩

end Lines

/-! ## Texts of ledgers -/

theorem perm_flatMap_filter {β : Type} {keys : List Path} (hkeys : keys.Nodup)
    {entries : List (Path × β)} (h : ∀ e ∈ entries, e.1 ∈ keys) :
    (keys.flatMap fun key => entries.filter (·.1 = key)).Perm entries := by
  induction keys generalizing entries with
  | nil =>
    rw [List.eq_nil_iff_forall_not_mem.mpr fun e he => List.not_mem_nil (h e he)]
    rfl
  | cons key keys ih =>
    obtain ⟨hfresh, hkeys⟩ := List.nodup_cons.mp hkeys
    have hothers := @ih hkeys (entries.filter fun e => !decide (e.1 = key)) fun e he => by
      obtain ⟨he, hne⟩ := List.mem_filter.mp he
      exact (List.mem_cons.mp (h e he)).resolve_left (by simpa using hne)
    have hsame : (keys.flatMap fun k => (entries.filter fun e => !decide (e.1 = key)).filter (·.1 = k)) =
        keys.flatMap fun k => entries.filter (·.1 = k) := by
      refine List.flatMap_congr fun k hk => ?_
      rw [List.filter_filter]
      refine List.filter_congr fun e _ => ?_
      have hne : k ≠ key := fun he => hfresh (he ▸ hk)
      by_cases he : e.1 = k <;> simp [he, hne]
    rw [hsame] at hothers
    rw [List.flatMap_cons]
    exact (hothers.append_left _).trans (List.filter_append_perm _ _)

theorem toList_ledgerText? (entries : List (Path × List (List Char))) (p : Path) :
    ((ledgerText? (entries.map inText) p).getD "").toList =
      Text.ended ((entries.filter (·.1 = p)).flatMap Prod.snd) := by
  have hfilter : (entries.map inText).filter (·.1 = p) = (entries.filter (·.1 = p)).map inText := by
    rw [List.filter_map]
    rfl
  unfold ledgerText?
  rw [hfilter]
  cases entries.filter (·.1 = p) with
  | nil => rfl
  | cons e es =>
    simp [inText, Text.ended, String.toList_join, List.flatMap_map, List.flatMap_assoc,
      Function.comp_def]

theorem Recorded.text? {paths : List Path} {entries : List (Path × String)} {fs : FileSystem}
    (h : Recorded paths entries fs) {p : Path} (hp : p ∈ paths) :
    fs.text? p = ledgerText? entries p := by
  have hread : ∀ text : String, String.fromUTF8? text.toUTF8 = some text := fun text =>
    dif_pos text.isValidUTF8
  rw [FileSystem.text?, FileSystem.content?_eq_fileAt? (h.plain p hp), h.texts p hp]
  cases ledgerText? entries p with
  | none => rfl
  | some text => exact hread text

/-- The lines of all ledgers together are those of the entries. -/
theorem Recorded.count_lines {paths : List Path} {entries : List (Path × List (List Char))}
    {fs : FileSystem} (h : Recorded paths (entries.map inText) fs) (hpaths : paths.Nodup)
    (hkeys : ∀ e ∈ entries, e.1 ∈ paths) (hlines : ∀ e ∈ entries, ∀ line ∈ e.2, '\n' ∉ line)
    {line : List Char} (hline : line ≠ []) :
    (paths.flatMap fun p => Text.split '\n' ((fs.text? p).getD "").toList).count line =
      (entries.flatMap Prod.snd).count line := by
  have hone : ∀ p ∈ paths, (Text.split '\n' ((fs.text? p).getD "").toList).count line =
      ((entries.filter (·.1 = p)).flatMap Prod.snd).count line := by
    intro p hp
    have hfree : ∀ k ∈ (entries.filter (·.1 = p)).flatMap Prod.snd, '\n' ∉ k := by
      intro k hk
      obtain ⟨e, he, hk⟩ := List.mem_flatMap.mp hk
      exact hlines e (List.mem_of_mem_filter he) k hk
    rw [h.text? hp, toList_ledgerText?, Text.split_ended hfree, List.count_append,
      List.count_singleton, if_neg (by simpa using hline.symm), Nat.add_zero]
  have hperm := (perm_flatMap_filter hpaths hkeys).flatMap_right Prod.snd
  have hall : (paths.map (List.count line ∘
        fun p => Text.split '\n' ((fs.text? p).getD "").toList)) =
      paths.map (List.count line ∘ fun p => (entries.filter (·.1 = p)).flatMap Prod.snd) :=
    List.map_congr_left hone
  rw [List.count_flatMap, hall, ← List.count_flatMap, ← List.flatMap_assoc, hperm.count_eq]

/-! ## Runs of trees -/

section Runs

variable (tools : Tools) (rules : LedgerRules) (t : Tree) (cleaned : Machine)

def turnsOf : List Turn := turns tools t.vars rules.name .empty cleaned t.repoSites

/-- Ledgers are files that nothing but the run itself changes, and what it writes to them has no line
feeds. -/
structure Undisturbed : Prop where
  plain : ∀ p ∈ ledgerPaths rules.name t, ∀ zeros, cleaned.files.entry? p ≠ some (.device zeros)
  quiet : ∀ turn ∈ turnsOf tools rules t cleaned,
    turn.Quiet tools t.vars (ledgerPaths rules.name t)
  oneLined : ∀ turn ∈ turnsOf tools rules t cleaned,
    ∀ manifest ∈ turn.manifest? tools t.vars rules.name,
      OneLined (turn.checkout t.vars) (turn.out t.vars) manifest

instance : Decidable (Undisturbed tools rules t cleaned) :=
  decidable_of_iff
    ((∀ p ∈ ledgerPaths rules.name t, ∀ zeros, cleaned.files.entry? p ≠ some (.device zeros)) ∧
      ∀ turn ∈ turnsOf tools rules t cleaned, turn.Quiet tools t.vars (ledgerPaths rules.name t) ∧
        ∀ manifest ∈ turn.manifest? tools t.vars rules.name,
          OneLined (turn.checkout t.vars) (turn.out t.vars) manifest)
    ⟨fun h => ⟨h.1, fun turn ht => (h.2 turn ht).1, fun turn ht => (h.2 turn ht).2⟩,
      fun h => ⟨h.plain, fun turn ht => ⟨h.quiet turn ht, h.oneLined turn ht⟩⟩⟩

/-- What a run comes to: the repos have their turns in order until one fails, ledgers hold the entries
of the turns that ended well, by directory, and list each library directory once. -/
structure Accounted (result : Except RunError Unit × Machine) : Prop where
  turns : (result.1 = .ok () ∧ (turnsOf tools rules t cleaned).map Turn.site = t.repoSites ∧
      ∀ turn ∈ turnsOf tools rules t cleaned,
        (turn.manifest? tools t.vars rules.name).isSome = true) ∨
    ∃ front last rest e, result.1 = .error e ∧
      turnsOf tools rules t cleaned = front ++ [last] ∧
      t.repoSites = (front ++ [last]).map Turn.site ++ rest ∧
      (∀ turn ∈ front, (turn.manifest? tools t.vars rules.name).isSome = true) ∧
      last.manifest? tools t.vars rules.name = none
  placed : ∀ id node parsed, t.node? id = some node → node.parsed? = some parsed →
    ∃ directory, parsed.file.parent? = some directory
  held : ∀ directory, t.SchemaDirectory directory →
    result.2.files.fileAt? (directory.joinText rules.name) =
      (ledgerText? ((turnsOf tools rules t cleaned).filterMap (Turn.addition? tools t.vars rules.name))
        directory).map String.toUTF8
  ledgers : (ledgerPaths rules.name t).Nodup ∧ ∀ p, p ∈ ledgerPaths rules.name t ↔
    ∃ directory, t.SchemaDirectory directory ∧ directory.joinText rules.name = p
  listed : ∀ turn ∈ turnsOf tools rules t cleaned,
    (turn.manifest? tools t.vars rules.name).isSome = true →
    ((ledgerPaths rules.name t).flatMap fun p =>
      Text.split '\n' ((result.2.files.text? p).getD "").toList).count
        (directoryText (turn.out t.vars)) = 1

end Runs

/-! ## An example -/

namespace Shared

def rootText : String :=
  "\x7b\"foo\":\x7b\"type\":\"repo\"\x7d," ++
  "\"d\":\x7b\"type\":\"config\",\"path\":\"d/config.json\"\x7d\x7d"

def childText : String :=
  "\x7b\"bar\":\x7b\"type\":\"repo\",\"out\":\"../dep\"\x7d," ++
  "\"baz\":\x7b\"type\":\"repo\"\x7d\x7d"

/-- Two schemas with checkouts of two of their three packages, and ledgers of an earlier run. -/
def files : FileSystem where
  workingDirectory := ⟨"/"⟩
  entries := [(["config.json"], .file rootText.toUTF8 false),
    (["foo"], .directory),
    (["foo", "package.json"], .file "\x7b\"name\":\"foo\"\x7d".toUTF8 false),
    (["d"], .directory),
    (["d", "config.json"], .file childText.toUTF8 false),
    (["d", "bar"], .directory),
    (["d", "bar", "package.json"], .file "\x7b\"name\":\"bar\"\x7d".toUTF8 false),
    (["rules.mk"], .file "stale\n".toUTF8 false),
    (["d", "rules.mk"], .file "stale\n".toUTF8 false)]

def around : Surroundings := ⟨files, ⟨[], .checked⟩⟩

def once : Tree := ((Tree.plant "config.json" ⟨"/"⟩).parse around Tree.root).2

def tree : Tree := (once.parse around ⟨1⟩).2

theorem reachable_tree : tree.Reachable :=
  .call (.call (.plant _ _) (.parse around _ Tree.root)) (.parse around once ⟨1⟩)

def tools : Tools := ⟨fun _ _ m => (false, m), fun _ _ m => (true, m)⟩

def rules : LedgerRules := ⟨"rules.mk", true⟩

def machine : Machine := ⟨files, ""⟩

def cleaned : Machine := ((cleanLedgers rules.name tree).run machine).2

def after : Except RunError Unit × Machine := (processAll tools rules tree).run machine

end Shared

/-! ## Ledgers of runs -/

section Theorem

variable {tools : Tools} {rules : LedgerRules} {t : Tree} {m cleaned : Machine}

theorem run_processAll (hclean : rules.clean = true)
    (hcleaned : (cleanLedgers rules.name t).run m = (.ok (), cleaned)) :
    (processAll tools rules t).run m =
      let after := (t.repoSites.foldlM (process tools t.vars rules.name) .empty).run cleaned
      (after.1.map fun _ => (), after.2) := by
  have hall : processAll tools rules t = cleanLedgers rules.name t >>= fun _ =>
      t.repoSites.foldlM (process tools t.vars rules.name) .empty >>= fun _ => pure () := by
    simp [processAll, hclean]
  rw [hall, Machine.Task.run_bind, hcleaned]
  dsimp only
  rw [Machine.Task.run_bind]
  rcases (t.repoSites.foldlM (process tools t.vars rules.name) .empty).run cleaned with ⟨r, after⟩
  cases r <;> rfl

theorem schemaDirectory_of_addition (ht : t.Reachable) {turns : List Turn}
    (hturns : ∀ turn ∈ turns, turn.site ∈ t.repoSites) {name : String} :
    ∀ e ∈ turns.filterMap (Turn.addition? tools t.vars name), t.SchemaDirectory e.1 := by
  intro e he
  obtain ⟨turn, hturn, he⟩ := List.mem_filterMap.mp he
  obtain ⟨manifest, -, rfl⟩ := Option.map_eq_some_iff.mp he
  exact ht.schemaDirectory_of_mem_repoSites (hturns turn hturn)

/-- A run that lists nothing at its start lists the library directory of each turn that ended well in
one line of all ledgers. -/
theorem Runs.listed {vars : Variables Handle} {name : String} {sites : List RepoSite}
    {turns : List Turn} {result : Except RunError Ledger × Machine} {paths : List Path}
    (h : Runs tools vars name .empty cleaned sites turns result) (hpaths : paths.Nodup)
    (hsites : ∀ site ∈ sites, site.base.joinText name ∈ paths)
    (hlined : ∀ turn ∈ turns, ∀ manifest ∈ turn.manifest? tools vars name,
      OneLined (turn.checkout vars) (turn.out vars) manifest)
    (hr : Recorded paths (placed name (turns.filterMap (Turn.addition? tools vars name)))
      result.2.files) {turn : Turn} (hturn : turn ∈ turns)
    (hdone : (turn.manifest? tools vars name).isSome = true) :
    (paths.flatMap fun p => Text.split '\n' ((result.2.files.text? p).getD "").toList).count
      (directoryText (turn.out vars)) = 1 := by
  have hnew : Ledger.empty.lists (turn.out vars) = false := rfl
  have hcount := h.count_of_done (turn.isNormal_out vars) hnew ⟨turn, hturn, hdone, rfl⟩
  rw [placed_entries] at hr
  rw [hr.count_lines hpaths ?_ ?_ (directoryText_ne_nil _), hcount]
  · intro e he
    obtain ⟨turn, hturn, he⟩ := List.mem_filterMap.mp he
    obtain ⟨manifest, -, rfl⟩ := Option.map_eq_some_iff.mp he
    exact hsites turn.site (h.mem_sites turn hturn)
  · intro e he line hline
    obtain ⟨turn, hturn, he⟩ := List.mem_filterMap.mp he
    obtain ⟨manifest, hm, rfl⟩ := Option.map_eq_some_iff.mp he
    exact not_mem_of_mem_entryLines (hlined turn hturn manifest hm) hline

/-- After a run that removed the old ledgers, the ledgers beside the schemas of the tree hold exactly
the entries of its turns, whether it ended well or failed. -/
theorem ledgers_hold_run (ht : t.Reachable) (hclean : rules.clean = true)
    (hname : Path.IsName rules.name)
    (hcleaned : (cleanLedgers rules.name t).run m = (.ok (), cleaned))
    (hu : Undisturbed tools rules t cleaned) :
    Accounted tools rules t cleaned ((processAll tools rules t).run m) := by
  obtain ⟨hnodup, hmem⟩ := ht.ledgerPaths_listed hname
  have hruns : Runs tools t.vars rules.name .empty cleaned t.repoSites
      (turnsOf tools rules t cleaned)
      ((t.repoSites.foldlM (process tools t.vars rules.name) .empty).run cleaned) :=
    runs .empty cleaned t.repoSites
  have hsites : ∀ site ∈ t.repoSites, site.base.joinText rules.name ∈ ledgerPaths rules.name t :=
    fun site hs => (hmem _).mpr ⟨site.base, ht.schemaDirectory_of_mem_repoSites hs, rfl⟩
  have hbefore : Recorded (ledgerPaths rules.name t) [] cleaned.files :=
    ⟨(fileAt?_of_removed hcleaned).1, hu.plain⟩
  have hrecorded := hruns.recorded hsites hu.quiet hbefore
  rw [List.nil_append] at hrecorded
  rw [run_processAll hclean hcleaned]
  dsimp only
  generalize (t.repoSites.foldlM (process tools t.vars rules.name) .empty).run cleaned = after at *
  constructor
  case turns =>
    rcases hruns.outcome with ⟨last, hok, hturns⟩ | ⟨front, last, rest, e, herror, hturns⟩
    · exact .inl ⟨by rw [hok]; rfl, hturns⟩
    · exact .inr ⟨front, last, rest, e, by rw [herror]; rfl, hturns⟩
  case placed =>
    intro id node parsed hn hp
    obtain ⟨r, -, hdirectory⟩ := ht.exists_directory hn hp
    exact ⟨r.directory, hdirectory⟩
  case held =>
    intro directory hd
    rw [hrecorded.texts _ ((hmem _).mpr ⟨directory, hd, rfl⟩), ledgerText?_placed]
    intro e he hsame
    have hd' := schemaDirectory_of_addition ht hruns.mem_sites e he
    exact ht.eq_of_joinText_eq hname hd' hd hsame
  case ledgers => exact ⟨hnodup, hmem⟩
  case listed => exact fun turn => hruns.listed hnodup hsites hu.oneLined hrecorded

end Theorem

/-- The last of three packages has no checkout, so the run fails there. Old ledgers are gone, both have
the lines of their packages, and the library directory that the packages share is listed once. -/
theorem ledgers_hold_run_shared :
    Shared.tree.Reachable ∧ Undisturbed Shared.tools Shared.rules Shared.tree Shared.cleaned ∧
      Accounted Shared.tools Shared.rules Shared.tree Shared.cleaned Shared.after ∧
      Shared.after.1.isOk = false ∧
      Shared.after.2.files.text? ⟨"/rules.mk"⟩ = some "REPO-y+=/foo\nLDIR-y+=/dep\n" ∧
      Shared.after.2.files.text? ⟨"/d/rules.mk"⟩ = some "REPO-y+=/d/bar\n" := by
  obtain ⟨hok, hu, hafter⟩ :
      ((cleanLedgers Shared.rules.name Shared.tree).run Shared.machine).1.isOk = true ∧
      Undisturbed Shared.tools Shared.rules Shared.tree Shared.cleaned ∧
      Shared.after.1.isOk = false ∧
      Shared.after.2.files.text? ⟨"/rules.mk"⟩ = some "REPO-y+=/foo\nLDIR-y+=/dep\n" ∧
      Shared.after.2.files.text? ⟨"/d/rules.mk"⟩ = some "REPO-y+=/d/bar\n" := by
    decide +kernel
  have hcleaned : (cleanLedgers Shared.rules.name Shared.tree).run Shared.machine =
      (.ok (), Shared.cleaned) := by
    refine Prod.ext ?_ rfl
    cases hresult : ((cleanLedgers Shared.rules.name Shared.tree).run Shared.machine).1 with
    | error e =>
      rw [hresult] at hok
      cases hok
    | ok u => rfl
  have haccounted := ledgers_hold_run Shared.reachable_tree rfl (by decide) hcleaned hu
  exact ⟨Shared.reachable_tree, hu, haccounted, hafter⟩

end Package

end MakeConfig
