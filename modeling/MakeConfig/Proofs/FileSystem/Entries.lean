import MakeConfig.Proofs.FileSystem.Ways
import MakeConfig.Proofs.Path.Parent

/-! # Entries of directories

A way to a name ends in a directory, which the way without the name leads to. So the parent of a path
leads to the directory with the entry that the path names, and what is put behind this parent is named in
the same directory.
-/

namespace MakeConfig.FileSystem

variable {fs : FileSystem} {directory p : Path} {l m : Location} {n : String}

/-! ## The last step of a way -/

/-- A location where an entry may be looked up by a name. -/
structure Admits (fs : FileSystem) (l : Location) (n : String) : Prop where
  directory : fs.barrierAt? l = none
  length : n.utf8ByteSize ≤ maxNameLength

theorem turn_name_eq_ok_iff {place : Location × Option String} :
    fs.turn l (.name n) = .ok place ↔
      fs.Admits l n ∧ place = (l ++ [n], fs.linkAt? (l ++ [n])) := by
  unfold turn
  cases hb : fs.barrierAt? l with
  | some fault =>
    refine iff_of_false (by rintro ⟨⟩) fun h => ?_
    cases hb.symm.trans h.1.directory
  | none =>
    dsimp only
    split
    · next hlong => exact iff_of_false (by rintro ⟨⟩) fun h => absurd h.1.length (by omega)
    · next hshort =>
      constructor
      · rintro ⟨⟩
        exact ⟨⟨hb, by omega⟩, rfl⟩
      · rintro ⟨-, rfl⟩
        rfl

section Directory

variable {jump jump' : Location → List Path.Component → Except FileFault Location}

theorem walkWith_directory {last : Bool}
    (hj : ∀ l cs m, jump l (cs ++ [.name n]) = .ok m →
      ∃ k, jump' l cs = .ok k ∧ fs.Admits k n)
    {cs : List Path.Component} (h : fs.walkWith jump last l (cs ++ [.name n]) = .ok m) :
    ∃ k, fs.walkWith jump' true l cs = .ok k ∧ fs.Admits k n := by
  induction cs generalizing l with
  | nil =>
    rw [List.nil_append, walkWith_cons] at h
    cases ht : fs.turn l (.name n) with
    | error fault =>
      rw [ht] at h
      cases h
    | ok place => exact ⟨l, rfl, (turn_name_eq_ok_iff.mp ht).1⟩
  | cons c cs ih =>
    rw [List.cons_append, walkWith_cons] at h
    rw [walkWith_cons]
    cases ht : fs.turn l c with
    | error fault =>
      rw [ht] at h
      cases h
    | ok place =>
      rw [ht] at h
      obtain ⟨k, link?⟩ := place
      cases link? with
      | none => exact ih h
      | some link =>
        simp only [List.isEmpty_iff, List.append_eq_nil_iff, List.cons_ne_self, and_false, false_and,
          if_false, ← List.append_assoc] at h
        simpa using hj _ _ _ h

theorem walkWith_entry {k : Location}
    (hj : ∀ l cs, jump' l cs = .ok k → jump l (cs ++ [.name n]) = .ok (k ++ [n]))
    (hn : fs.Admits k n) {cs : List Path.Component} (h : fs.walkWith jump' true l cs = .ok k) :
    fs.walkWith jump false l (cs ++ [.name n]) = .ok (k ++ [n]) := by
  induction cs generalizing l with
  | nil =>
    cases h
    rw [List.nil_append, walkWith_cons, turn_name_eq_ok_iff.mpr ⟨hn, rfl⟩]
    cases fs.linkAt? (k ++ [n]) <;> rfl
  | cons c cs ih =>
    rw [walkWith_cons] at h
    rw [List.cons_append, walkWith_cons]
    cases ht : fs.turn l c with
    | error fault =>
      rw [ht] at h
      cases h
    | ok place =>
      rw [ht] at h
      obtain ⟨m, link?⟩ := place
      cases link? with
      | none => exact ih h
      | some link =>
        dsimp only at h ⊢
        rw [if_neg (by simp)] at h ⊢
        rw [← List.append_assoc]
        exact hj _ _ h

end Directory

theorem walk_directory {last : Bool} {links : Nat} {cs : List Path.Component}
    (h : fs.walk last links l (cs ++ [.name n]) = .ok m) :
    ∃ k, fs.walk true links l cs = .ok k ∧ fs.Admits k n := by
  induction links generalizing l cs m with
  | zero => exact walkWith_directory (fun _ _ _ => by rintro ⟨⟩) h
  | succ links ih => exact walkWith_directory (fun _ _ _ => ih) h

theorem walk_entry {links : Nat} {k : Location} (hn : fs.Admits k n)
    {cs : List Path.Component} (h : fs.walk true links l cs = .ok k) :
    fs.walk false links l (cs ++ [.name n]) = .ok (k ++ [n]) := by
  induction links generalizing l cs with
  | zero => exact walkWith_entry (fun _ _ => by rintro ⟨⟩) hn h
  | succ links ih =>
    refine walkWith_entry ?_ hn h
    exact fun _ _ => ih

/-! ## Parents -/

/-- A path that leads to a directory, and another one that names an entry there. A link at the end of
the second one is not followed. -/
def Holds (fs : FileSystem) (directory p : Path) : Prop :=
  ∃ l n, fs.walk true maxLinks [] (fs.workingDirectory.join directory).components = .ok l ∧
    fs.barrierAt? l = none ∧ fs.resolveTo false p = .ok (l ++ [n])

theorem isDirectory_iff : fs.isDirectory p = true ↔
    ∃ l, fs.locate? p = some l ∧ fs.entryAt? l = some .directory := by
  rw [← Option.bind_eq_some_iff, isDirectory, entry?]
  cases (fs.locate? p).bind fs.entryAt? with
  | none => simp [FileEntry.isDirectory]
  | some e => cases e <;> simp [FileEntry.isDirectory]

/-- What can be read lies in the parent of its path. -/
theorem holds_parent (ha : fs.workingDirectory.isAbsolute = true) {text : String}
    (h : fs.text? p = some text) : ∃ directory, p.parent? = some directory ∧
      fs.Holds (fs.workingDirectory.join directory) p := by
  obtain ⟨content, hcontent, -⟩ := Option.bind_eq_some_iff.mp h
  obtain ⟨m, hm, hcontent⟩ := Option.bind_eq_some_iff.mp hcontent
  have hentry : fs.entryAt? m ≠ some .directory := by
    intro he
    simp [contentAt?, he] at hcontent
  have hd := namesDirectory_of_locate? hm hentry
  obtain ⟨hpass, hwalk, -⟩ := resolveTo_eq_ok_iff.mp (toOption_eq_some_iff.mp hm)
  obtain ⟨directory, n, -, hparent, habs, hsteps⟩ := Path.exists_parent hd
  have hjoin := Path.components_join_of_steps ha habs hsteps
  rw [hjoin] at hwalk
  obtain ⟨k, hk, hadmits⟩ := walk_directory hwalk
  refine ⟨directory, hparent, k, n, ?_, hadmits.directory, ?_⟩
  · rwa [← Path.join_assoc, Path.join_of_isAbsolute ha]
  · refine resolveTo_eq_ok_iff.mpr ⟨hpass, ?_, by simp [hd]⟩
    rw [hd, hjoin]
    exact walk_entry hadmits hk

section Join

variable (ha : directory.isAbsolute = true)

include ha

theorem passable_of_joinText (hn : Path.IsName n) (h : Passable (directory.joinText n)) :
    Passable directory := by
  have htext := Path.text_join (Path.isAbsolute_of_isName hn) directory
  rw [← Path.joinText] at htext
  obtain ⟨hchars, hlength⟩ := h
  obtain ⟨-, hnul⟩ := not_or.mp hchars
  refine ⟨?_, ?_⟩
  · rintro (he | hc)
    · rw [Path.isAbsolute, he] at ha
      cases ha
    · have hmem : '\x00' ∈ directory.text.toList := by simpa using hc
      exact hnul (by rw [htext]; simp [hmem])
  · rw [htext] at hlength
    simp only [String.utf8ByteSize_append] at hlength
    omega

theorem locate?_of_walk (hpass : Passable directory)
    (hwalk : fs.walk true maxLinks [] directory.components = .ok l)
    (hb : fs.barrierAt? l = none) : fs.locate? directory = some l := by
  refine toOption_eq_some_iff.mpr (resolveTo_eq_ok_iff.mpr ⟨hpass, ?_, fun _ => hb⟩)
  rwa [Bool.true_or, Path.join_of_isAbsolute ha]

theorem resolveTo_joinText (hn : Path.IsName n) (hpass : Passable (directory.joinText n))
    (hwalk : fs.walk true maxLinks [] directory.components = .ok l) (hadmits : fs.Admits l n) :
    fs.resolveTo false (directory.joinText n) = .ok (l ++ [n]) := by
  have hd : (directory.joinText n).namesDirectory = false := by
    rw [Path.joinText, Path.namesDirectory_join (Path.isAbsolute_of_isName hn),
      Path.namesDirectory_of_isName hn]
  have hjoin : (directory.joinText n).isAbsolute = true := Path.isAbsolute_join_of_base ha ⟨n⟩
  refine resolveTo_eq_ok_iff.mpr ⟨hpass, ?_, by simp [hd]⟩
  rw [hd, Path.join_of_isAbsolute hjoin, Path.components_joinText ha hn]
  exact walk_entry hadmits hwalk

end Join

end MakeConfig.FileSystem
