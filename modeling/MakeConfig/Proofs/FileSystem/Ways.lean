import MakeConfig.FileSystem.Change

/-! # Ways through files

Where a path leads is a matter of directories and links only, so no way changes when a file is
written. When something other than a directory is removed, ways end earlier, but no path comes to
name another file.
-/

namespace MakeConfig

namespace FileEntry

def code : FileEntry → Nat × List UInt8 × String × Bool
  | .directory => (0, [], "", false)
  | .file content executable => (1, content.data.toList, "", executable)
  | .link target => (2, [], target, false)
  | .device zeros => (3, [], "", zeros)

theorem code_injective {e e' : FileEntry} (h : e.code = e'.code) : e = e' := by
  cases e <;> cases e' <;> simp [code, ← ByteArray.ext_iff] at h <;> simp [h]

instance : DecidableEq FileEntry := fun e e' =>
  decidable_of_iff (e.code = e'.code) ⟨code_injective, congrArg code⟩

end FileEntry

namespace FileSystem

section Results

variable {ε α : Type} {x y : Except ε α} {a : α}

theorem toOption_eq_some_iff : x.toOption = some a ↔ x = .ok a := by
  cases x <;> simp [Except.toOption]

theorem toOption_congr (h : ∀ a, x = .ok a ↔ y = .ok a) : x.toOption = y.toOption := by
  apply Option.ext
  intro a
  rw [toOption_eq_some_iff, toOption_eq_some_iff, h]

end Results

variable {fs fs' : FileSystem} {l m : Location}

/-! ## Entries -/

theorem lookup_filter (entries : List (Location × FileEntry)) (keep : Location → Bool)
    (l : Location) : (entries.filter fun x => keep x.1).lookup l =
      if keep l then entries.lookup l else none := by
  induction entries with
  | nil => simp
  | cons x entries ih =>
    obtain ⟨m, e⟩ := x
    rw [List.filter_cons]
    by_cases hm : l = m
    · subst hm
      split
      · next hk => rw [List.lookup_cons_self, List.lookup_cons_self]
      · next hk => simp [ih, hk]
    · have hne : (l == m) = false := beq_eq_false_iff_ne.mpr hm
      split
      · simp [List.lookup_cons, hne, ih]
      · simp [List.lookup_cons, hne, ih]

theorem entryAt?_setAt (hl : l ≠ []) (e : FileEntry) :
    (fs.setAt l e).entryAt? m = if m = l then some e else fs.entryAt? m := by
  have hfilter := lookup_filter fs.entries (fun k => k != l) m
  unfold entryAt? setAt
  by_cases hm : m = []
  · subst hm
    rw [if_pos rfl, if_neg (Ne.symm hl), if_pos rfl]
  · simp only [hm, if_false, List.lookup_append, hfilter]
    by_cases hml : m = l
    · simp [hml]
    · have hne : (m == l) = false := beq_eq_false_iff_ne.mpr hml
      simp [hml, List.lookup_cons, hne]

theorem entryAt?_removeAt (hl : l ≠ []) :
    (fs.removeAt l).entryAt? m = if l <+: m then none else fs.entryAt? m := by
  have hfilter := lookup_filter fs.entries (fun k => !l.isPrefixOf k) m
  unfold entryAt? removeAt
  by_cases hm : m = []
  · subst hm
    rw [if_pos rfl, if_neg (mt List.prefix_nil.mp hl), if_pos rfl]
  · simp only [hm, if_false, hfilter, Bool.not_eq_true', List.isPrefixOf_iff_prefix,
      ← Bool.not_eq_true]
    by_cases hp : l <+: m <;> simp [hp]

theorem barrierAt?_eq_none_iff : fs.barrierAt? l = none ↔ fs.entryAt? l = some .directory := by
  unfold barrierAt?
  split <;> simp_all

def Passable (p : Path) : Prop :=
  ¬ (p.text = "" ∨ p.text.toList.contains '\x00') ∧ ¬ p.text.utf8ByteSize > maxPathLength

theorem resolveTo_eq_ok_iff {last : Bool} {p : Path} :
    fs.resolveTo last p = .ok l ↔
      Passable p ∧ fs.walk (last || p.namesDirectory) maxLinks []
          (fs.workingDirectory.join p).components = .ok l ∧
        (p.namesDirectory = true → fs.barrierAt? l = none) := by
  unfold resolveTo Passable
  by_cases hbad : p.text = "" ∨ p.text.toList.contains '\x00'
  · rw [if_pos hbad]
    exact iff_of_false (by rintro ⟨⟩) fun h => h.1.1 hbad
  by_cases hlong : p.text.utf8ByteSize > maxPathLength
  · rw [if_neg hbad, if_pos hlong]
    exact iff_of_false (by rintro ⟨⟩) fun h => h.1.2 hlong
  rw [if_neg hbad, if_neg hlong]
  simp only [hbad, hlong, not_false_iff, true_and]
  cases fs.walk (last || p.namesDirectory) maxLinks []
      (fs.workingDirectory.join p).components with
  | error fault => simp [bind, Except.bind]
  | ok k =>
    cases hd : p.namesDirectory with
    | false => simp [bind, Except.bind, pure, Except.pure]
    | true =>
      cases hb : fs.barrierAt? k with
      | some fault =>
        simp only [bind, Except.bind, if_true, hb, throw, throwThe, MonadExceptOf.throw]
        constructor
        · rintro ⟨⟩
        · rintro ⟨⟨rfl⟩, hnone⟩
          cases hb.symm.trans (hnone trivial)
      | none =>
        simp only [bind, Except.bind, if_true, hb, pure, Except.pure]
        constructor
        · rintro ⟨rfl⟩
          exact ⟨rfl, fun _ => hb⟩
        · rintro ⟨he, -⟩
          exact he

/-! ## One step of a way -/

def linkAt? (fs : FileSystem) (l : Location) : Option String :=
  match fs.entryAt? l with
  | some (.link target) => some target
  | _ => none

/-- Where one component leads from a location, and the target if there is a link. -/
def turn (fs : FileSystem) (l : Location) (c : Path.Component) :
    Except FileFault (Location × Option String) :=
  match fs.barrierAt? l with
  | some fault => .error fault
  | none =>
    match c with
    | .root => .ok ([], none)
    | .here => .ok (l, none)
    | .up => .ok (l.dropLast, none)
    | .name n =>
      if n.utf8ByteSize > maxNameLength then .error .tooLong
      else .ok (l ++ [n], fs.linkAt? (l ++ [n]))

theorem walkWith_cons (fs : FileSystem)
    (jump : Location → List Path.Component → Except FileFault Location) (last : Bool) (l : Location)
    (c : Path.Component) (cs : List Path.Component) :
    fs.walkWith jump last l (c :: cs) =
      match fs.turn l c with
      | .error fault => .error fault
      | .ok (m, none) => fs.walkWith jump last m cs
      | .ok (m, some target) =>
        if cs.isEmpty ∧ !last then .ok m
        else jump l ((⟨target⟩ : Path).components ++ cs) := by
  unfold turn linkAt?
  cases hb : fs.barrierAt? l with
  | some fault =>
    unfold walkWith
    rw [hb]
  | none =>
    cases c with
    | root => rw [walkWith, hb]
    | here => rw [walkWith, hb]
    | up => rw [walkWith, hb]
    | name n =>
      rw [walkWith, hb]
      dsimp only
      split
      · rfl
      · cases fs.entryAt? (l ++ [n]) with
        | none => rfl
        | some e => cases e <;> rfl

/-! ## Files come and change -/

/-- Nothing leads on from here: there is neither a directory nor a link. -/
structure Closed (e : Option FileEntry) : Prop where
  directory : e ≠ some .directory
  link : ∀ target, e ≠ some (.link target)

theorem linkAt?_of_closed (h : Closed (fs.entryAt? l)) : fs.linkAt? l = none := by
  unfold linkAt?
  split
  · next target he => exact absurd he (h.link target)
  · rfl

/-- Two file systems in which every path leads to the same place. -/
structure SameWays (fs fs' : FileSystem) : Prop where
  workingDirectory : fs.workingDirectory = fs'.workingDirectory
  entries : ∀ l, fs.entryAt? l = fs'.entryAt? l ∨
    (Closed (fs.entryAt? l) ∧ Closed (fs'.entryAt? l))

namespace SameWays

variable (h : fs.SameWays fs')

include h

theorem barrierAt?_eq_none_iff (l : Location) :
    fs.barrierAt? l = none ↔ fs'.barrierAt? l = none := by
  rw [FileSystem.barrierAt?_eq_none_iff, FileSystem.barrierAt?_eq_none_iff]
  rcases h.entries l with he | ⟨hc, hc'⟩
  · rw [he]
  · exact iff_of_false hc.directory hc'.directory

theorem linkAt? (l : Location) : fs.linkAt? l = fs'.linkAt? l := by
  rcases h.entries l with he | ⟨hc, hc'⟩
  · rw [FileSystem.linkAt?, FileSystem.linkAt?, he]
  · rw [linkAt?_of_closed hc, linkAt?_of_closed hc']

theorem turn (l : Location) (c : Path.Component) :
    (fs.turn l c).toOption = (fs'.turn l c).toOption := by
  unfold FileSystem.turn
  cases hb : fs.barrierAt? l with
  | some fault =>
    cases hb' : fs'.barrierAt? l with
    | none => cases hb.symm.trans ((h.barrierAt?_eq_none_iff l).mpr hb')
    | some fault' => rfl
  | none =>
    rw [(h.barrierAt?_eq_none_iff l).mp hb]
    cases c with
    | root | here | up => rfl
    | name n => simp only [h.linkAt?]

theorem walkWith {jump jump' : Location → List Path.Component → Except FileFault Location}
    (hj : ∀ l cs, (jump l cs).toOption = (jump' l cs).toOption) (last : Bool) (l : Location)
    (cs : List Path.Component) :
    (fs.walkWith jump last l cs).toOption = (fs'.walkWith jump' last l cs).toOption := by
  induction cs generalizing l with
  | nil => rfl
  | cons c cs ih =>
    have hturn := h.turn l c
    rw [walkWith_cons, walkWith_cons]
    cases ht : fs.turn l c with
    | error fault =>
      cases ht' : fs'.turn l c with
      | error fault' => rfl
      | ok place' => simp [ht, ht', Except.toOption] at hturn
    | ok place =>
      have ht' : fs'.turn l c = .ok place := toOption_eq_some_iff.mp (hturn ▸ ht ▸ rfl)
      rw [ht']
      obtain ⟨m, link?⟩ := place
      cases link? with
      | none => exact ih m
      | some target =>
        dsimp only
        split
        · rfl
        · exact hj _ _

theorem walk (last : Bool) (links : Nat) (l : Location) (cs : List Path.Component) :
    (fs.walk last links l cs).toOption = (fs'.walk last links l cs).toOption := by
  induction links generalizing l cs with
  | zero => exact h.walkWith (fun _ _ => rfl) last l cs
  | succ links ih => exact h.walkWith ih last l cs

theorem locate?_eq (p : Path) : fs.locate? p = fs'.locate? p := by
  have hw := h.walk (true || p.namesDirectory) maxLinks [] (fs.workingDirectory.join p).components
  have hok : ∀ l, fs.resolve p = .ok l ↔ fs'.resolve p = .ok l := by
    intro l
    rw [resolve, resolve, resolveTo_eq_ok_iff, resolveTo_eq_ok_iff, h.barrierAt?_eq_none_iff,
      ← h.workingDirectory, ← toOption_eq_some_iff, ← toOption_eq_some_iff, hw]
  exact toOption_congr hok

end SameWays

theorem sameWays_setAt (hl : Closed (fs.entryAt? l)) (content : ByteArray) (executable : Bool) :
    fs.SameWays (fs.setAt l (.file content executable)) where
  workingDirectory := rfl
  entries m := by
    have hne : l ≠ [] := fun he => hl.directory (he ▸ rfl)
    rw [entryAt?_setAt hne]
    by_cases hm : m = l
    · subst hm
      rw [if_pos rfl]
      exact .inr ⟨hl, by simp, by simp⟩
    · rw [if_neg hm]
      exact .inl rfl

/-! ## Files at paths -/

def fileAt? (fs : FileSystem) (p : Path) : Option ByteArray :=
  match fs.entry? p with
  | some (.file content _) => some content
  | _ => none

theorem fileAt?_congr {p : Path} (h : fs'.entry? p = fs.entry? p) : fs'.fileAt? p = fs.fileAt? p := by
  rw [fileAt?, fileAt?, h]

theorem fileAt?_eq_some_iff {p : Path} {content : ByteArray} :
    fs.fileAt? p = some content ↔ ∃ executable, fs.entry? p = some (.file content executable) := by
  unfold fileAt?
  split
  · next c x he => simp [he]
  · next hne =>
    simp only [reduceCtorEq, false_iff, not_exists]
    intro x he
    exact hne _ _ he

theorem isFile_iff {p : Path} : fs.isFile p = true ↔ (fs.fileAt? p).isSome = true := by
  unfold isFile fileAt? entry? isFileAt
  cases fs.locate? p with
  | none => simp
  | some l =>
    simp only [Option.map_some, Option.getD_some, Option.bind_some]
    cases fs.entryAt? l with
    | none => simp
    | some e => cases e <;> simp

theorem namesDirectory_of_locate? {p : Path} (hl : fs.locate? p = some l)
    (hd : fs.entryAt? l ≠ some .directory) : p.namesDirectory = false := by
  obtain ⟨-, -, hbarrier⟩ := resolveTo_eq_ok_iff.mp (toOption_eq_some_iff.mp hl)
  cases hn : p.namesDirectory with
  | false => rfl
  | true => exact absurd (barrierAt?_eq_none_iff.mp (hbarrier hn)) hd

theorem namesDirectory_of_isFile {p : Path} (h : fs.isFile p = true) : p.namesDirectory = false := by
  obtain ⟨content, hfile⟩ := Option.isSome_iff_exists.mp (isFile_iff.mp h)
  obtain ⟨x, he⟩ := fileAt?_eq_some_iff.mp hfile
  obtain ⟨l, hl, he⟩ := Option.bind_eq_some_iff.mp he
  exact namesDirectory_of_locate? hl (by simp [he])

theorem content?_eq_fileAt? {p : Path} (hd : ∀ zeros, fs.entry? p ≠ some (.device zeros)) :
    fs.content? p = fs.fileAt? p := by
  unfold content? fileAt? entry? contentAt? at *
  cases hl : fs.locate? p with
  | none => rfl
  | some l =>
    simp only [hl, Option.bind_some] at hd ⊢
    cases he : fs.entryAt? l with
    | none => rfl
    | some e =>
      cases e with
      | device zeros => exact absurd he (hd zeros)
      | directory | file | link => rfl

/-- What is written to a path that names no device goes into a file there, and no way changes. -/
theorem write?_eq_some {p : Path} {content : ByteArray} (h : fs.write? p content = some fs')
    (hd : ∀ zeros, fs.entry? p ≠ some (.device zeros)) :
    ∃ l executable, fs.locate? p = some l ∧ Closed (fs.entryAt? l) ∧
      fs' = fs.setAt l (.file content executable) := by
  obtain ⟨l, hl, h⟩ := Option.bind_eq_some_iff.mp h
  have hentry : fs.entry? p = fs.entryAt? l := by
    unfold entry?
    rw [hl, Option.bind_some]
  rw [hentry] at hd
  unfold writeAt at h
  split at h
  · cases h
  · next c x he =>
    cases h
    exact ⟨l, x, hl, he ▸ ⟨by simp, by simp⟩, rfl⟩
  · cases h
  · next zeros he => exact absurd he (hd zeros)
  · next he =>
    refine ⟨l, false, hl, he ▸ ⟨by simp, by simp⟩, ?_⟩
    cases hr : fs.roomAt l with
    | error fault =>
      rw [hr] at h
      cases h
    | ok u =>
      rw [hr] at h
      cases h
      rfl

/-- The file of a path has got a content. No way changes, and paths that lead elsewhere name what they
named. -/
structure Filled (fs fs' : FileSystem) (p : Path) (content : ByteArray) : Prop where
  ways : ∀ q, fs'.locate? q = fs.locate? q
  there : fs'.fileAt? p = some content
  others : ∀ q, fs.locate? q ≠ fs.locate? p → fs'.entry? q = fs.entry? q

theorem filled_of_write? {p : Path} {content : ByteArray} (h : fs.write? p content = some fs')
    (hd : ∀ zeros, fs.entry? p ≠ some (.device zeros)) : fs.Filled fs' p content := by
  obtain ⟨l, x, hl, hc, rfl⟩ := write?_eq_some h hd
  have hways := sameWays_setAt hc content x
  have hne : l ≠ [] := fun he => hc.directory (he ▸ rfl)
  constructor
  case ways => exact fun q => (hways.locate?_eq q).symm
  case there =>
    refine fileAt?_eq_some_iff.mpr ⟨x, ?_⟩
    unfold entry?
    rw [← hways.locate?_eq, hl, Option.bind_some, entryAt?_setAt hne, if_pos rfl]
  case others =>
    intro q hq
    unfold entry?
    rw [← hways.locate?_eq]
    cases hlq : fs.locate? q with
    | none => rfl
    | some m =>
      have hm : m ≠ l := fun he => hq (by rw [hlq, hl, he])
      rw [Option.bind_some, Option.bind_some, entryAt?_setAt hne, if_neg hm]

/-- The last of several contents counts. -/
theorem Filled.trans {fs'' : FileSystem} {p : Path} {content content' : ByteArray}
    (h : fs.Filled fs' p content) (h' : fs'.Filled fs'' p content') : fs.Filled fs'' p content' where
  ways q := (h'.ways q).trans (h.ways q)
  there := h'.there
  others q hq := by
    have hq' : fs'.locate? q ≠ fs'.locate? p := by rwa [h.ways q, h.ways p]
    rw [h'.others q hq', h.others q hq]

theorem Filled.fileAt?_eq {p : Path} {content : ByteArray} (h : fs.Filled fs' p content)
    (hheld : fs.fileAt? p = some content) (q : Path) : fs'.fileAt? q = fs.fileAt? q := by
  by_cases hq : fs.locate? q = fs.locate? p
  · have hq' : fs'.locate? q = fs'.locate? p := by rwa [h.ways q, h.ways p]
    have hthere := h.there.trans hheld.symm
    rwa [fileAt?, fileAt?, entry?, entry?, ← hq, ← hq'] at hthere
  · exact fileAt?_congr (h.others q hq)

theorem exists_write?_of_entry? {p : Path} {e : FileEntry} (h : fs.entry? p = some e)
    (hd : e ≠ .directory) (hl : ∀ target, e ≠ .link target) (content : ByteArray) :
    ∃ fs', fs.write? p content = some fs' := by
  obtain ⟨l, hlocate, he⟩ := Option.bind_eq_some_iff.mp h
  unfold write? writeAt
  simp only [hlocate, he, bind, Option.bind_some]
  cases e with
  | directory => exact absurd rfl hd
  | file | device => exact ⟨_, rfl⟩
  | link target => exact absurd rfl (hl target)

theorem write?_device {p : Path} {zeros : Bool} (h : fs.entry? p = some (.device zeros))
    (content : ByteArray) : fs.write? p content = some fs := by
  obtain ⟨l, hlocate, he⟩ := Option.bind_eq_some_iff.mp h
  simp only [write?, writeAt, hlocate, he, bind, Option.bind_some, Except.toOption]

theorem exists_write?_again {p : Path} {content : ByteArray} (h : fs.write? p content = some fs')
    (content' : ByteArray) : ∃ fs'', fs'.write? p content' = some fs'' := by
  by_cases hd : ∃ zeros, fs.entry? p = some (.device zeros)
  · obtain ⟨zeros, hd⟩ := hd
    obtain rfl : fs = fs' := Option.some.inj ((write?_device hd content).symm.trans h)
    exact ⟨_, write?_device hd content'⟩
  · obtain ⟨x, he⟩ := fileAt?_eq_some_iff.mp (filled_of_write? h (not_exists.mp hd)).there
    exact exists_write?_of_entry? he (by simp) (by simp) content'

/-- What is appended to a path comes after what the file there holds, and every path that leads
elsewhere names what it named. -/
theorem append?_eq_some {p : Path} {content : ByteArray} (h : fs.append? p content = some fs')
    (hd : ∀ zeros, fs.entry? p ≠ some (.device zeros)) :
    (∀ q, fs'.locate? q = fs.locate? q) ∧
    fs'.fileAt? p = some ((fs.fileAt? p).getD ByteArray.empty ++ content) ∧
    ∀ q, fs.locate? q ≠ fs.locate? p → fs'.entry? q = fs.entry? q := by
  have hfilled := filled_of_write? h hd
  rw [content?_eq_fileAt? hd] at hfilled
  exact ⟨hfilled.ways, hfilled.there, hfilled.others⟩

/-! ## Removal -/

section Removal

variable (hl : l ≠ [])

include hl

theorem entryAt?_removeAt_of_outside (h : ¬ l <+: m) :
    (fs.removeAt l).entryAt? m = fs.entryAt? m := by
  rw [entryAt?_removeAt hl, if_neg h]

theorem not_prefix_of_barrierAt? (h : (fs.removeAt l).barrierAt? m = none) : ¬ l <+: m := by
  intro hp
  rw [barrierAt?_eq_none_iff, entryAt?_removeAt hl, if_pos hp] at h
  cases h

theorem barrierAt?_removeAt (h : (fs.removeAt l).barrierAt? m = none) : fs.barrierAt? m = none := by
  have hp := not_prefix_of_barrierAt? hl h
  rw [barrierAt?_eq_none_iff] at h ⊢
  rwa [entryAt?_removeAt_of_outside hl hp] at h

theorem turn_removeAt {c : Path.Component} {place : Location × Option String}
    (h : (fs.removeAt l).turn m c = .ok place) :
    (l <+: place.1 ∧ place.2 = none) ∨ (¬ l <+: place.1 ∧ fs.turn m c = .ok place) := by
  unfold turn at h ⊢
  cases hb : (fs.removeAt l).barrierAt? m with
  | some fault =>
    rw [hb] at h
    cases h
  | none =>
    have hm := not_prefix_of_barrierAt? hl hb
    rw [hb] at h
    rw [barrierAt?_removeAt hl hb]
    cases c with
    | root =>
      cases h
      exact .inr ⟨mt List.prefix_nil.mp hl, rfl⟩
    | here =>
      cases h
      exact .inr ⟨hm, rfl⟩
    | up =>
      cases h
      exact .inr ⟨fun hp => hm (hp.trans (List.dropLast_prefix m)), rfl⟩
    | name n =>
      dsimp only at h ⊢
      split at h
      · cases h
      · next hn =>
        cases h
        rw [if_neg hn]
        unfold linkAt?
        by_cases hp : l <+: m ++ [n]
        · exact .inl ⟨hp, by simp [entryAt?_removeAt hl, hp]⟩
        · exact .inr ⟨hp, by rw [entryAt?_removeAt_of_outside hl hp]⟩

theorem eq_of_walkWith_removeAt
    {jump : Location → List Path.Component → Except FileFault Location} {last : Bool}
    {cs : List Path.Component} {target : Location} (hp : l <+: m)
    (h : (fs.removeAt l).walkWith jump last m cs = .ok target) : target = m := by
  cases cs with
  | nil =>
    cases h
    rfl
  | cons c cs =>
    have hb : (fs.removeAt l).barrierAt? m ≠ none := fun hb => not_prefix_of_barrierAt? hl hb hp
    obtain ⟨fault, hb⟩ := Option.ne_none_iff_exists'.mp hb
    have hturn : (fs.removeAt l).turn m c = .error fault := by
      unfold turn
      rw [hb]
    rw [walkWith_cons, hturn] at h
    cases h

theorem walkWith_removeAt
    {jump jump' : Location → List Path.Component → Except FileFault Location}
    (hj : ∀ m cs target, jump' m cs = .ok target → l <+: target ∨ jump m cs = .ok target)
    {last : Bool} {cs : List Path.Component} {target : Location}
    (h : (fs.removeAt l).walkWith jump' last m cs = .ok target) :
    l <+: target ∨ fs.walkWith jump last m cs = .ok target := by
  induction cs generalizing m with
  | nil => exact .inr h
  | cons c cs ih =>
    rw [walkWith_cons] at h ⊢
    cases ht : (fs.removeAt l).turn m c with
    | error fault =>
      rw [ht] at h
      cases h
    | ok place =>
      rw [ht] at h
      obtain ⟨k, link?⟩ := place
      rcases turn_removeAt hl ht with ⟨hp, rfl⟩ | ⟨-, hold⟩
      · exact .inl (eq_of_walkWith_removeAt hl hp h ▸ hp)
      rw [hold]
      cases link? with
      | none => exact ih h
      | some link =>
        dsimp only at h ⊢
        split at h
        · next hend =>
          rw [if_pos hend]
          exact .inr h
        · next hend =>
          rw [if_neg hend]
          exact hj _ _ _ h

theorem walk_removeAt {last : Bool} {links : Nat} {cs : List Path.Component} {target : Location}
    (h : (fs.removeAt l).walk last links m cs = .ok target) :
    l <+: target ∨ fs.walk last links m cs = .ok target := by
  induction links generalizing m cs target with
  | zero => exact walkWith_removeAt hl (fun _ _ _ => by rintro ⟨⟩) h
  | succ links ih => exact walkWith_removeAt hl (fun _ _ _ => ih) h

theorem resolveTo_removeAt {last : Bool} {p : Path} {target : Location}
    (h : (fs.removeAt l).resolveTo last p = .ok target) :
    l <+: target ∨ fs.resolveTo last p = .ok target := by
  obtain ⟨hpass, hwalk, hd⟩ := resolveTo_eq_ok_iff.mp h
  refine (walk_removeAt hl hwalk).imp_right fun hwalk => ?_
  exact resolveTo_eq_ok_iff.mpr ⟨hpass, hwalk, fun hn => barrierAt?_removeAt hl (hd hn)⟩

/-- A file that a path names after the removal is one that it named before. -/
theorem fileAt?_removeAt {p : Path} {content : ByteArray}
    (h : (fs.removeAt l).fileAt? p = some content) : fs.fileAt? p = some content := by
  obtain ⟨x, he⟩ := fileAt?_eq_some_iff.mp h
  obtain ⟨target, htarget, he⟩ := Option.bind_eq_some_iff.mp he
  have hp : ¬ l <+: target := by
    intro hp
    rw [entryAt?_removeAt hl, if_pos hp] at he
    cases he
  have hresolve := (resolveTo_removeAt hl (toOption_eq_some_iff.mp htarget)).resolve_left hp
  rw [entryAt?_removeAt_of_outside hl hp] at he
  refine fileAt?_eq_some_iff.mpr ⟨x, ?_⟩
  unfold entry?
  rw [locate?, resolve, hresolve]
  exact he

theorem walkWith_removed
    {jump jump' : Location → List Path.Component → Except FileFault Location}
    (hj : ∀ m cs target, jump m cs = .ok l → jump' m cs = .ok target → l <+: target)
    {cs : List Path.Component} {target : Location} (hold : fs.walkWith jump false m cs = .ok l)
    (h : (fs.removeAt l).walkWith jump' true m cs = .ok target) : l <+: target := by
  induction cs generalizing m with
  | nil =>
    cases hold
    cases h
    exact List.prefix_refl l
  | cons c cs ih =>
    rw [walkWith_cons] at hold h
    cases ht : (fs.removeAt l).turn m c with
    | error fault =>
      rw [ht] at h
      cases h
    | ok place =>
      rw [ht] at h
      obtain ⟨k, link?⟩ := place
      rcases turn_removeAt hl ht with ⟨hp, rfl⟩ | ⟨hp, hturn⟩
      · exact eq_of_walkWith_removeAt hl hp h ▸ hp
      rw [hturn] at hold
      cases link? with
      | none => exact ih hold h
      | some link =>
        dsimp only at hold h
        rw [if_neg (by simp)] at h
        split at hold
        · cases hold
          exact absurd (List.prefix_refl _) hp
        · exact hj _ _ _ hold h

theorem walk_removed {links : Nat} {cs : List Path.Component} {target : Location}
    (hold : fs.walk false links m cs = .ok l)
    (h : (fs.removeAt l).walk true links m cs = .ok target) : l <+: target := by
  induction links generalizing m cs target with
  | zero => exact walkWith_removed hl (fun _ _ _ => by rintro ⟨⟩) hold h
  | succ links ih => exact walkWith_removed hl (fun _ _ _ => ih) hold h

end Removal

theorem find_eq_ok_iff {last : Bool} {p : Path} {e : FileEntry} :
    fs.find last p = .ok (l, e) ↔ fs.resolveTo last p = .ok l ∧ fs.entryAt? l = some e := by
  unfold find
  cases fs.resolveTo last p with
  | error fault => simp [bind, Except.bind]
  | ok k =>
    cases he : fs.entryAt? k with
    | none =>
      simp only [bind, Except.bind, he, throw, throwThe, MonadExceptOf.throw, reduceCtorEq, false_iff]
      rintro ⟨⟨rfl⟩, hsome⟩
      cases he.symm.trans hsome
    | some d =>
      simp only [bind, Except.bind, he, pure, Except.pure, Except.ok.injEq, Prod.mk.injEq]
      constructor
      · rintro ⟨rfl, rfl⟩
        exact ⟨rfl, he⟩
      · rintro ⟨rfl, hsome⟩
        exact ⟨rfl, Option.some.inj (he.symm.trans hsome)⟩

/-- After a file or a link was removed its path names no file, and every path that names one named it
before. -/
theorem removeFile?_eq_some {p : Path} (h : fs.removeFile? p = some fs') :
    fs'.fileAt? p = none ∧ ∀ q content, fs'.fileAt? q = some content →
      fs.fileAt? q = some content := by
  unfold removeFile? at h
  split at h
  · cases h
  · cases h
  · next l e hdirectory hfind =>
    cases h
    obtain ⟨hresolve, he⟩ := find_eq_ok_iff.mp hfind
    obtain ⟨-, hold, hd⟩ := resolveTo_eq_ok_iff.mp hresolve
    have hne : e ≠ .directory := by
      rintro rfl
      exact hdirectory rfl
    have hl : l ≠ [] := by
      rintro rfl
      exact hne (Option.some.inj he).symm
    refine ⟨?_, fun q content => fileAt?_removeAt hl⟩
    have hname : p.namesDirectory = false := by
      cases hn : p.namesDirectory with
      | false => rfl
      | true =>
        have hb := barrierAt?_eq_none_iff.mp (hd hn)
        exact absurd (Option.some.inj (he.symm.trans hb)) hne
    rw [hname, Bool.or_false] at hold
    cases hfile : (fs.removeAt l).fileAt? p with
    | none => rfl
    | some content =>
      obtain ⟨x, hentry⟩ := fileAt?_eq_some_iff.mp hfile
      obtain ⟨target, htarget, hentry⟩ := Option.bind_eq_some_iff.mp hentry
      obtain ⟨-, hnew, -⟩ := resolveTo_eq_ok_iff.mp (toOption_eq_some_iff.mp htarget)
      rw [Bool.true_or] at hnew
      rw [entryAt?_removeAt hl, if_pos (walk_removed hl hold hnew)] at hentry
      cases hentry

end FileSystem

end MakeConfig
