import Mathlib.Data.List.Perm.Subperm
import MakeConfig.Proofs.Session.Unanswered

/-! # Files nested in each other

Nothing in a walk takes note of the files that it has read, so a file that names itself as a child
is read for ever. A dialog that never retries leaves no other way to run out of steps: the steps
left at a node bound how deep files are nested below it, and there are only so many files.
-/

namespace MakeConfig

universe u

namespace Step

variable {S : Type u} {f g : Step S} {s : S} {x : Except Error Unit × S}

theorem some_of_andThen (h : f.andThen g s = some x) : ∃ y, f s = some y := by
  unfold andThen at h
  split at h
  · next m hm => exact ⟨_, hm⟩
  · exact ⟨x, h⟩

theorem none_of_andThen (h : f.andThen g s = none) :
    f s = none ∨ ∃ m, f s = some (.ok (), m) ∧ g m = none := by
  unfold andThen at h
  split at h
  · next m hm => exact .inr ⟨m, hm, h⟩
  · exact .inl h

theorem each_append {α : Type} (f : α → Step S) (xs ys : List α) (s : S) :
    each f (xs ++ ys) s = (each f xs).andThen (each f ys) s := by
  induction xs generalizing s with
  | nil => rfl
  | cons x xs ih =>
    simp only [List.cons_append, each, andThen]
    cases f x s with
    | none => rfl
    | some y =>
      obtain ⟨_ | _, m⟩ := y
      · rfl
      · exact ih m

theorem none_of_each {α : Type} {f : α → Step S} {xs : List α} (h : each f xs s = none) :
    ∃ before x after m, xs = before ++ x :: after ∧ each f before s = some (.ok (), m) ∧
      f x m = none := by
  induction xs generalizing s with
  | nil => cases h
  | cons x xs ih =>
    rcases none_of_andThen h with hx | ⟨m, hx, hrest⟩
    · exact ⟨[], x, xs, s, rfl, rfl, hx⟩
    · obtain ⟨before, y, after, m', rfl, hbefore, hy⟩ := ih hrest
      exact ⟨x :: before, y, after, m', rfl, (andThen_of_ok hx).trans hbefore, hy⟩

/-! ## More steps -/

/-- Where the one step ends, the other one ends alike. -/
def Prolongs (f g : Step S) : Prop := ∀ s x, f s = some x → g s = some x

theorem Prolongs.andThen {f' g' : Step S} (hf : Prolongs f f') (hg : Prolongs g g') :
    Prolongs (f.andThen g) (f'.andThen g') := by
  intro s x h
  obtain ⟨⟨r, m⟩, hm⟩ := some_of_andThen h
  have hm' := hf s _ hm
  cases r with
  | error e =>
    rw [andThen_of_not_ok (by simp [hm])] at h
    rw [andThen_of_not_ok (by simp [hm'])]
    exact hf s x h
  | ok _ =>
    rw [andThen_of_ok hm] at h
    rw [andThen_of_ok hm']
    exact hg m x h

theorem prolongs_each {α : Type} {f g : α → Step S} (h : ∀ x, Prolongs (f x) (g x))
    (xs : List α) : Prolongs (each f xs) (each g xs) := by
  induction xs with
  | nil => exact fun _ _ hs => hs
  | cons x xs ih => exact (h x).andThen ih

/-- The number of steps makes no difference to how a run ends. -/
theorem eq_of_prolongs {F : Nat → Step S} (hF : ∀ {m n}, m ≤ n → Prolongs (F m) (F n)) {m n : Nat}
    {x y : Except Error Unit × S} (hx : F m s = some x) (hy : F n s = some y) : x = y := by
  rcases Nat.le_total m n with hle | hle
  · exact Option.some.inj ((hF hle s x hx).symm.trans hy)
  · exact Option.some.inj (hx.symm.trans (hF hle s y hy))

end Step

namespace Session

open Step

variable {σ : Type u} {around : Surroundings} {d : Dialog σ} {m n : Nat}

theorem prolongs_ask (hmn : m ≤ n) (id : ItemId) (last : Option Rejection) :
    Prolongs (ask d id m last) (ask d id n last) := by
  induction m generalizing n last with
  | zero => rintro s x ⟨⟩
  | succ m ih =>
    obtain ⟨n, rfl⟩ := Nat.exists_eq_succ_of_ne_zero (Nat.ne_zero_of_lt hmn)
    have hmn : m ≤ n := Nat.le_of_succ_le_succ hmn
    intro s x h
    simp only [ask] at h ⊢
    split at h
    · exact h
    split at h
    · exact h
    split at h
    · exact h
    split at h
    · split at h
      · next hretries =>
        rw [if_pos hretries]
        exact ih hmn _ _ x h
      · next hretries =>
        rw [if_neg hretries]
        exact h
    · exact h

theorem prolongs_visit (hmn : m ≤ n) (id : ItemId) : Prolongs (visit d m id) (visit d n id) := by
  intro s x h
  unfold visit at h ⊢
  split at h
  · exact h
  split at h
  · next hv =>
    rw [if_pos hv]
    exact h
  · next hv =>
    rw [if_neg hv]
    split at h
    · next hf =>
      rw [if_pos hf]
      exact h
    · next hf =>
      rw [if_neg hf]
      exact prolongs_ask hmn id none s x h

theorem prolongs_configure (hmn : m ≤ n) (id : NodeId) :
    Prolongs (configure around d m id) (configure around d n id) := by
  induction m generalizing n id with
  | zero => rintro s x ⟨⟩
  | succ m ih =>
    obtain ⟨n, rfl⟩ := Nat.exists_eq_succ_of_ne_zero (Nat.ne_zero_of_lt hmn)
    have hmn : m ≤ n := Nat.le_of_succ_le_succ hmn
    have hdescend : Prolongs (descend (visit d m) (configure around d m) id)
        (descend (visit d n) (configure around d n) id) := by
      intro s x h
      unfold descend at h ⊢
      split at h
      · exact h
      · exact (prolongs_each (prolongs_visit hmn) _).andThen (prolongs_each (ih hmn) _) s x h
    intro s x h
    simp only [configure] at h ⊢
    split at h
    · exact h
    split at h
    · next hv =>
      rw [if_pos hv]
      exact h
    · next hv =>
      rw [if_neg hv]
      exact Prolongs.andThen (fun _ _ hr => hr) hdescend s x h

/-! ## Files read below each other -/

def FoundAt (around : Surroundings) (id : NodeId) (s : Session σ) (l : Location) : Prop :=
  ∃ node, s.tree.node? id = some node ∧ around.files.locate? node.path.path = some l

/-- The places of files that a run through a node reads, each one below the one before. -/
inductive Nests (around : Surroundings) (d : Dialog σ) :
    Nat → NodeId → Session σ → List Location → Prop where
  | here {steps : Nat} {id : NodeId} {s s' : Session σ} {c : Contents} {l : Location} :
      Enters around id s s' c → FoundAt around id s l → Nests around d (steps + 1) id s [l]
  | child {steps : Nat} {id : NodeId} {s s' m₁ m₂ : Session σ} {c : Contents} {l : Location}
      {before after : List NodeId} {child : NodeId} {ls : List Location} :
      Enters around id s s' c → FoundAt around id s l →
      Step.each (visit d steps) c.items s' = some (.ok (), m₁) →
      c.children = before ++ child :: after →
      Step.each (configure around d steps) before m₁ = some (.ok (), m₂) →
      Nests around d steps child m₂ ls → Nests around d (steps + 1) id s (l :: ls)

theorem mem_entries_of_load {files : FileSystem} {path : Path} {schema : Schema}
    (h : Schema.load files path = .ok schema) :
    ∃ l, files.locate? path = some l ∧ l ∈ files.entries.map Prod.fst := by
  have hfile : files.isFile path = true := by
    cases hf : files.isFile path with
    | true => rfl
    | false => simp [Schema.load, FileSystem.read, hf, bind, Except.bind] at h
  unfold FileSystem.isFile at hfile
  cases hl : files.locate? path with
  | none => simp [hl] at hfile
  | some l =>
    refine ⟨l, rfl, ?_⟩
    simp only [hl, Option.map_some, Option.getD_some, FileSystem.isFileAt,
      FileSystem.entryAt?] at hfile
    split at hfile
    · next entry _ _ hentry =>
      split at hentry
      · cases hentry
      · obtain ⟨before, after, he, -⟩ := List.lookup_eq_some_iff.mp hentry
        rw [he, List.map_append, List.map_cons]
        exact List.mem_append_right _ List.mem_cons_self
    · cases hfile

theorem Enters.foundAt {id : NodeId} {s s' : Session σ} {c : Contents}
    (h : Enters around id s s' c) :
    ∃ l, FoundAt around id s l ∧ l ∈ around.files.entries.map Prod.fst := by
  obtain ⟨node, hn, -⟩ := h.visible
  have hread := h.read
  simp only [onTree, Tree.parse, hn, Option.some.injEq, Prod.mk.injEq] at hread
  cases hl : Schema.load around.files node.path.path with
  | error e => simp [hl] at hread
  | ok schema =>
    obtain ⟨l, hlocated, hmem⟩ := mem_entries_of_load hl
    exact ⟨l, ⟨node, hn, hlocated⟩, hmem⟩

theorem FoundAt.unique {id : NodeId} {s : Session σ} {l l' : Location}
    (h : FoundAt around id s l) (h' : FoundAt around id s l') : l = l' := by
  obtain ⟨node, hn, hl⟩ := h
  obtain ⟨node', hn', hl'⟩ := h'
  cases hn.symm.trans hn'
  exact Option.some.inj (hl.symm.trans hl')

theorem Nests.mem_entries {id : NodeId} {s : Session σ} {ls : List Location}
    (h : Nests around d n id s ls) : ∀ l ∈ ls, l ∈ around.files.entries.map Prod.fst := by
  induction h with
  | here he hl =>
    obtain ⟨l, hl', hmem⟩ := he.foundAt
    rw [List.forall_mem_singleton, hl.unique hl']
    exact hmem
  | child he hl _ _ _ _ ih =>
    obtain ⟨l, hl', hmem⟩ := he.foundAt
    rw [List.forall_mem_cons, hl.unique hl']
    exact ⟨hmem, ih⟩

/-- A run that ends within some steps nests files no deeper than that. -/
theorem Nests.length_le {id : NodeId} {s : Session σ} {ls : List Location}
    (h : Nests around d n id s ls) {x : Except Error Unit × Session σ}
    (hend : configure around d m id s = some x) : ls.length ≤ m := by
  induction h generalizing m x with
  | here =>
    cases m with
    | zero => cases hend
    | succ m => exact Nat.succ_le_succ (Nat.zero_le m)
  | @child steps id s s' m₁ m₂ c l before after child ls he _ hitems hchildren hbefore _ ih =>
    cases m with
    | zero => cases hend
    | succ m =>
      rw [he.configure] at hend
      obtain ⟨y, hy⟩ := some_of_andThen hend
      obtain rfl := eq_of_prolongs (F := fun n => Step.each (visit d n) c.items)
        (fun hmn => prolongs_each (prolongs_visit hmn) _) hy hitems
      rw [andThen_of_ok hy, hchildren, each_append] at hend
      obtain ⟨z, hz⟩ := some_of_andThen hend
      obtain rfl := eq_of_prolongs (F := fun n => Step.each (configure around d n) before)
        (fun hmn => prolongs_each (prolongs_configure hmn) _) hz hbefore
      rw [andThen_of_ok hz] at hend
      obtain ⟨w, hw⟩ := some_of_andThen hend
      exact Nat.succ_le_succ (ih hw)

/-! ## Running out of steps -/

theorem visit_ne_none (hd : ∀ s, d.retries s = false) (id : ItemId) (s : Session σ) :
    visit d (n + 1) id s ≠ none := by
  intro h
  unfold visit at h
  split at h
  · cases h
  split at h
  · cases h
  split at h
  · cases h
  · simp only [ask, hd, Bool.false_eq_true, if_false] at h
    split at h
    · cases h
    split at h
    · cases h
    split at h
    · cases h
    split at h <;> cases h

theorem enters_of_none {id : NodeId} {s : Session σ}
    (h : configure around d (n + 1) id s = none) :
    ∃ s' c, Enters around id s s' c ∧
      (Step.each (visit d n) c.items).andThen (Step.each (configure around d n) c.children) s' =
        none := by
  simp only [configure] at h
  split at h
  · cases h
  next node hn =>
  split at h
  · cases h
  next hv =>
  rcases none_of_andThen h with hread | ⟨s', hread, hdescend⟩
  · cases hread
  simp only [descend] at hdescend
  split at hdescend
  · cases hdescend
  next node' hn' =>
  exact ⟨s', node'.contents, ⟨⟨node, hn, by simpa using hv⟩, hread, node', hn', rfl⟩, hdescend⟩

/-- A run is out of steps only where it has read a file for each of them, one below the other. -/
theorem nests_of_none (hd : ∀ s, d.retries s = false) {id : NodeId} {s : Session σ}
    (h : configure around d (n + 1) id s = none) :
    ∃ ls, Nests around d (n + 1) id s ls ∧ ls.length = n + 1 := by
  induction n generalizing id s with
  | zero =>
    obtain ⟨s', c, he, -⟩ := enters_of_none h
    obtain ⟨l, hl, -⟩ := he.foundAt
    exact ⟨[l], .here he hl, rfl⟩
  | succ n ih =>
    obtain ⟨s', c, he, hrest⟩ := enters_of_none h
    obtain ⟨l, hl, -⟩ := he.foundAt
    rcases none_of_andThen hrest with hitems | ⟨m₁, hitems, hchildren⟩
    · obtain ⟨before, i, after, m, -, -, hvisit⟩ := none_of_each hitems
      exact absurd hvisit (visit_ne_none hd i m)
    · obtain ⟨before, child, after, m₂, hc, hbefore, hchild⟩ := none_of_each hchildren
      obtain ⟨ls, hnests, hlength⟩ := ih hchild
      exact ⟨l :: ls, .child he hl hitems hc hbefore hnests, congrArg Nat.succ hlength⟩

theorem Nests.not_nodup {id : NodeId} {s : Session σ} {ls : List Location}
    (h : Nests around d n id s ls) (hlt : around.files.entries.length < ls.length) :
    ¬ ls.Nodup := by
  intro hnodup
  have hle := (List.subperm_of_subset hnodup h.mem_entries).length_le
  rw [List.length_map] at hle
  exact Nat.not_lt_of_le hle hlt

/-! ## Examples -/

namespace Nested

/-- A file whose child is at the usual place, which is that of the file. -/
def loopText : String := "\x7b\"a\":\x7b\"type\":\"config\"\x7d\x7d"

def loop : Surroundings where
  files := ⟨⟨"/"⟩, [(["config.json"], .file loopText.toUTF8 false)]⟩
  environment := ⟨[], .checked⟩

def pairText : String :=
  "\x7b\"N\":\x7b\"type\":\"int\",\"default\":1\x7d," ++
  "\"a\":\x7b\"type\":\"config\",\"path\":\"a.json\"\x7d\x7d"

def pair : Surroundings where
  files := ⟨⟨"/"⟩, [(["config.json"], .file pairText.toUTF8 false),
    (["a.json"], .file "\x7b\x7d".toUTF8 false)]⟩
  environment := ⟨[], .checked⟩

def planted : Session Unit := ⟨.plant "./config.json" ⟨"/"⟩, ()⟩

/-- A node is about to read the file. -/
structure Stands (t : Tree) (id : NodeId) (node : Node) : Prop where
  live : t.node? id = some node
  visible : node.visible = true
  unread : node.parsed? = none
  path : node.path.path = ⟨"/config.json"⟩

def onlyChild? : Schema → Option (String × ChildSpec)
  | [(name, .child spec)] => some (name, spec)
  | _ => none

theorem eq_of_onlyChild? {schema : Schema} {name : String} {spec : ChildSpec}
    (h : onlyChild? schema = some (name, spec)) : schema = [(name, .child spec)] := by
  unfold onlyChild? at h
  split at h
  · cases h
    rfl
  · cases h

theorem load_loop : ∃ name spec,
    Schema.load loop.files ⟨"/config.json"⟩ = .ok [(name, .child spec)] ∧
      spec.path = "./config.json" ∧ spec.depends.entries = [] := by
  have hcheck : ((Schema.load loop.files ⟨"/config.json"⟩).toOption.bind onlyChild?).any
      (fun c => decide (c.2.path = "./config.json") && c.2.depends.entries.isEmpty) = true := by
    decide +kernel
  obtain ⟨⟨name, spec⟩, honly, hspec⟩ := Option.any_eq_true _ _ |>.mp hcheck
  obtain ⟨hpath, hdepends⟩ := Bool.and_eq_true_iff.mp hspec
  cases hl : Schema.load loop.files ⟨"/config.json"⟩ with
  | error e => simp [hl, Except.toOption] at honly
  | ok schema =>
    rw [hl] at honly
    rw [eq_of_onlyChild? honly]
    exact ⟨name, spec, rfl, of_decide_eq_true hpath, List.isEmpty_iff.mp hdepends⟩

theorem path_loop (known : OrderedMap String) :
    (Binding.bind "./config.json" ⟨"/"⟩ known).path = ⟨"/config.json"⟩ := by
  have hnames : Template.names "./config.json" = [] := by decide +kernel
  have hfill : Template.fill (Binding.bind "./config.json" ⟨"/"⟩ known).value? "./config.json" =
      Template.fill (fun _ => none) "./config.json" := by
    apply Template.fill_congr
    rw [hnames]
    exact fun _ hm => absurd hm List.not_mem_nil
  rw [Binding.path, Binding.pathWith, Binding.raw_bind, Binding.origin_bind, hfill]
  decide +kernel

theorem Stands.enters {t : Tree} {id : NodeId} {node : Node} (h : Stands t id node) :
    ∃ t' child node', Enters loop id ⟨t, ()⟩ ⟨t', ()⟩ ⟨[], [child], [], []⟩ ∧
      Stands t' child node' := by
  obtain ⟨name, spec, hl, hpath, hdepends⟩ := load_loop
  let child : Node := Node.construct name spec.path ⟨"/"⟩ spec.depends t.vars
  let contents : Contents := ⟨[], [⟨t.arena.nodes.next⟩], [], []⟩
  let added : Tree := t.add (.node child)
  let t' : Tree := added.setParsed id (some ⟨⟨"/config.json"⟩, contents⟩)
  have hne : id ≠ ⟨t.arena.nodes.next⟩ := by
    rintro rfl
    exact t.not_issued_handleFor (.node child) (Tree.issued_of_node h.live)
  have hlive : added.node? id = some node := by
    rw [← Tree.entity?_eq_node, Tree.entity?_add, if_neg, Tree.entity?_eq_node.mpr h.live]
    simpa [Tree.handleFor, Arena.handleFor] using hne
  have hchild : t'.node? ⟨t.arena.nodes.next⟩ = some child := by
    rw [← Tree.entity?_eq_node, Tree.entity?_setParsed, if_neg (by simpa using hne.symm),
      Tree.entity?_add]
    exact if_pos rfl
  have hparse : t.parse loop id = (.ok (), t') := by
    have hunread : t.unread id = t := Tree.unread_of_awaits ⟨node, h.live, rfl, h.unread⟩
    simp only [Tree.parse, h.live, h.path, hl, Tree.populate, hunread]
    rfl
  have hvisible : t.vars.meetsAll spec.depends = true := by
    rw [Variables.meetsAll, hdepends]
    rfl
  refine ⟨t', ⟨t.arena.nodes.next⟩, child, ⟨⟨node, h.live, h.visible⟩, ?_, ?_⟩,
    ⟨hchild, hvisible, rfl, ?_⟩⟩
  · rw [onTree, hparse]
  · exact ⟨_, Tree.node?_setParsed hlive _, rfl⟩
  · change (Binding.bind spec.path ⟨"/"⟩ _).path = _
    rw [hpath]
    exact path_loop _

theorem Stands.configure_eq_none {t : Tree} {id : NodeId} {node : Node} (h : Stands t id node)
    (steps : Nat) : configure loop Dialog.defaults steps id ⟨t, ()⟩ = none := by
  induction steps generalizing t id node with
  | zero => rfl
  | succ steps ih =>
    obtain ⟨t', child, node', he, hchild⟩ := h.enters
    rw [he.configure]
    simp only [Step.each, Step.done, andThen, ih hchild]

end Nested

/-- Where a dialog never retries, a run ends, unless it reads a file below a node at which it has
read the same file. It never ends exactly if files are nested without a bound. -/
theorem configure_ends_or_nests (hd : ∀ s, d.retries s = false) (id : NodeId) (s : Session σ) :
    ((∃ x, configure around d (around.files.entries.length + 1) id s = some x) ∨
      ∃ ls, Nests around d (around.files.entries.length + 1) id s ls ∧ ¬ ls.Nodup) ∧
    ((∀ steps, configure around d steps id s = none) ↔
      ∀ depth, ∃ steps ls, Nests around d steps id s ls ∧ depth ≤ ls.length) := by
  constructor
  · cases h : configure around d (around.files.entries.length + 1) id s with
    | some x => exact .inl ⟨x, rfl⟩
    | none =>
      obtain ⟨ls, hnests, hlength⟩ := nests_of_none hd h
      exact .inr ⟨ls, hnests, hnests.not_nodup (by omega)⟩
  · constructor
    · intro hnever depth
      obtain ⟨ls, hnests, hlength⟩ := nests_of_none hd (hnever (depth + 1))
      exact ⟨depth + 1, ls, hnests, by omega⟩
    · intro hdeep steps
      cases h : configure around d steps id s with
      | none => rfl
      | some x =>
        obtain ⟨steps', ls, hnests, hlength⟩ := hdeep (steps + 1)
        have hle := hnests.length_le h
        omega

/-- The run through a file with one child that has no children ends, so files are not nested without
a bound. -/
theorem configure_ends_or_nests_pair :
    (∀ s, Dialog.defaults.retries s = false) ∧
      ¬ ∀ depth, ∃ steps ls,
        Nests Nested.pair Dialog.defaults steps Tree.root Nested.planted ls ∧
          depth ≤ ls.length := by
  have hnever : ∀ s, Dialog.defaults.retries s = false := fun _ => rfl
  have hiff : (∀ steps, configure Nested.pair Dialog.defaults steps Tree.root Nested.planted =
      none) ↔ _ := (configure_ends_or_nests hnever Tree.root Nested.planted).2
  refine ⟨hnever, fun hdeep => ?_⟩
  have hends : (configure Nested.pair Dialog.defaults 3 Tree.root Nested.planted).isSome = true := by
    decide +kernel
  rw [hiff.mpr hdeep 3] at hends
  cases hends

/-- A single file that is its own child is read for ever, though its dialog leaves every question
unanswered. -/
theorem configure_never_ends :
    Nested.loop.files.entries.length = 1 ∧
      ¬ ∃ steps x, configure Nested.loop Dialog.defaults steps Tree.root Nested.planted =
        some x := by
  have hroot : ∃ node, Nested.Stands Nested.planted.tree Tree.root node := by
    have hcheck : (Nested.planted.tree.node? Tree.root).any (fun node =>
        node.visible && node.parsed?.isNone && decide (node.path.path = ⟨"/config.json"⟩)) =
          true := by
      decide +kernel
    obtain ⟨node, hn, hnode⟩ := Option.any_eq_true _ _ |>.mp hcheck
    simp only [Bool.and_eq_true, Option.isNone_iff_eq_none] at hnode
    exact ⟨node, hn, hnode.1.1, hnode.1.2, of_decide_eq_true hnode.2⟩
  obtain ⟨node, hstands⟩ := hroot
  refine ⟨rfl, ?_⟩
  rintro ⟨steps, x, hends⟩
  cases (hstands.configure_eq_none steps).symm.trans hends

end Session

end MakeConfig
