import MakeConfig.Proofs.Tree.Identity
import MakeConfig.Proofs.Tree.Order

/-! # The shape of a tree

A reachable tree is a tree indeed: all that is there hangs in one place below the root, walks go
through it in the order of the schemas, and handles are not given out again. A schema with a child
serves as an example.
-/

namespace MakeConfig

namespace Tree

/-- All that is there hangs in one place below the root, and nothing else does. -/
structure Hung (t : Tree) : Prop where
  root : t.Live (.node root)
  mentioned : ∀ id node, t.node? id = some node → ∀ k ∈ node.contents.handles,
    t.Live k ∧ k ≠ .node Tree.root
  placed : ∀ k, t.Live k → k ≠ .node Tree.root → ∃ id parsed, t.readAt? id = some parsed ∧
    parsed.contents.handles.count k = 1 ∧
    ∀ id' node', t.node? id' = some node' → k ∈ node'.contents.handles → id' = id
  rising : ∀ id node, t.node? id = some node → ∀ child ∈ node.contents.children,
    id.index < child.index
  unread : ∀ id node, t.node? id = some node →
    (node.parsed? = none ↔ node.file? = none) ∧
    (node.file? = none → node.contents = .empty)

/-- A walk that nothing bounds comes to an end. It comes once to each node that was read, to a node
before all that hangs below it, and to the children of a node in their order. -/
structure Walked (t : Tree) : Prop where
  ends : ∀ order, t.Walks [Tree.root] order ↔ order = t.walk
  once : t.walk.Nodup
  read : ∀ id, id ∈ t.walk ↔ ∃ parsed, t.readAt? id = some parsed
  below : ∀ a b, b ∈ t.walk → t.Below (.node a) (.node b) → [a, b].Sublist t.walk
  siblings : ∀ id parsed c d a b, t.readAt? id = some parsed →
    [c, d].Sublist parsed.contents.children → a ∈ t.walk → b ∈ t.walk →
    t.From (.node c) (.node a) → t.From (.node d) (.node b) → [a, b].Sublist t.walk

/-- What is gathered along the walk is all that is there, each once. -/
structure Gathered (t : Tree) : Prop where
  items : (t.gather Contents.items).Nodup ∧
    (∀ i, i ∈ t.gather Contents.items ↔ ∃ item, t.item? i = some item) ∧
    List.Forall₂ (fun i item => t.item? i = some item) (t.gather Contents.items) t.items
  recipes : (t.gather Contents.recipes).Nodup ∧
    (∀ i, i ∈ t.gather Contents.recipes ↔ ∃ recipe, t.recipe? i = some recipe) ∧
    List.Forall₂ (fun i recipe => t.recipe? i = some recipe) (t.gather Contents.recipes) t.recipes
  repos : (t.gather Contents.repos).Nodup ∧
    (∀ i, i ∈ t.gather Contents.repos ↔ ∃ repo, t.repo? i = some repo) ∧
    List.Forall₂ (fun i site => site.id = i ∧ t.repo? i = some site.repo ∧
        ∃ id node, t.node? id = some node ∧ i ∈ node.contents.repos ∧
          site.base = node.baseDirectory?.getD ⟨""⟩)
      (t.gather Contents.repos) t.repoSites
  generated : ∀ build ambient entries, t.generated build ambient = .ok entries →
    ∃ parts, entries = parts.flatten ∧
      List.Forall₂ (fun item part => ∃ place, Item.generated build ambient place item = .ok part)
        t.items parts
  ungenerated : ∀ build ambient e, t.generated build ambient = .error e →
    ∃ before item after, t.items = before ++ item :: after ∧
      (∀ i ∈ before, ∃ place part, Item.generated build ambient place i = .ok part) ∧
      ∃ place, item.generated build ambient place = .error e
  paths : ∀ files : FileSystem,
    (∀ recipe ∈ t.recipes, files.isFile (recipe.path.pathIn t.vars) = true) →
    t.recipePaths files = .ok (t.recipes.map fun recipe => recipe.path.pathIn t.vars)

/-- What stood for nothing stays so, what newly stands for something was not given out before, and
what stands for something as before stands for the same. -/
structure Follows (t t' : Tree) : Prop where
  stale : ∀ h, t.Issued h → ¬ t.Live h → ¬ t'.Live h
  fresh : ∀ h, t'.Live h → ¬ t.Live h → ¬ t.Issued h
  same : ∀ h e e', t.entity? h = some e → t'.entity? h = some e' → e'.core = e.core

variable {t : Tree}

theorem not_live_iff {h : Handle} : ¬ t.Live h ↔ t.entity? h = none := by
  rw [Live, not_exists, Option.eq_none_iff_forall_ne_some]

theorem Owned.hung (ho : t.Owned fun _ => False) (hr : t.Rising) : t.Hung where
  root := ho.root
  mentioned := by
    intro id node hn k hk
    have hh : t.Holds (.node id) k := (holds_node_iff hn).mpr hk
    refine ⟨ho.live _ k hh, ?_⟩
    rintro rfl
    exact hr.not_holds_root _ hh
  placed := by
    intro k hk hne
    rcases ho.held k hk with hroot | hl | ⟨h, hh⟩
    · exact absurd hroot hne
    · exact hl.elim
    · obtain ⟨id, parsed, rfl, hp⟩ := readAt?_of_holds hh
      have hm := (holds_of_readAt? hp).mp hh
      refine ⟨id, parsed, hp, List.count_eq_one_of_mem (ho.nodup_handles hp) hm, ?_⟩
      intro id' node' hn' hk'
      have hh' : t.Holds (.node id') k := (holds_node_iff hn').mpr hk'
      exact Handle.node.inj (ho.unique _ _ k hh' hh)
  rising := hr
  unread := by
    intro id node _
    cases hp : node.parsed? <;> simp [Node.file?, Node.contents, hp]

theorem Owned.walked (ho : t.Owned fun _ => False) (hr : t.Rising) : t.Walked where
  ends _ := hr.walks_iff
  once := ho.nodup_subtree hr Tree.root
  read id := by rw [ho.mem_walk_iff hr, Option.isSome_iff_exists]
  below _ _ hb hab := ho.walk_below hr hb hab
  siblings _ _ _ _ _ _ hp hcd ha hb hca hdb := ho.walk_siblings hr hp hcd ha hb hca hdb

theorem Owned.gathered (ho : t.Owned fun _ => False) (hr : t.Rising) : t.Gathered where
  items := by
    refine ⟨nodup_gather ho hr lists_items, fun i => ?_, ho.items_in_order⟩
    simp [mem_gather_iff ho hr lists_items, Live]
  recipes := by
    refine ⟨nodup_gather ho hr lists_recipes, fun i => ?_, ho.recipes_in_order⟩
    simp [mem_gather_iff ho hr lists_recipes, Live]
  repos := by
    refine ⟨nodup_gather ho hr lists_repos, fun i => ?_, ho.repoSites_in_order⟩
    simp [mem_gather_iff ho hr lists_repos, Live]
  generated _ _ _ h := generatedFrom_parts h
  ungenerated _ _ _ h := generatedFrom_stops h
  paths _ h := recipePaths_of_files h

theorem Keeps.follows {t' : Tree} (h : t.Keeps t') : t.Follows t' where
  stale k hi hn := not_live_iff.mpr (h.stale hi (not_live_iff.mp hn))
  fresh := by
    rintro k ⟨e', he'⟩ hn
    exact h.fresh he' (not_live_iff.mp hn)
  same k e e' he he' := h.entity he he'

/-! ## An example -/

namespace Nested

def rootText : String :=
  "\x7b\"F\":\x7b\"type\":\"bool\"\x7d," ++
  "\"d\":\x7b\"type\":\"config\",\"path\":\"d.json\"\x7d," ++
  "\"G\":\x7b\"type\":\"bool\"\x7d\x7d"

def childText : String := "\x7b\"H\":\x7b\"type\":\"bool\"\x7d\x7d"

def around : Surroundings where
  files := ⟨⟨"/"⟩, [(["config.json"], .file rootText.toUTF8 false),
    (["d.json"], .file childText.toUTF8 false)]⟩
  environment := ⟨[], .checked⟩

def once : Tree := ((plant "config.json" ⟨"/"⟩).parse around root).2

def tree : Tree := (once.parse around ⟨1⟩).2

def again : Tree := (tree.parse around root).2

theorem reachable_tree : tree.Reachable :=
  .call (.call (.plant _ _) (.parse around _ root)) (.parse around once ⟨1⟩)

end Nested

/-! ## Reachable trees -/

/-- A reachable tree hangs together and is walked in order, and until it is started again its handles
do not come to stand for anything else. -/
theorem well_formed {t : Tree} (h : t.Reachable) :
    t.Hung ∧ t.Walked ∧ t.Gathered ∧ ∀ t', t.Onward t' → t.Follows t' := by
  have ho := h.owned
  have hr := h.rising
  refine ⟨ho.hung hr, ho.walked hr, ho.gathered hr, fun t' ht => ?_⟩
  exact (ht.keeps h.coherent).follows

/-- The walk comes to the child, items are gathered in order, and reading the root again takes the
item of the child away for good. -/
theorem well_formed_nested :
    Nested.tree.Reachable ∧ Nested.tree.walk = [⟨0⟩, ⟨1⟩] ∧
      Nested.tree.gather Contents.items = [⟨0⟩, ⟨1⟩, ⟨2⟩] ∧
      (∃ item, Nested.tree.item? ⟨2⟩ = some item) ∧
      ∀ t', Nested.again.Onward t' → ¬ t'.Live (.item ⟨2⟩) := by
  obtain ⟨-, hwalked, hgathered, -⟩ := well_formed Nested.reachable_tree
  have hwalk : Nested.tree.walk = [⟨0⟩, ⟨1⟩] := by decide +kernel
  have hitems : Nested.tree.gather Contents.items = [⟨0⟩, ⟨1⟩, ⟨2⟩] := by decide +kernel
  refine ⟨Nested.reachable_tree, hwalk, hitems, ?_, ?_⟩
  · exact (hgathered.items.2.1 ⟨2⟩).mp (by rw [hitems]; simp)
  · intro t' ht
    have hagain : Nested.again.Reachable := .call Nested.reachable_tree (.parse _ _ _)
    obtain ⟨-, -, -, honward⟩ := well_formed hagain
    refine (honward t' ht).stale _ ?_ ?_
    · change 2 < Nested.again.arena.items.next
      decide +kernel
    · rw [not_live_iff, entity?_item]
      have hgone : (Nested.again.item? ⟨2⟩).isNone = true := by decide +kernel
      rw [Option.isNone_iff_eq_none.mp hgone]
      rfl

end Tree

end MakeConfig
