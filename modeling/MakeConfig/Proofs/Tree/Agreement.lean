import MakeConfig.Proofs.Tree.Coherent

/-! # Agreement with the variables

In a reachable tree nothing that entities keep can be told from what the variables say now:
visibility, paths and the list of those that are told of a change. A small schema with an item, a
child and a repo serves as an example.
-/

namespace MakeConfig

/-- Every variable that is required to hold a text holds it. A requirement that is no text fails. -/
def Variables.Satisfies {κ : Type} (s : Variables κ) (required : Requirements) : Prop :=
  ∀ name expected, (name, expected) ∈ required.entries →
    ∃ text, expected = .string text ∧ s.get? name = some text

theorem Variables.satisfies_iff {κ : Type} (s : Variables κ) (required : Requirements) :
    s.Satisfies required ↔ s.meetsAll required = true := by
  simp only [Satisfies, meetsAll_iff, OrderedMap.mem_entries_iff]

namespace Binding

theorem Current.unresolved_eq {κ : Type} {b : Binding} {s : Variables κ} (h : b.Current s) :
    b.unresolved = (Template.names b.raw).filter fun name => !s.contains name := by
  rw [b.unresolved_eq, b.names_eq]
  apply List.filter_congr
  intro name hn
  rw [h name (b.names_eq ▸ hn), Variables.contains_eq_isSome, Option.not_isSome]

end Binding

namespace Tree

/-- A handle stands for something that looks at a variable. -/
def Needs (t : Tree) (name : String) : Handle → Prop
  | .item id => ∃ item, t.item? id = some item ∧ name ∈ item.depends.keys
  | .node id => ∃ node, t.node? id = some node ∧
      (name ∈ node.depends.keys ∨ name ∈ Template.names node.path.raw)
  | .recipe id => ∃ recipe, t.recipe? id = some recipe ∧ name ∈ Template.names recipe.path.raw
  | .repo id => ∃ repo, t.repo? id = some repo ∧
      (name ∈ Template.names repo.directory.raw ∨ name ∈ Template.names repo.out.raw)

theorem needs_iff (t : Tree) (name : String) (h : Handle) :
    t.Needs name h ↔ ∃ e, t.entity? h = some e ∧ name ∈ e.watched := by
  have union : ∀ l l' : List String, name ∈ l ++ l'.filter (· ∉ l) ↔ name ∈ l ∨ name ∈ l' := by
    intro l l'
    by_cases hl : name ∈ l <;> simp [hl]
  have image : ∀ {α : Type} (f : α → Entity) (o : Option α) (p : Entity → Prop),
      (∃ e, o.map f = some e ∧ p e) ↔ ∃ a, o = some a ∧ p (f a) := by
    intro α f o p
    cases o <;> simp
  cases h with
  | item id => simp only [Needs, entity?_item, image, Entity.watched]
  | node id =>
    simp only [Needs, entity?_node, image, Entity.watched, Node.watched, union, Binding.names_eq]
  | recipe id =>
    simp only [Needs, entity?_recipe, image, Entity.watched, Recipe.watched, Binding.names_eq]
  | repo id =>
    simp only [Needs, entity?_repo, image, Entity.watched, Repo.watched, union, Binding.names_eq]

/-! ## An example -/

namespace Sample

def schemaText : String :=
  "\x7b\"F\":\x7b\"type\":\"bool\",\"depend\":\x7b\"A\":\"y\"\x7d\x7d," ++
  "\"d\":\x7b\"type\":\"config\",\"path\":\"$A/$B\"\x7d," ++
  "\"r\":\x7b\"type\":\"repo\",\"out\":\"$B\"\x7d\x7d"

def around : Surroundings where
  files := ⟨⟨"/"⟩, [(["config.json"], .file schemaText.toUTF8 false)]⟩
  environment := ⟨[], .checked⟩

def planted : Tree := plant "config.json" ⟨"/"⟩

def tree : Tree := (planted.parse around root).2.publish "A" "y"

theorem reachable_tree : tree.Reachable :=
  .call (.call (.plant _ _) (.parse around planted root)) (.setVariable _ "A" "y")

end Sample

/-! ## Visibility -/

/-- Items and nodes are visible exactly as long as their requirements are met, and the changes
that an item has seen are the last ones of variables that it depends on. -/
theorem visibility_current {t : Tree} (h : t.Reachable) :
    (∀ id item, t.item? id = some item →
      item.visible = t.vars.meetsAll item.depends ∧
      (item.visible = true ↔ t.vars.Satisfies item.depends) ∧
      ∀ name value, (name, value) ∈ item.observed.entries →
        name ∈ item.depends.keys ∧ t.vars.get? name = some value) ∧
    ∀ id node, t.node? id = some node →
      node.visible = t.vars.meetsAll node.depends ∧
      (node.visible = true ↔ t.vars.Satisfies node.depends) := by
  constructor
  · intro id item hi
    have hcur := h.coherent.item hi
    refine ⟨hcur.visible, ?_, ?_⟩
    · rw [hcur.visible, Variables.satisfies_iff]
    · intro name value ho
      exact hcur.observed name value ((item.observed.mem_entries_iff name value).mp ho)
  · intro id node hn
    have hcur := h.coherent.node hn
    refine ⟨hcur.visible, ?_⟩
    rw [hcur.visible, Variables.satisfies_iff]

theorem visibility_current_sample :
    Sample.tree.Reachable ∧ ∃ item, Sample.tree.item? ⟨0⟩ = some item ∧
      Sample.tree.vars.Satisfies item.depends ∧ Sample.tree.vars.get? "A" = some "y" := by
  have hv : (Sample.tree.item? ⟨0⟩).any (fun item =>
      item.visible && decide (("A", "y") ∈ item.observed.entries)) = true := by
    decide +kernel
  obtain ⟨item, hi, hv⟩ := Option.any_eq_true _ _ |>.mp hv
  obtain ⟨hvisible, hobserved⟩ := Bool.and_eq_true_iff.mp hv
  obtain ⟨-, hs, ho⟩ := (visibility_current Sample.reachable_tree).1 ⟨0⟩ item hi
  exact ⟨Sample.reachable_tree, item, hi, hs.mp hvisible, (ho _ _ (of_decide_eq_true hobserved)).2⟩

/-! ## Paths -/

/-- Paths are the ones that the variables in force give, whether they were put together early, from
noted values or late. Which values a node knew when something was bound to them has no effect. -/
theorem paths_current {t : Tree} (h : t.Reachable) :
    (∀ id node, t.node? id = some node →
      node.path.path = node.path.origin.joinNormal (t.vars.fill node.path.raw) ∧
      node.path.unresolved =
        (Template.names node.path.raw).filter (fun name => !t.vars.contains name) ∧
      ∀ raw base, (Binding.bind raw base node.known).pathIn t.vars =
        base.joinNormal (t.vars.fill raw)) ∧
    (∀ id recipe, t.recipe? id = some recipe →
      recipe.path.pathIn t.vars =
        recipe.path.origin.joinNormal (t.vars.fill recipe.path.raw)) ∧
    ∀ id repo, t.repo? id = some repo →
      repo.directory.pathIn t.vars =
        repo.directory.origin.joinNormal (t.vars.fill repo.directory.raw) ∧
      repo.out.pathIn t.vars = repo.out.origin.joinNormal (t.vars.fill repo.out.raw) := by
  refine ⟨?_, ?_, ?_⟩
  · intro id node hn
    have hcur := h.coherent.node hn
    refine ⟨hcur.path.path_eq, hcur.path.unresolved_eq, fun raw base => ?_⟩
    exact (Binding.noted_bind raw base hcur.known).pathIn_eq
  · intro id recipe hr
    exact (h.coherent.recipe hr).pathIn_eq
  · intro id repo hr
    obtain ⟨hd, ho⟩ := h.coherent.repo hr
    exact ⟨hd.pathIn_eq, ho.pathIn_eq⟩

theorem paths_current_sample :
    Sample.tree.Reachable ∧
      (∃ node, Sample.tree.node? ⟨1⟩ = some node ∧ node.path.path = ⟨"/y/$B"⟩ ∧
        node.path.unresolved = ["B"]) ∧
      ∃ repo, Sample.tree.repo? ⟨0⟩ = some repo ∧
        repo.directory.pathIn Sample.tree.vars = ⟨"/r"⟩ ∧
        repo.out.pathIn Sample.tree.vars = ⟨"/$B"⟩ := by
  obtain ⟨hnodes, -, hrepos⟩ := paths_current Sample.reachable_tree
  refine ⟨Sample.reachable_tree, ?_, ?_⟩
  · have hn : (Sample.tree.node? ⟨1⟩).any (fun node =>
        decide (node.path.origin.joinNormal (Sample.tree.vars.fill node.path.raw) = ⟨"/y/$B"⟩) &&
        decide ((Template.names node.path.raw).filter
          (fun name => !Sample.tree.vars.contains name) = ["B"])) = true := by
      decide +kernel
    obtain ⟨node, hn, hv⟩ := Option.any_eq_true _ _ |>.mp hn
    obtain ⟨hp, hu⟩ := Bool.and_eq_true_iff.mp hv
    obtain ⟨hpath, hunresolved, -⟩ := hnodes ⟨1⟩ node hn
    exact ⟨node, hn, hpath.trans (of_decide_eq_true hp),
      hunresolved.trans (of_decide_eq_true hu)⟩
  · have hr : (Sample.tree.repo? ⟨0⟩).any (fun repo =>
        decide (repo.directory.origin.joinNormal (Sample.tree.vars.fill repo.directory.raw) =
          ⟨"/r"⟩) &&
        decide (repo.out.origin.joinNormal (Sample.tree.vars.fill repo.out.raw) =
          ⟨"/$B"⟩)) = true := by
      decide +kernel
    obtain ⟨repo, hr, hv⟩ := Option.any_eq_true _ _ |>.mp hr
    obtain ⟨hd, ho⟩ := Bool.and_eq_true_iff.mp hv
    obtain ⟨hdir, hout⟩ := hrepos ⟨0⟩ repo hr
    exact ⟨repo, hr, hdir.trans (of_decide_eq_true hd), hout.trans (of_decide_eq_true ho)⟩

/-! ## Watchers -/

/-- A variable is watched by those that look at it and by nobody else, each once. So a change
comes to them and leaves all others alone. -/
theorem watching_exact {t : Tree} (h : t.Reachable) :
    (∀ name k, k ∈ t.vars.watching name ↔ t.Needs name k) ∧
    (∀ name, (t.vars.watching name).Nodup) ∧
    ∀ name value, t.vars.changes name value = true → ∀ k,
      (t.Needs name k → (t.publish name value).entity? k =
        (t.entity? k).map (·.notice name value (t.vars.write name value))) ∧
      (¬ t.Needs name k → (t.publish name value).entity? k = t.entity? k) := by
  have hw : ∀ name k, k ∈ t.vars.watching name ↔ t.Needs name k := by
    intro name k
    rw [h.coherent.watching, needs_iff]
  refine ⟨hw, h.coherent.nodup, ?_⟩
  intro name value hch k
  rw [t.entity?_publish name value (h.coherent.nodup name)]
  constructor
  · intro hk
    exact if_pos ⟨hch, (hw name k).mpr hk⟩
  · intro hk
    exact if_neg fun hb => hk ((hw name k).mp hb.2)

theorem watching_exact_sample :
    Sample.tree.Reachable ∧ Sample.tree.Needs "B" (.repo ⟨0⟩) ∧
      ¬ Sample.tree.Needs "B" (.item ⟨0⟩) := by
  obtain ⟨hw, -, -⟩ := watching_exact Sample.reachable_tree
  refine ⟨Sample.reachable_tree, (hw _ _).mp ?_, mt (hw _ _).mpr ?_⟩
  · decide +kernel
  · decide +kernel

end Tree

end MakeConfig
