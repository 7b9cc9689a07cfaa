import MakeConfig.Proofs.Lists
import MakeConfig.Proofs.Tree.Ownership
import MakeConfig.Tree.Walk
import Mathlib.Data.List.Flatten
import Mathlib.Data.List.Nodup
import Mathlib.Logic.Relation

/-! # The order of walks

A walk comes to each node that is read once, to the node before all that hangs below it, and to
what hangs below one child before what hangs below the next. What is gathered along the walk keeps
this order.
-/

namespace MakeConfig

namespace Tree

variable {t : Tree}

def readAt? (t : Tree) (id : NodeId) : Option Parsed := (t.node? id).bind Node.parsed?

/-- A walk that nothing bounds, through the nodes that it is yet to come to. -/
inductive Walks (t : Tree) : List NodeId → List NodeId → Prop where
  | done : t.Walks [] []
  | skip {id : NodeId} {ids order : List NodeId} :
      t.readAt? id = none → t.Walks ids order → t.Walks (id :: ids) order
  | enter {id : NodeId} {ids order : List NodeId} {parsed : Parsed} :
      t.readAt? id = some parsed → t.Walks (parsed.contents.children ++ ids) order →
      t.Walks (id :: ids) (id :: order)

theorem Walks.unique {ids order order' : List NodeId} (h : t.Walks ids order)
    (h' : t.Walks ids order') : order' = order := by
  induction h generalizing order' with
  | done =>
    cases h'
    rfl
  | skip hn _ ih =>
    cases h' with
    | skip _ h' => exact ih h'
    | enter hp _ => cases hn.symm.trans hp
  | enter hp _ ih =>
    cases h' with
    | skip hn _ => cases hn.symm.trans hp
    | enter hp' h' =>
      cases hp.symm.trans hp'
      rw [ih h']

/-- The nodes that a walk from a node comes to. -/
def subtree (t : Tree) (id : NodeId) : List NodeId := t.walkFrom (t.arena.nodes.next + 1) id

theorem subtree_of_unread {id : NodeId} (hp : t.readAt? id = none) : t.subtree id = [] := by
  rw [readAt?] at hp
  simp only [subtree, walkFrom, hp]

theorem holds_of_readAt? {id : NodeId} {parsed : Parsed} (hp : t.readAt? id = some parsed)
    {k : Handle} : t.Holds (.node id) k ↔ k ∈ parsed.contents.handles := by
  obtain ⟨node, hn, hp⟩ := Option.bind_eq_some_iff.mp hp
  have hcontents : node.contents = parsed.contents := by simp [Node.contents, hp]
  rw [holds_node_iff hn, hcontents]

theorem readAt?_of_holds {h k : Handle} (hk : t.Holds h k) :
    ∃ id parsed, h = .node id ∧ t.readAt? id = some parsed := by
  obtain ⟨id, node, rfl, hn, hm⟩ := holds_iff_node.mp hk
  cases hp : node.parsed? with
  | none => simp [Node.contents, hp, Contents.handles, Contents.empty] at hm
  | some parsed => exact ⟨id, parsed, rfl, by rw [readAt?, hn, Option.bind_some, hp]⟩

theorem issued_of_readAt? {id : NodeId} {parsed : Parsed} (hp : t.readAt? id = some parsed) :
    id.index < t.arena.nodes.next := by
  obtain ⟨node, hn, -⟩ := Option.bind_eq_some_iff.mp hp
  exact issued_of_node hn

theorem mem_children_iff {c : Contents} {id : NodeId} :
    id ∈ c.children ↔ .node id ∈ c.handles := by
  simp [Contents.handles]

namespace Rising

variable (hr : t.Rising)

include hr

theorem index_lt_of_readAt? {id child : NodeId} {parsed : Parsed}
    (hp : t.readAt? id = some parsed) (hc : child ∈ parsed.contents.children) :
    id.index < child.index := by
  obtain ⟨parent, he, hlt⟩ := hr.index_lt ((holds_of_readAt? hp).mpr (mem_children_iff.mp hc))
  cases he
  exact hlt

/-- From the leaves up: what holds of a node if it holds of its children holds of all. -/
theorem bottom_up {P : NodeId → Prop}
    (step : ∀ id, (∀ parsed, t.readAt? id = some parsed →
      ∀ child ∈ parsed.contents.children, P child) → P id) (id : NodeId) : P id := by
  suffices h : ∀ n (id : NodeId), t.arena.nodes.next ≤ n + id.index → P id from
    h t.arena.nodes.next id (Nat.le_add_right _ _)
  intro n
  induction n with
  | zero =>
    intro id hle
    refine step id fun parsed hp => ?_
    have := issued_of_readAt? hp
    omega
  | succ n ih =>
    intro id hle
    refine step id fun parsed hp child hc => ih child ?_
    have := hr.index_lt_of_readAt? hp hc
    omega

theorem walkFrom_of_le {depth depth' : Nat} {id : NodeId}
    (hd : t.arena.nodes.next ≤ depth + id.index) (hle : depth ≤ depth') :
    t.walkFrom depth' id = t.walkFrom depth id := by
  induction depth generalizing depth' id with
  | zero =>
    have hn : t.readAt? id = none := by
      cases hp : t.readAt? id with
      | none => rfl
      | some parsed =>
        have := issued_of_readAt? hp
        omega
    rw [readAt?] at hn
    cases depth' with
    | zero => rfl
    | succ depth' => simp only [walkFrom, hn]
  | succ depth ih =>
    obtain ⟨depth', rfl⟩ : ∃ k, depth' = k + 1 := ⟨depth' - 1, by omega⟩
    simp only [walkFrom]
    split
    · rfl
    · next parsed hp =>
      congr 1
      apply List.flatMap_congr
      intro child hc
      have := hr.index_lt_of_readAt? hp hc
      exact ih (by omega) (by omega)

/-- The bound on the depth cuts nothing off. -/
theorem subtree_of_read {id : NodeId} {parsed : Parsed} (hp : t.readAt? id = some parsed) :
    t.subtree id = id :: parsed.contents.children.flatMap t.subtree := by
  have hp' := hp
  rw [readAt?] at hp'
  simp only [subtree, walkFrom, hp']
  congr 1
  apply List.flatMap_congr
  intro child hc
  have := hr.index_lt_of_readAt? hp hc
  exact (hr.walkFrom_of_le (by omega) (Nat.le_succ _)).symm

theorem walks_subtree (id : NodeId) {ids order : List NodeId} (h : t.Walks ids order) :
    t.Walks (id :: ids) (t.subtree id ++ order) := by
  induction id using hr.bottom_up generalizing ids order with
  | step id ih =>
    cases hp : t.readAt? id with
    | none =>
      rw [subtree_of_unread hp]
      exact .skip hp h
    | some parsed =>
      rw [hr.subtree_of_read hp]
      refine .enter hp ?_
      change t.Walks _ (parsed.contents.children.flatMap t.subtree ++ order)
      have hchildren := ih parsed hp
      generalize parsed.contents.children = children at hchildren
      induction children with
      | nil => exact h
      | cons child children ihc =>
        rw [List.flatMap_cons, List.append_assoc]
        exact hchildren child List.mem_cons_self
          (ihc fun c hc => hchildren c (List.mem_cons_of_mem _ hc))

theorem walks_iff {order : List NodeId} : t.Walks [root] order ↔ order = t.walk := by
  have hwalk : t.Walks [root] t.walk := by
    have h := hr.walks_subtree root .done
    rwa [List.append_nil] at h
  constructor
  · exact fun h => hwalk.unique h
  · rintro rfl
    exact hwalk

/-! ## Who is come to -/

theorem mem_subtree_iff {id k : NodeId} :
    k ∈ t.subtree id ↔ t.From (.node id) (.node k) ∧ (t.readAt? k).isSome = true := by
  induction id using hr.bottom_up with
  | step id ih =>
    constructor
    · intro hk
      cases hp : t.readAt? id with
      | none =>
        rw [subtree_of_unread hp] at hk
        cases hk
      | some parsed =>
        rw [hr.subtree_of_read hp, List.mem_cons, List.mem_flatMap] at hk
        rcases hk with rfl | ⟨child, hc, hk⟩
        · exact ⟨.refl, by rw [hp]; rfl⟩
        · obtain ⟨hfrom, hread⟩ := (ih parsed hp child hc).mp hk
          exact ⟨.head ((holds_of_readAt? hp).mpr (mem_children_iff.mp hc)) hfrom, hread⟩
    · rintro ⟨hfrom, hread⟩
      rcases Relation.ReflTransGen.cases_head hfrom with he | ⟨h, hh, hrest⟩
      · cases he
        obtain ⟨parsed, hp⟩ := Option.isSome_iff_exists.mp hread
        rw [hr.subtree_of_read hp]
        exact List.mem_cons_self
      · obtain ⟨_, parsed, he, hp⟩ := readAt?_of_holds hh
        cases he
        have hm := (holds_of_readAt? hp).mp hh
        obtain ⟨child, rfl⟩ : ∃ child, h = .node child := by
          rcases Relation.ReflTransGen.cases_head hrest with rfl | ⟨_, hh', _⟩
          · exact ⟨k, rfl⟩
          · obtain ⟨child, -, rfl, -⟩ := readAt?_of_holds hh'
            exact ⟨child, rfl⟩
        have hc := mem_children_iff.mpr hm
        rw [hr.subtree_of_read hp, List.mem_cons, List.mem_flatMap]
        exact .inr ⟨child, hc, (ih parsed hp child hc).mpr ⟨hrest, hread⟩⟩

theorem subtree_sublist {a b : NodeId} (hfrom : t.From (.node a) (.node b)) :
    (t.subtree b).Sublist (t.subtree a) := by
  generalize hx : Handle.node b = x at hfrom
  induction hfrom generalizing b with
  | refl =>
    cases hx
    exact .refl _
  | tail _ hh ih =>
    subst hx
    obtain ⟨parent, parsed, rfl, hp⟩ := readAt?_of_holds hh
    have hb := mem_children_iff.mpr ((holds_of_readAt? hp).mp hh)
    refine .trans ?_ (ih rfl)
    rw [hr.subtree_of_read hp]
    exact .cons _ (List.sublist_flatten_of_mem (List.mem_map_of_mem hb))

end Rising

namespace Owned

variable {L : Handle → Prop}

theorem above_total (ho : t.Owned L) {c d x : Handle} (hc : t.From c x) (hd : t.From d x) :
    t.From c d ∨ t.From d c := by
  have hunique : Relator.RightUnique (Function.swap t.Holds) := fun x h h' hh hh' =>
    ho.unique h h' x hh hh'
  have htotal := Relation.ReflTransGen.total_of_right_unique hunique
    (Relation.reflTransGen_swap.mpr hc) (Relation.reflTransGen_swap.mpr hd)
  exact htotal.symm.imp Relation.reflTransGen_swap.mp Relation.reflTransGen_swap.mp

theorem siblings_apart (ho : t.Owned L) (hr : t.Rising) {p c d x : Handle} (hc : t.Holds p c)
    (hd : t.Holds p d) (hcx : t.From c x) (hdx : t.From d x) : c = d := by
  have hself : ¬ t.Below p p := by
    obtain ⟨id, -, rfl, -⟩ := readAt?_of_holds hc
    exact hr.not_below_self id
  have hup : ∀ {c d : Handle}, t.Holds p c → t.Holds p d → t.From c d → c = d := by
    intro c d hc hd hcd
    rcases Relation.ReflTransGen.cases_tail hcd with he | ⟨h, hch, hhd⟩
    · exact he.symm
    · cases ho.unique h p d hhd hd
      exact absurd (.head' hc hch) hself
  rcases ho.above_total hcx hdx with hcd | hdc
  · exact hup hc hd hcd
  · exact (hup hd hc hdc).symm

theorem nodup_handles (ho : t.Owned L) {id : NodeId} {parsed : Parsed}
    (hp : t.readAt? id = some parsed) : parsed.contents.handles.Nodup := by
  obtain ⟨node, hn, hparsed⟩ := Option.bind_eq_some_iff.mp hp
  refine ho.nodup (.node id) _ ?_
  simp [parts?, hn, Entity.parts, Node.contents, hparsed]

theorem nodup_subtree (ho : t.Owned L) (hr : t.Rising) (id : NodeId) :
    (t.subtree id).Nodup := by
  induction id using hr.bottom_up with
  | step id ih =>
    cases hp : t.readAt? id with
    | none =>
      rw [subtree_of_unread hp]
      exact List.nodup_nil
    | some parsed =>
      have hholds : ∀ child ∈ parsed.contents.children, t.Holds (.node id) (.node child) :=
        fun child hc => (holds_of_readAt? hp).mpr (mem_children_iff.mp hc)
      have hchildren : parsed.contents.children.Nodup :=
        (Contents.nodup_children (ho.nodup_handles hp)).of_map _
      rw [hr.subtree_of_read hp, List.nodup_cons, List.mem_flatMap, List.nodup_flatMap]
      refine ⟨?_, ih parsed hp, ?_⟩
      · rintro ⟨child, hc, hm⟩
        exact hr.not_below_self id (.head' (hholds child hc) (hr.mem_subtree_iff.mp hm).1)
      · refine hchildren.imp_of_mem fun {c d} hc hd hne x hxc hxd => hne ?_
        exact Handle.node.inj (ho.siblings_apart hr (hholds c hc) (hholds d hd)
          (hr.mem_subtree_iff.mp hxc).1 (hr.mem_subtree_iff.mp hxd).1)

variable (ho : t.Owned fun _ => False) (hr : t.Rising)

include ho hr

theorem from_root {k : Handle} (hk : t.Live k) : t.From (.node Tree.root) k := by
  have hnode : ∀ n (id : NodeId), id.index < n → t.Live (.node id) →
      t.From (.node Tree.root) (.node id) := by
    intro n
    induction n with
    | zero => exact fun id hlt => absurd hlt (Nat.not_lt_zero _)
    | succ n ih =>
      intro id hlt hk
      rcases ho.held _ hk with he | hl | ⟨h, hh⟩
      · rw [he]
        exact .refl
      · exact hl.elim
      · obtain ⟨parent, rfl, hlt'⟩ := hr.index_lt hh
        exact .tail (ih parent (by omega) (live_of_holds hh)) hh
  rcases ho.held k hk with rfl | hl | ⟨h, hh⟩
  · exact .refl
  · exact hl.elim
  · obtain ⟨parent, -, rfl, -⟩ := readAt?_of_holds hh
    exact .tail (hnode _ parent (Nat.lt_succ_self _) (live_of_holds hh)) hh

theorem mem_walk_iff {id : NodeId} : id ∈ t.walk ↔ (t.readAt? id).isSome = true := by
  rw [show t.walk = t.subtree Tree.root from rfl, hr.mem_subtree_iff, and_iff_right_iff_imp]
  intro hread
  obtain ⟨parsed, hp⟩ := Option.isSome_iff_exists.mp hread
  obtain ⟨node, hn, -⟩ := Option.bind_eq_some_iff.mp hp
  exact ho.from_root hr ⟨_, entity?_eq_node.mpr hn⟩

/-- A walk comes to a node before all that hangs below it. -/
theorem walk_below {a b : NodeId} (hb : b ∈ t.walk) (hab : t.Below (.node a) (.node b)) :
    [a, b].Sublist t.walk := by
  obtain ⟨h, hh, hrest⟩ := Relation.TransGen.head'_iff.mp hab
  obtain ⟨_, parsed, he, hp⟩ := readAt?_of_holds hh
  cases he
  have hm : b ∈ t.subtree a :=
    hr.mem_subtree_iff.mpr ⟨hab.to_reflTransGen, (ho.mem_walk_iff hr).mp hb⟩
  have hne : b ≠ a := fun he => hr.not_below_self a (he ▸ hab)
  have htop : (t.subtree a).Sublist t.walk :=
    hr.subtree_sublist (ho.from_root hr (live_of_holds hh))
  refine .trans ?_ htop
  rw [hr.subtree_of_read hp] at hm ⊢
  exact .cons_cons _ (List.singleton_sublist.mpr ((List.mem_cons.mp hm).resolve_left hne))

/-- A walk comes to all that hangs below one child before what hangs below the next. -/
theorem walk_siblings {id c d a b : NodeId} {parsed : Parsed} (hp : t.readAt? id = some parsed)
    (hcd : [c, d].Sublist parsed.contents.children) (ha : a ∈ t.walk) (hb : b ∈ t.walk)
    (hca : t.From (.node c) (.node a)) (hdb : t.From (.node d) (.node b)) :
    [a, b].Sublist t.walk := by
  obtain ⟨node, hn, -⟩ := Option.bind_eq_some_iff.mp hp
  have htop : (t.subtree id).Sublist t.walk :=
    hr.subtree_sublist (ho.from_root hr ⟨_, entity?_eq_node.mpr hn⟩)
  have hac : a ∈ t.subtree c := hr.mem_subtree_iff.mpr ⟨hca, (ho.mem_walk_iff hr).mp ha⟩
  have hbd : b ∈ t.subtree d := hr.mem_subtree_iff.mpr ⟨hdb, (ho.mem_walk_iff hr).mp hb⟩
  have hpair : [a, b].Sublist ([c, d].flatMap t.subtree) := by
    simpa using (List.singleton_sublist.mpr hac).append (List.singleton_sublist.mpr hbd)
  refine .trans ?_ htop
  rw [hr.subtree_of_read hp]
  exact .cons _ (hpair.trans (hcd.flatMap t.subtree))

end Owned

/-! ## What is gathered along a walk -/

def gather {ι : Type} (t : Tree) (list : Contents → List ι) : List ι :=
  t.walkedNodes.flatMap fun node => list node.contents

/-- The handles of one kind in contents, in their list. -/
structure Lists {ι : Type} (list : Contents → List ι) (handle : ι → Handle) : Prop where
  mem : ∀ c i, i ∈ list c ↔ handle i ∈ c.handles
  nodup : ∀ c, c.handles.Nodup → (list c).Nodup
  ne_root : ∀ i, handle i ≠ .node root

theorem lists_items : Lists Contents.items Handle.item where
  mem c i := by simp [Contents.handles]
  nodup _ h := (Contents.nodup_items h).of_map _
  ne_root i := by simp

theorem lists_recipes : Lists Contents.recipes Handle.recipe where
  mem c i := by simp [Contents.handles]
  nodup c h := by
    simp only [Contents.handles, List.append_assoc] at h
    exact (List.nodup_append.mp (List.nodup_append.mp (List.nodup_append.mp h).2.1).2.1).1.of_map _
  ne_root i := by simp

theorem lists_repos : Lists Contents.repos Handle.repo where
  mem c i := by simp [Contents.handles]
  nodup c h := by
    simp only [Contents.handles] at h
    exact (List.nodup_append.mp h).2.1.of_map _
  ne_root i := by simp

section Gather

variable {ι : Type} {list : Contents → List ι} {handle : ι → Handle}

theorem mem_gather_iff (ho : t.Owned fun _ => False) (hr : t.Rising) (hl : Lists list handle)
    {i : ι} : i ∈ t.gather list ↔ t.Live (handle i) := by
  simp only [gather, walkedNodes, List.mem_flatMap, List.mem_filterMap]
  constructor
  · rintro ⟨node, ⟨id, -, hn⟩, hi⟩
    exact ho.live (.node id) _ ((holds_node_iff hn).mpr ((hl.mem _ i).mp hi))
  · intro hlive
    rcases ho.held _ hlive with he | hloose | ⟨h, hh⟩
    · exact absurd he (hl.ne_root i)
    · exact hloose.elim
    · obtain ⟨id, parsed, rfl, hp⟩ := readAt?_of_holds hh
      obtain ⟨node, hn, hparsed⟩ := Option.bind_eq_some_iff.mp hp
      refine ⟨node, ⟨id, (ho.mem_walk_iff hr).mpr (by rw [hp]; rfl), hn⟩, (hl.mem _ i).mpr ?_⟩
      simpa [Node.contents, hparsed] using (holds_of_readAt? hp).mp hh

theorem nodup_gather (ho : t.Owned fun _ => False) (hr : t.Rising) (hl : Lists list handle) :
    (t.gather list).Nodup := by
  have hnodes : t.walkedNodes.flatMap (fun node => list node.contents) =
      t.walk.flatMap fun id => ((t.node? id).map fun node => list node.contents).getD [] := by
    unfold walkedNodes
    induction t.walk with
    | nil => rfl
    | cons id ids ih => cases hn : t.node? id <;> simp [hn, ih]
  have hmem : ∀ id i, i ∈ ((t.node? id).map fun node => list node.contents).getD [] →
      t.Holds (.node id) (handle i) := by
    intro id i hi
    cases hn : t.node? id with
    | none => simp [hn] at hi
    | some node =>
      rw [hn] at hi
      exact (holds_node_iff hn).mpr ((hl.mem _ i).mp hi)
  rw [gather, hnodes, List.nodup_flatMap]
  constructor
  · intro id _
    cases hn : t.node? id with
    | none => exact List.nodup_nil
    | some node =>
      refine hl.nodup _ (ho.nodup (.node id) _ ?_)
      simp [parts?, hn, Entity.parts]
  · refine (ho.nodup_subtree hr root).imp fun {id id'} hne i hi hi' => hne ?_
    exact Handle.node.inj (ho.unique _ _ _ (hmem id i hi) (hmem id' i hi'))

end Gather

theorem node_of_mem_walkedNodes {node : Node} (h : node ∈ t.walkedNodes) :
    ∃ id, t.node? id = some node := by
  obtain ⟨id, -, hn⟩ := List.mem_filterMap.mp h
  exact ⟨id, hn⟩

namespace Owned

variable {L : Handle → Prop} (ho : t.Owned L)

include ho

theorem live_of_mem {id : NodeId} {node : Node} (hn : t.node? id = some node) {k : Handle}
    (hk : k ∈ node.contents.handles) : t.Live k :=
  ho.live (.node id) k ((holds_node_iff hn).mpr hk)

theorem item_of_mem {id : NodeId} {node : Node} (hn : t.node? id = some node) {i : ItemId}
    (hi : i ∈ node.contents.items) : ∃ item, t.item? i = some item := by
  obtain ⟨e, he⟩ := ho.live_of_mem hn ((lists_items.mem _ i).mp hi)
  obtain ⟨item, hitem, -⟩ := Option.map_eq_some_iff.mp he
  exact ⟨item, hitem⟩

theorem recipe_of_mem {id : NodeId} {node : Node} (hn : t.node? id = some node) {i : RecipeId}
    (hi : i ∈ node.contents.recipes) : ∃ recipe, t.recipe? i = some recipe := by
  obtain ⟨e, he⟩ := ho.live_of_mem hn ((lists_recipes.mem _ i).mp hi)
  obtain ⟨recipe, hrecipe, -⟩ := Option.map_eq_some_iff.mp he
  exact ⟨recipe, hrecipe⟩

theorem repo_of_mem {id : NodeId} {node : Node} (hn : t.node? id = some node) {i : RepoId}
    (hi : i ∈ node.contents.repos) : ∃ repo, t.repo? i = some repo := by
  obtain ⟨e, he⟩ := ho.live_of_mem hn ((lists_repos.mem _ i).mp hi)
  obtain ⟨repo, hrepo, -⟩ := Option.map_eq_some_iff.mp he
  exact ⟨repo, hrepo⟩

theorem items_in_order :
    List.Forall₂ (fun i item => t.item? i = some item) (t.gather Contents.items) t.items := by
  refine forall₂_flatMap fun node hnode => forall₂_filterMap fun i hi => ?_
  obtain ⟨id, hn⟩ := node_of_mem_walkedNodes hnode
  exact ho.item_of_mem hn hi

theorem recipes_in_order :
    List.Forall₂ (fun i recipe => t.recipe? i = some recipe) (t.gather Contents.recipes)
      t.recipes := by
  refine forall₂_flatMap fun node hnode => forall₂_filterMap fun i hi => ?_
  obtain ⟨id, hn⟩ := node_of_mem_walkedNodes hnode
  exact ho.recipe_of_mem hn hi

theorem repoSites_in_order :
    List.Forall₂ (fun i site => site.id = i ∧ t.repo? i = some site.repo ∧
        ∃ id node, t.node? id = some node ∧ i ∈ node.contents.repos ∧
          site.base = node.baseDirectory?.getD ⟨""⟩)
      (t.gather Contents.repos) t.repoSites := by
  refine forall₂_flatMap fun node hnode => ?_
  obtain ⟨id, hn⟩ := node_of_mem_walkedNodes hnode
  have hlook := forall₂_filterMap
    (f := fun i => (t.repo? i).map fun repo =>
      ({ id := i, repo, base := node.baseDirectory?.getD ⟨""⟩ } : RepoSite))
    (l := node.contents.repos) fun i hi => by
      obtain ⟨repo, hrepo⟩ := ho.repo_of_mem hn hi
      exact ⟨_, by rw [hrepo]; rfl⟩
  refine ((List.forall₂_and_left _ _).mpr ⟨fun _ hi => hi, hlook⟩).imp ?_
  rintro i site ⟨hi, hsite⟩
  obtain ⟨repo, hrepo, rfl⟩ := Option.map_eq_some_iff.mp hsite
  exact ⟨rfl, hrepo, id, node, hn, hi, rfl⟩

end Owned

theorem generatedFrom_parts {build : Build} {ambient : Ambient} {place : Nat}
    {items : List Item} {entries : List (String × String)}
    (h : generatedFrom build ambient place items = .ok entries) :
    ∃ parts : List (List (String × String)), entries = parts.flatten ∧
      List.Forall₂ (fun item part => ∃ place, item.generated build ambient place = .ok part) items
        parts := by
  induction items generalizing place entries with
  | nil =>
    cases h
    exact ⟨[], rfl, .nil⟩
  | cons item items ih =>
    unfold generatedFrom at h
    cases hfirst : item.generated build ambient place with
    | error e => simp [hfirst, bind, Except.bind] at h
    | ok first =>
      cases hrest : generatedFrom build ambient (place + first.length) items with
      | error e => simp [hfirst, hrest, bind, Except.bind] at h
      | ok rest =>
        simp only [hfirst, hrest, bind, Except.bind, pure, Except.pure, Except.ok.injEq] at h
        obtain ⟨parts, rfl, hparts⟩ := ih hrest
        exact ⟨first :: parts, h.symm, .cons ⟨place, hfirst⟩ hparts⟩

/-- Where entries cannot be generated, it is an item that cannot, and those before it can. -/
theorem generatedFrom_stops {build : Build} {ambient : Ambient} {place : Nat}
    {items : List Item} {e : Error}
    (h : generatedFrom build ambient place items = .error e) :
    ∃ before item after, items = before ++ item :: after ∧
      (∀ i ∈ before, ∃ place part, i.generated build ambient place = .ok part) ∧
      ∃ place, item.generated build ambient place = .error e := by
  induction items generalizing place with
  | nil => cases h
  | cons item items ih =>
    unfold generatedFrom at h
    cases hfirst : item.generated build ambient place with
    | error e' =>
      simp only [hfirst, bind, Except.bind, Except.error.injEq] at h
      subst h
      exact ⟨[], item, items, rfl, by simp, place, hfirst⟩
    | ok first =>
      cases hrest : generatedFrom build ambient (place + first.length) items with
      | ok rest => simp [hfirst, hrest, bind, Except.bind, pure, Except.pure] at h
      | error e' =>
        simp only [hfirst, hrest, bind, Except.bind, Except.error.injEq] at h
        subst h
        obtain ⟨before, stop, after, rfl, hbefore, hstop⟩ := ih hrest
        refine ⟨item :: before, stop, after, rfl, fun i hi => ?_, hstop⟩
        rcases List.mem_cons.mp hi with rfl | hi
        · exact ⟨place, first, hfirst⟩
        · exact hbefore i hi

theorem recipePaths_of_files {files : FileSystem}
    (h : ∀ recipe ∈ t.recipes, files.isFile (recipe.path.pathIn t.vars) = true) :
    t.recipePaths files = .ok (t.recipes.map fun recipe => recipe.path.pathIn t.vars) := by
  unfold recipePaths
  generalize t.recipes = recipes at h ⊢
  induction recipes with
  | nil => rfl
  | cons recipe recipes ih =>
    rw [List.mapM_cons, ih fun r hr => h r (List.mem_cons_of_mem _ hr)]
    simp [h recipe List.mem_cons_self, bind, Except.bind, pure, Except.pure]

end Tree

end MakeConfig
