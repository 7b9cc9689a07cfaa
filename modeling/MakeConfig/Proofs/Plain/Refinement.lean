import MakeConfig.Proofs.Plain.Reading

/-! # Configuring in step

Configuring a tree that was just planted and the plain walk ask the same questions in the same
order, and end with the same result, values and contents.
-/

namespace MakeConfig

universe u

open Plain

theorem Step.each_zip {S : Type u} {α β : Type} (f : α → Step S) {is : List α} {xs : List β}
    (h : is.length = xs.length) : Step.each f is = Step.each (fun p => f p.1) (is.zip xs) := by
  induction is generalizing xs with
  | nil => rfl
  | cons i is ih =>
    cases xs with
    | nil => cases h
    | cons x xs => rw [List.zip_cons_cons, Step.each, Step.each, ih (Nat.succ.inj h)]

namespace Plain

/-- A tree shows an outline, as soon as it is looked at with more depth than a run had steps. -/
def ShowsNode (steps : Nat) (t : Tree) (id : NodeId) (o : Outline) : Prop :=
  ∀ depth, steps < depth → t.outline depth id = some o

variable {steps : Nat} {t t' : Tree} {id : NodeId} {x : Site}

theorem showsNode_unread : ShowsNode steps t id (.unread x) ↔ t.Awaits id x := by
  constructor
  · intro h
    obtain ⟨node, hn, ho⟩ := Option.map_eq_some_iff.mp (h (steps + 1) (Nat.lt_succ_self _))
    split at ho
    · next hu =>
      cases ho
      exact ⟨node, hn, rfl, hu⟩
    · cases ho
  · rintro ⟨node, hn, rfl, hu⟩ depth hd
    obtain ⟨depth, rfl⟩ := Nat.exists_eq_succ_of_ne_zero (Nat.ne_zero_of_lt hd)
    simp [Tree.outline, hn, hu]

theorem awaited_nodes (steps : Nat) : Awaited Handle.node (ShowsNode steps) Outline.unread where
  issued := by
    intro t id x h
    obtain ⟨node, hn, -, -⟩ := showsNode_unread.mp h
    exact Tree.issued_of_node hn
  spares := fun hs hp hx => showsNode_unread.mpr (hs.awaits (showsNode_unread.mp hx) hp)

theorem showsNode_read {node : Node} {file : Path} {c : Contents} {settings : List Setting}
    {below : List Outline} {makefiles : List Makefile} {checkouts : List Checkout}
    (hn : t.node? id = some node) (hp : node.parsed? = some ⟨file, c⟩)
    (hsettings : List.Forall₂ (ShowsItem t) c.items settings)
    (hbelow : List.Forall₂ (ShowsNode steps t) c.children below)
    (hmakefiles : List.Forall₂ (fun id x => t.part? (.recipe id) = some (.makefile x)) c.recipes
      makefiles)
    (hcheckouts : List.Forall₂ (fun id x => t.part? (.repo id) = some (.checkout x)) c.repos
      checkouts) :
    ShowsNode (steps + 1) t id (.read node.site file settings below makefiles checkouts) := by
  intro depth hd
  obtain ⟨depth, rfl⟩ := Nat.exists_eq_succ_of_ne_zero (Nat.ne_zero_of_lt hd)
  have hi : c.items.filterMap (fun id => (t.item? id).map Item.plain) = settings := by
    apply filterMap_of_forall₂ (hsettings.imp fun id x h => ?_)
    obtain ⟨item, hitem, rfl⟩ := (t.part?_item id x).mp h
    rw [hitem]
    rfl
  have hb : c.children.filterMap (t.outline depth) = below :=
    filterMap_of_forall₂ (hbelow.imp fun id o h => h depth (Nat.lt_of_succ_lt_succ hd))
  have hm : c.recipes.filterMap (fun id => (t.recipe? id).map Recipe.plain) = makefiles := by
    apply filterMap_of_forall₂ (hmakefiles.imp fun id x h => ?_)
    simpa [Tree.part?, Entity.part] using h
  have hc : c.repos.filterMap (fun id => (t.repo? id).map Repo.plain) = checkouts := by
    apply filterMap_of_forall₂ (hcheckouts.imp fun id x h => ?_)
    simpa [Tree.part?, Entity.part] using h
  simp only [Tree.outline, hn, Option.map_some, hp, hi, hb, hm, hc]

/-! ## Below a node -/

/-- What the walk below a node never touches: the node, its recipes and its repos. -/
def Kept (id : NodeId) (c : Contents) : Handle → Prop
  | .item _ => False
  | .node k => k = id
  | .recipe k => k ∈ c.recipes
  | .repo k => k ∈ c.repos

/-- What configuring a node may touch, once it is read. -/
def Reach (id : NodeId) (c : Contents) (h : Handle) : Prop := h = .node id ∨ h ∈ c.handles

theorem reach_of_kept {c : Contents} {h : Handle} (hk : Kept id c h) : Reach id c h := by
  cases h with
  | item k => exact hk.elim
  | node k => exact .inl (congrArg Handle.node hk)
  | recipe k =>
    have hm : k ∈ c.recipes := hk
    exact .inr (by simp [Contents.handles, hm])
  | repo k =>
    have hm : k ∈ c.repos := hk
    exact .inr (by simp [Contents.handles, hm])

end Plain

namespace Tree.Opened

variable {t₀ t t' : Tree} {id : NodeId} {x : Site} {file : Path} {sheet : Sheet} {c : Contents}
  {steps : Nat}

theorem not_kept_item (k : Handle) (hk : k ∈ c.items.map Handle.item) : ¬ Kept id c k := by
  obtain ⟨_, _, rfl⟩ := List.mem_map.mp hk
  exact not_false

theorem not_kept_child (ho : t₀.Opened id x file sheet t c) (hid : t₀.Issued (.node id))
    (k : Handle) (hk : k ∈ c.children.map Handle.node) : ¬ Kept id c k := by
  obtain ⟨child, hchild, rfl⟩ := List.mem_map.mp hk
  rintro rfl
  exact ho.fresh (.node child) (by simp [Contents.handles, hchild]) hid

theorem showsNode (ho : t₀.Opened id x file sheet t c) {settings : List Setting}
    {below : List Outline} (ht : t.Spares (fun k => ¬ Kept id c k) t')
    (hsettings : List.Forall₂ (ShowsItem t') c.items settings)
    (hbelow : List.Forall₂ (ShowsNode steps t') c.children below) :
    ShowsNode (steps + 1) t' id
      (.read x file settings below sheet.makefiles sheet.checkouts) := by
  obtain ⟨node, hn, rfl, hp⟩ := ho.node
  obtain ⟨node', hn', hb⟩ := ht.node hn (not_not_intro rfl)
  have hparsed : node'.parsed? = some ⟨file, c⟩ := (Node.parsed?_of_bare hb).trans hp
  have hm := (List.forall₂_and_left c.recipes sheet.makefiles).mpr
    ⟨fun _ h => h, ho.shown.makefiles⟩
  have hc := (List.forall₂_and_left c.repos sheet.checkouts).mpr
    ⟨fun _ h => h, ho.shown.checkouts⟩
  rw [← Node.site_of_bare hb]
  refine showsNode_read hn' hparsed hsettings hbelow (hm.imp fun k y h => ?_)
    (hc.imp fun k y h => ?_)
  · exact ht.part? h.2 (not_not_intro h.1)
  · exact ht.part? h.2 (not_not_intro h.1)

theorem unread_below (ho : t₀.Opened id x file sheet t c) {P : Handle → Prop}
    (ht : t.Spares P t') (hp : ∀ k ∈ c.children.map Handle.node, ¬ P k) :
    List.Forall₂ (ShowsNode steps t') c.children (sheet.sites.map .unread) := by
  have hsites : List.Forall₂ (fun i y => ShowsNode steps t i (.unread y)) c.children sheet.sites :=
    ho.shown.sites.imp fun _ _ h => showsNode_unread.mpr h
  have hkeep := (awaited_nodes steps).all hsites ht fun k hk => hp _ (List.mem_map_of_mem hk)
  exact List.forall₂_map_right_iff.mpr hkeep

end Tree.Opened

namespace Plain

variable {σ : Type u} {d : Dialog σ} {around : Surroundings} {steps : Nat}

theorem descend_of_node {items : ItemId → Step (Session σ)} {children : NodeId → Step (Session σ)}
    {s : Session σ} {id : NodeId} {node : Node} {file : Path} {c : Contents}
    (hn : s.tree.node? id = some node) (hp : node.parsed? = some ⟨file, c⟩) :
    Session.descend items children id s =
      (Step.each items c.items).andThen (Step.each children c.children) s := by
  have hc : node.contents = c := by simp [Node.contents, hp]
  simp only [Session.descend, hn, hc]

section Opened

variable {t₀ : Tree} {s : Session σ} {parent : NodeId} {x : Site} {file : Path} {sheet : Sheet}
  {c : Contents}

/-- What the walk touches below a node. -/
def Below (c : Contents) (h : Handle) : Prop :=
  h ∈ c.items.map Handle.item ∨ h ∈ c.children.map Handle.node

theorem reach_of_below {h : Handle} (hb : Below c h) : Reach parent c h := by
  rcases hb with hm | hm
  · exact .inr (c.items_sublist_handles.subset hm)
  · exact .inr (c.children_sublist_handles.subset hm)

theorem ends_read (ho : t₀.Opened parent x file sheet s.tree c) (hid : t₀.Issued (.node parent))
    {settings : List Setting} {below : List Outline} {o : Except Error Unit × Session σ}
    {r : Except Error Unit} {desk : Desk σ}
    (he : Ends (Below c) (fun t' => List.Forall₂ (ShowsNode steps t') c.children) s.tree o
      (r, below, desk))
    (hitems : ∀ t', o.2.tree.Spares (fun k => s.tree.Issued k ∧ ¬ Reach parent c k) t' →
      List.Forall₂ (ShowsItem t') c.items settings) :
    Ends (Reach parent c) (ShowsNode (steps + 1) · parent) s.tree o
      (r, .read x file settings below sheet.makefiles sheet.checkouts, desk) := by
  have hkept : ∀ k, Below c k → ¬ Kept parent c k := by
    rintro k (hk | hk)
    · exact Tree.Opened.not_kept_item k hk
    · exact ho.not_kept_child hid k hk
  refine ⟨he.result, he.desk, he.coherent, he.spares.mono fun k _ => reach_of_below,
    fun t' ht => ?_⟩
  have hwalk : s.tree.Spares (fun k => ¬ Kept parent c k) t' := by
    refine (he.spares.mono fun k _ => hkept k).trans (ht.mono ?_)
    exact fun k _ hk hkeep => hk.2 (reach_of_kept hkeep)
  refine ho.showsNode hwalk (hitems t' ht) (he.shows t' (ht.mono fun k _ hk => ?_))
  exact ⟨hk.1, mt reach_of_below hk.2⟩

theorem ends_stopped (ho : t₀.Opened parent x file sheet s.tree c) (hid : t₀.Issued (.node parent))
    {settings : List Setting} {e : Error} {s' : Session σ}
    (he : Ends (· ∈ c.items.map Handle.item) (fun t' => List.Forall₂ (ShowsItem t') c.items)
      s.tree (.error e, s') (.error e, settings, s'.desk)) :
    Ends (Reach parent c) (ShowsNode (steps + 1) · parent) s.tree (.error e, s')
      (.error e, .read x file settings (sheet.sites.map .unread) sheet.makefiles
        sheet.checkouts, s'.desk) := by
  apply ends_read ho hid
  · refine ⟨rfl, rfl, he.coherent, he.spares.mono fun _ _ => .inl, fun t' ht => ?_⟩
    have hsites : s.tree.Spares (fun k => k ∉ c.children.map Handle.node) t' := by
      refine (he.spares.mono fun k _ hk hchild => ?_).trans (ht.mono fun k _ hk => ?_)
      · obtain ⟨_, _, rfl⟩ := List.mem_map.mp hk
        simp at hchild
      · exact fun hchild => hk.2 (.inr hchild)
    exact ho.unread_below hsites fun k hk => not_not_intro hk
  · intro t' ht
    exact he.shows t' (ht.mono fun k _ hk => ⟨hk.1, fun hm => hk.2 (reach_of_below (.inl hm))⟩)

/-- After its schema is taken in, a node keeps in step if its children do. -/
theorem lockstep_opened (hd : d.SeesPlain)
    (hchildren : ∀ {s : Session σ} {parent : NodeId} {x : Site}, s.tree.Coherent →
      s.tree.Awaits parent x → Lockstep (· = .node parent) (ShowsNode steps · parent) s.tree
        (Session.configure around d steps parent s) (configure around d steps x s.desk))
    (ho : t₀.Opened parent x file sheet s.tree c) (hid : t₀.Issued (.node parent)) :
    Lockstep (Reach parent c) (ShowsNode (steps + 1) · parent) s.tree
      ((Session.onTree fun t =>
        t.assignAll (findings around.environment (c.items.zip sheet.settings))).andThen
          (Session.descend (Session.visit d steps) (Session.configure around d steps) parent) s)
      (through around.environment d steps (configure around d steps) x file sheet s.desk) := by
  have hfound := lockstep_sweep awaited_items
    (fun s i x => lockstep_adoptFound (s := s) around.environment) s ho.coherent
    (Contents.nodup_items ho.nodup) ho.shown.settings
  rw [onTree_assignAll]
  apply Lockstep.andThen hfound
  · intro e s' settings he
    exact ends_stopped ho hid he
  · intro s₁ settings he₁
    have hshown := he₁.shows s₁.tree (.refl _ _)
    obtain ⟨node, hn, hsite, hp⟩ := ho.node
    obtain ⟨node₁, hn₁, hb⟩ := he₁.spares.node hn (by simp)
    rw [descend_of_node hn₁ ((Node.parsed?_of_bare hb).trans hp),
      Step.each_zip (Session.visit d steps) hshown.length_eq]
    have hvisits := (lockstep_sweep awaited_items (F := fun i _ => Session.visit d steps i)
      (fun s i x => lockstep_visit (s := s) hd steps) s₁ he₁.coherent
      (Contents.nodup_items ho.nodup) hshown).imp
      fun o p h => h.after he₁.spares fun _ _ hk => hk
    apply Lockstep.andThen hvisits
    · intro e s' settings he
      exact ends_stopped ho hid he
    · intro s₂ settings₂ he₂
      have hissued := (awaited_nodes steps).all_issued
        (ho.shown.sites.imp fun _ _ h => showsNode_unread.mpr h)
      have hunread : List.Forall₂ (ShowsNode steps s₂.tree) c.children (sheet.sites.map .unread) :=
        ho.unread_below he₂.spares (by simp)
      have hawait := List.forall₂_map_right_iff.mp hunread
      have hbelow := lockstep_sweep (awaited_nodes steps)
        (F := fun i _ => Session.configure around d steps i)
        (fun s i x hc hx => hchildren hc (showsNode_unread.mp hx)) s₂ he₂.coherent
        (Contents.nodup_children ho.nodup) hawait
      rw [Step.each_zip (Session.configure around d steps) hawait.length_eq]
      apply hbelow.map
      intro o r below desk h
      apply ends_read ho hid
      · exact h.after (he₂.spares.mono fun _ _ => .inl) fun _ _ => .inr
      · intro t' ht
        refine he₂.shows t' ((h.spares.mono fun k _ hk => ?_).trans (ht.mono fun k _ hk => ?_))
        · obtain ⟨child, hchild, rfl⟩ := List.mem_map.mp hk
          exact ⟨hissued child hchild, by simp⟩
        · exact ⟨hk.1, fun hm => hk.2 (reach_of_below (.inl hm))⟩

end Opened

theorem lockstep_configure (hd : d.SeesPlain) (around : Surroundings) (steps : Nat) {s : Session σ}
    {id : NodeId} {x : Site} (hc : s.tree.Coherent) (hx : s.tree.Awaits id x) :
    Lockstep (· = .node id) (ShowsNode steps · id) s.tree (Session.configure around d steps id s)
      (configure around d steps x s.desk) := by
  induction steps generalizing s id x with
  | zero =>
    simp only [Session.configure, configure]
    exact .none
  | succ steps ih =>
    have hx' := hx
    obtain ⟨node, hn, hsite, -⟩ := hx'
    have hid := Tree.issued_of_node hn
    have hvisible : node.visible = meetsAll s.desk.values x.depends := by
      rw [← hsite]
      exact (hc.node hn).visible
    have hunread : ∀ {t' : Tree}, s.tree.Spares (fun k => s.tree.Issued k ∧ ¬ k = .node id) t' →
        ShowsNode (steps + 1) t' id (.unread x) := fun ht =>
      showsNode_unread.mpr (ht.awaits hx fun hk => hk.2 rfl)
    simp only [Session.configure, configure, hn, ← hvisible]
    split
    · exact .some ⟨rfl, rfl, hc, .refl _ _, fun t' => hunread⟩
    unfold enter
    rcases Tree.parse_cases hc hx around with
      ⟨e, t, hp, hr, hct, hv, hs⟩ | ⟨file, sheet, t, c, hr, ho, hp⟩
    · have hfail : ((Session.onTree fun t => t.parse around id).andThen
          (Session.descend (Session.visit d steps) (Session.configure around d steps) id)) s =
          some (.error e, { s with tree := t }) := by
        simp only [Step.andThen, Session.onTree, hp]
      rw [hfail, show x.read around s.desk.values = _ from hr]
      refine .some ⟨rfl, ?_, hct, hs.mono fun _ _ => False.elim, fun t' ht => ?_⟩
      · rw [Session.desk, Session.desk, hv]
      · exact showsNode_unread.mpr (ht.awaits (hs.awaits hx not_false) fun hk => hk.2 rfl)
    · have hopen : ((Session.onTree fun t => t.parse around id).andThen
          (Session.descend (Session.visit d steps) (Session.configure around d steps) id)) s =
          ((Session.onTree fun t =>
            t.assignAll (findings around.environment (c.items.zip sheet.settings))).andThen
              (Session.descend (Session.visit d steps) (Session.configure around d steps) id))
            { s with tree := t } := by
        simp only [Step.andThen, Session.onTree, hp]
      have hdesk : s.desk = Session.desk { s with tree := t } := by
        rw [Session.desk, Session.desk, ho.values]
      rw [hopen, show x.read around s.desk.values = _ from hr, hdesk]
      refine (lockstep_opened (s := { s with tree := t }) hd (fun hc hx => ih hc hx) ho hid).imp
        fun o p h => h.after ho.spares fun k hk hreach => ?_
      exact hreach.resolve_right fun hm => ho.fresh k hm hk

end Plain

/-! ## From the root on -/

/-- A session without handles and without what has been seen of variables. -/
def Session.view {σ : Type u} (s : Session σ) : Option Outline × Desk σ := (s.tree.view, s.desk)

theorem Tree.values_plant (rootPath : String) (origin : Path) :
    (plant rootPath origin).vars.values = ∅ :=
  Variables.values_watchAll ..

theorem Tree.awaits_plant (rootPath : String) (origin : Path) :
    (plant rootPath origin).Awaits root ⟨"root", ⟨rootPath, origin⟩, ∅⟩ :=
  ⟨_, rfl, rfl, rfl⟩

/-- The walk from a tree that was just planted is the plain walk from its root. -/
theorem Session.configure_plant {σ : Type} {d : Dialog σ} (hd : d.SeesPlain)
    (around : Surroundings) (steps : Nat) (rootPath : String) (origin : Path) (start : σ) :
    (configure around d steps Tree.root ⟨Tree.plant rootPath origin, start⟩).map
        (fun p => (p.1, p.2.view)) =
      (Plain.configure around d steps ⟨"root", ⟨rootPath, origin⟩, ∅⟩ ⟨∅, start⟩).map some := by
  have hstep := lockstep_configure hd around steps (s := ⟨Tree.plant rootPath origin, start⟩)
    (Tree.coherent_plant rootPath origin) (Tree.awaits_plant rootPath origin)
  have hdesk : Session.desk ⟨Tree.plant rootPath origin, start⟩ = ⟨∅, start⟩ := by
    rw [Session.desk, Tree.values_plant]
  rw [hdesk] at hstep
  cases hrun : configure around d steps Tree.root ⟨Tree.plant rootPath origin, start⟩ with
  | none =>
    rw [hrun] at hstep
    generalize Plain.configure around d steps _ _ = plain at hstep ⊢
    cases hstep
    rfl
  | some o =>
    obtain ⟨r, s⟩ := o
    have hrising : s.tree.Rising :=
      Tree.Reachable.rising (.call (.plant rootPath origin) (.configure around d steps _ hrun))
    rw [hrun] at hstep
    generalize Plain.configure around d steps _ _ = plain at hstep ⊢
    cases hstep with
    | @some _ p h =>
      obtain ⟨r', outline, desk⟩ := p
      obtain rfl : r' = r := h.result
      obtain rfl : desk = s.desk := h.desk
      have hshown := h.shows s.tree (.refl _ _) (s.tree.arena.nodes.next + steps + 1) (by omega)
      rw [Tree.outline_eq_view hrising (by omega)] at hshown
      simp only [Option.map_some, Outcome.map, Session.view, hshown]

/-- Configuring a tree that was just planted asks the questions that the plain walk asks, in the
same order, and ends with the same result, the same values in the same order and the same contents
of the same files, if it ends. -/
theorem Session.configure_refines {σ : Type} {d : Dialog σ} (hd : d.SeesPlain)
    (around : Surroundings) (steps : Nat) (rootPath : String) (origin : Path) (start : σ) :
    (configure around d steps Tree.root ⟨Tree.plant rootPath origin, start⟩).map
        (fun p => (p.1, p.2.view)) =
      (Plain.configure around d steps ⟨"root", ⟨rootPath, origin⟩, ∅⟩ ⟨∅, start⟩).map some ∧
    (configure around d.logged steps Tree.root ⟨Tree.plant rootPath origin, (start, [])⟩).map
        (fun p => (p.1, p.2.view)) =
      (Plain.configure around d.logged steps ⟨"root", ⟨rootPath, origin⟩, ∅⟩
        ⟨∅, (start, [])⟩).map some :=
  ⟨configure_plant hd around steps rootPath origin start,
    configure_plant hd.logged around steps rootPath origin (start, [])⟩

namespace Plain.Sample

def schemaText : String :=
  "\x7b\"F\":\x7b\"type\":\"bool\"\x7d," ++
  "\"G\":\x7b\"type\":\"bool\",\"depend\":\x7b\"F\":\"y\"\x7d\x7d\x7d"

def around : Surroundings where
  files := ⟨⟨"/"⟩, [(["config.json"], .file schemaText.toUTF8 false)]⟩
  environment := ⟨[], .checked⟩

def script : Script := ⟨.ofList [("F", [some "y"]), ("G", [some "n"])], [], false⟩

theorem seesPlain_script : Script.dialog.SeesPlain := by
  apply Dialog.seesPlain_of_fields
  intro i j hn _ _ _
  funext last s
  simp only [Script.dialog, Script.next, hn]

end Plain.Sample

theorem Session.configure_refines_sample :
    Script.dialog.SeesPlain ∧
      (configure Sample.around Script.dialog 3 Tree.root
        ⟨Tree.plant "config.json" ⟨"/"⟩, Sample.script⟩).map
          (fun p => p.2.tree.vars.values.entries) = some [("F", "y"), ("G", "n")] := by
  obtain ⟨hplain, -⟩ := configure_refines Sample.seesPlain_script Sample.around 3 "config.json"
    ⟨"/"⟩ Sample.script
  have hvalues := congrArg (Option.map fun p => p.2.2.values.entries) hplain
  rw [Option.map_map] at hvalues
  refine ⟨Sample.seesPlain_script, hvalues.trans ?_⟩
  decide +kernel

end MakeConfig
