import MakeConfig.Proofs.Lists
import MakeConfig.Proofs.Plain.Walk
import MakeConfig.Proofs.Tree.Frame

/-! # The plain view of a tree

What a tree holds, without handles and without what has been seen of variables. The number of
nodes is depth enough for the view, since children come after their parents.
-/

namespace MakeConfig

open Plain

theorem Item.found?_plain (environment : Environment) (i : Item) :
    i.plain.found? environment = Intake.importedValue? environment i := by
  unfold Setting.found? Intake.importedValue?
  simp only [Item.plain]
  congr 1
  cases environment.get? i.name with
  | none => rfl
  | some raw =>
    simp only [Item.validate]
    cases i.kind.accept raw <;> rfl

def Entity.part : Entity → Part
  | item i => .setting i.plain
  | node n => .site n.site
  | recipe r => .makefile r.plain
  | repo r => .checkout r.plain

@[simp] theorem Entity.part_bare (e : Entity) : e.bare.part = e.part := by
  cases e <;> rfl

theorem Node.site_of_bare {n n' : Node} (h : n.bare = n'.bare) : n.site = n'.site := by
  change n.bare.site = n'.bare.site
  rw [h]

/-- Entries give the same in a tree and in a sheet. -/
theorem Intake.part_arriving (environment : Environment) (base : Path) (known : OrderedMap String)
    (s : Variables Handle) (entry : String × Entry) :
    (arriving environment base known s entry).map (fun p => p.1.part) =
      Part.ofEntry environment base entry := by
  obtain ⟨name, entry⟩ := entry
  cases entry with
  | item typeName spec =>
    simp only [arriving, Part.ofEntry]
    cases Item.ofSpec environment.build name typeName spec with
    | error e => rfl
    | ok item =>
      simp only [Item.found?_plain]
      cases importedValue? environment item with
      | error r => rfl
      | ok value? => rfl
  | child spec => simp [arriving, Part.ofEntry, Except.map, Entity.part, Node.site, Node.construct,
      Binding.place]
  | recipe spec => rfl
  | repo spec => rfl

namespace Tree

def part? (t : Tree) (h : Handle) : Option Part := (t.entity? h).map Entity.part

variable {t t' : Tree}

theorem part?_item (t : Tree) (id : ItemId) (x : Setting) :
    t.part? (.item id) = some (.setting x) ↔ ∃ item, t.item? id = some item ∧ item.plain = x := by
  simp [part?, Entity.part]

theorem issued_of_part? {h : Handle} {x : Part} (hx : t.part? h = some x) : t.Issued h := by
  obtain ⟨e, he, -⟩ := Option.map_eq_some_iff.mp hx
  exact issued_of_entity? he

theorem Spares.part? {P : Handle → Prop} (hs : t.Spares P t') {h : Handle} {x : Part}
    (hx : t.part? h = some x) (hp : ¬ P h) : t'.part? h = some x := by
  have hb := congrArg (Option.map Entity.part) (hs.bare h (issued_of_part? hx) hp)
  simp only [Option.map_map, Function.comp_def, Entity.part_bare] at hb
  exact hb.trans hx

def outline (t : Tree) : Nat → NodeId → Option Outline
  | 0, _ => none
  | depth + 1, id =>
    (t.node? id).map fun node =>
      match node.parsed? with
      | none => .unread node.site
      | some ⟨file, c⟩ => .read node.site file
          (c.items.filterMap fun id => (t.item? id).map Item.plain)
          (c.children.filterMap (t.outline depth))
          (c.recipes.filterMap fun id => (t.recipe? id).map Recipe.plain)
          (c.repos.filterMap fun id => (t.repo? id).map Repo.plain)

theorem outline_of_le (hr : t.Rising) {depth depth' : Nat} {id : NodeId}
    (hd : t.arena.nodes.next ≤ depth + id.index) (hle : depth ≤ depth') :
    t.outline depth' id = t.outline depth id := by
  induction depth generalizing depth' id with
  | zero =>
    have hn : t.node? id = none := Slots.get?_eq_none_of_next_le _ (by omega)
    cases depth' with
    | zero => rfl
    | succ depth' => simp [outline, hn]
  | succ depth ih =>
    obtain ⟨depth', rfl⟩ : ∃ k, depth' = k + 1 := ⟨depth' - 1, by omega⟩
    simp only [outline]
    cases hn : t.node? id with
    | none => rfl
    | some node =>
      simp only [Option.map_some, Option.some.injEq]
      split
      · rfl
      · next file c hp =>
        congr 1
        apply List.filterMap_congr
        intro child hc
        have hlt := hr id node hn child (by simpa [Node.contents, hp] using hc)
        exact ih (by omega) (by omega)

def view (t : Tree) : Option Outline := t.outline t.arena.nodes.next root

theorem outline_eq_view (hr : t.Rising) {depth : Nat} (hd : t.arena.nodes.next ≤ depth) :
    t.outline depth root = t.view :=
  outline_of_le hr (Nat.le_add_right _ _) hd

end Tree

/-- A node is not read, and this is where its schema may be. -/
def Tree.Awaits (t : Tree) (id : NodeId) (x : Site) : Prop :=
  ∃ node, t.node? id = some node ∧ node.site = x ∧ node.parsed? = none

theorem Tree.Awaits.issued {t : Tree} {id : NodeId} {x : Site} (hx : t.Awaits id x) :
    t.Issued (.node id) := by
  obtain ⟨node, hn, -⟩ := hx
  exact issued_of_node hn

theorem Tree.Spares.awaits {t t' : Tree} {P : Handle → Prop} (hs : t.Spares P t') {id : NodeId}
    {x : Site} (hx : t.Awaits id x) (hp : ¬ P (.node id)) : t'.Awaits id x := by
  obtain ⟨node, hn, rfl, hu⟩ := hx
  obtain ⟨node', hn', hb⟩ := hs.node hn hp
  exact ⟨node', hn', Node.site_of_bare hb, (Node.parsed?_of_bare hb).trans hu⟩

/-- Contents hold what is in a sheet, and nothing below them is read. -/
structure Plain.Sheet.Shown (sheet : Sheet) (t : Tree) (c : Contents) : Prop where
  settings : List.Forall₂ (fun id x => t.part? (.item id) = some (.setting x)) c.items
    sheet.settings
  sites : List.Forall₂ t.Awaits c.children sheet.sites
  makefiles : List.Forall₂ (fun id x => t.part? (.recipe id) = some (.makefile x)) c.recipes
    sheet.makefiles
  checkouts : List.Forall₂ (fun id x => t.part? (.repo id) = some (.checkout x)) c.repos
    sheet.checkouts

end MakeConfig
