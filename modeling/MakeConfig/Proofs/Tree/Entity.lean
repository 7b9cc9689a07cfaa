import MakeConfig.Tree.Configure

/-! # Entities

Items, nodes, recipes and repos seen alike, by the handles that stand for them. Each watches
some variables and takes note of their changes. An operation on a tree is told by what the
handles stand for afterwards, by the watchers it leaves and by the handles it gives out.
-/

namespace MakeConfig

inductive Entity where
  | item (item : Item)
  | node (node : Node)
  | recipe (recipe : Recipe)
  | repo (repo : Repo)

def Binding.bare (b : Binding) : Binding := bind b.raw b.origin ∅

@[simp] theorem Binding.bare_learn (b : Binding) (name value : String) :
    (b.learn name value).bare = b.bare := rfl

theorem Binding.learn_of_not_uses {b : Binding} {name : String} (h : ¬ b.uses name = true)
    (value : String) : b.learn name value = b := by
  have hk : b.known.modify name (fun _ => some value) = b.known := by
    unfold OrderedMap.modify
    rw [(b.known.get?_eq_none_iff name).mpr (mt (b.uses_iff name).mpr h)]
  obtain ⟨raw, origin, known, hn⟩ := b
  simpa [Binding.learn] using hk

def Item.bare (i : Item) : Item := { i with visible := false, observed := ∅ }

def Node.bare (n : Node) : Node := { n with path := n.path.bare, known := ∅, visible := false }

theorem Node.parsed?_of_bare {n n' : Node} (h : n.bare = n'.bare) : n.parsed? = n'.parsed? := by
  change n.bare.parsed? = n'.bare.parsed?
  rw [h]

theorem Node.depends_of_bare {n n' : Node} (h : n.bare = n'.bare) : n.depends = n'.depends := by
  change n.bare.depends = n'.bare.depends
  rw [h]

theorem Item.depends_of_bare {i i' : Item} (h : i.bare = i'.bare) : i.depends = i'.depends := by
  change i.bare.depends = i'.bare.depends
  rw [h]

theorem Item.name_of_bare {i i' : Item} (h : i.bare = i'.bare) : i.name = i'.name := by
  change i.bare.name = i'.bare.name
  rw [h]

theorem Item.user?_of_bare {i i' : Item} (h : i.bare = i'.bare) : i.user? = i'.user? := by
  change i.bare.user? = i'.bare.user?
  rw [h]

theorem Item.kind_of_bare {i i' : Item} (h : i.bare = i'.bare) : i.kind = i'.kind := by
  change i.bare.kind = i'.bare.kind
  rw [h]

def Recipe.bare (r : Recipe) : Recipe := { r with path := r.path.bare }

def Repo.bare (r : Repo) : Repo := { r with directory := r.directory.bare, out := r.out.bare }

section Notice

variable {κ : Type} (name value : String) (s : Variables κ)

theorem Item.notice_eq (i : Item) :
    i.notice name value s = { i with
      observed := if i.depends.contains name then i.observed.insert name value else i.observed
      visible := if i.depends.contains name then s.meetsAll i.depends else i.visible } := by
  unfold Item.notice
  split <;> rfl

@[simp] theorem Item.depends_notice (i : Item) :
    (i.notice name value s).depends = i.depends := by
  rw [notice_eq]

@[simp] theorem Item.bare_notice (i : Item) :
    (i.notice name value s).bare = i.bare := by
  rw [notice_eq]
  rfl

theorem Node.learn_eq (n : Node) :
    n.learn name value = { n with
      path := n.path.learn name value
      known := if n.path.uses name then n.known.insert name value
        else n.known.modify name fun _ => value } := by
  unfold Node.learn
  split
  · rfl
  · next h => rw [Binding.learn_of_not_uses h]

theorem Node.notice_eq (n : Node) :
    n.notice name value s = { n.learn name value with
      visible := if n.depends.contains name then s.meetsAll n.depends else n.visible } := by
  unfold Node.notice
  rw [learn_eq]
  cases h : n.depends.contains name <;> simp [h]

@[simp] theorem Node.depends_notice (n : Node) :
    (n.notice name value s).depends = n.depends := by
  rw [notice_eq, learn_eq]

@[simp] theorem Node.path_notice (n : Node) :
    (n.notice name value s).path = n.path.learn name value := by
  rw [notice_eq, learn_eq]

@[simp] theorem Node.bare_notice (n : Node) : (n.notice name value s).bare = n.bare := by
  rw [notice_eq, learn_eq]
  rfl

end Notice

namespace Entity

/-- The variables whose changes an entity is told of. -/
def watched : Entity → List String
  | item i => i.depends.keys
  | node n => n.watched
  | recipe r => r.watched
  | repo r => r.watched

def notice {κ : Type} (name value : String) (s : Variables κ) : Entity → Entity
  | item i => item (i.notice name value s)
  | node n => node (n.notice name value s)
  | recipe r => recipe (r.notice name value)
  | repo r => repo (r.notice name value)

def read (parsed? : Option Parsed) : Entity → Entity
  | node n => node { n with parsed? }
  | e => e

/-- What there is to an entity apart from what it has seen of variables. -/
def bare : Entity → Entity
  | item i => item i.bare
  | node n => node n.bare
  | recipe r => recipe r.bare
  | repo r => repo r.bare

variable {κ : Type} (name value : String) (s : Variables κ)

@[simp] theorem watched_notice (e : Entity) : (e.notice name value s).watched = e.watched := by
  cases e with
  | item i => simp [watched, notice]
  | node n => simp [watched, notice, Node.watched]
  | recipe r => simp [watched, notice, Recipe.watched, Recipe.notice]
  | repo r => simp [watched, notice, Repo.watched, Repo.notice]

@[simp] theorem watched_read (parsed? : Option Parsed) (e : Entity) :
    (e.read parsed?).watched = e.watched := by
  cases e <;> rfl

@[simp] theorem bare_notice (e : Entity) : (e.notice name value s).bare = e.bare := by
  cases e with
  | item i => simp [notice, bare]
  | node n => simp [notice, bare]
  | recipe r => rfl
  | repo r => rfl

end Entity

namespace Arena

def entity? (a : Arena) : Handle → Option Entity
  | .item id => (a.items.get? id.index).map .item
  | .node id => (a.nodes.get? id.index).map .node
  | .recipe id => (a.recipes.get? id.index).map .recipe
  | .repo id => (a.repos.get? id.index).map .repo

def next (a : Arena) : Handle → Nat
  | .item _ => a.items.next
  | .node _ => a.nodes.next
  | .recipe _ => a.recipes.next
  | .repo _ => a.repos.next

theorem entity?_of_next_le (a : Arena) {h : Handle} (hn : a.next h ≤ h.index) :
    a.entity? h = none := by
  cases h <;> exact Option.map_eq_none_iff.mpr (Slots.get?_eq_none_of_next_le _ hn)

variable (name value : String) (s : Variables Handle)

theorem entity?_deliver (a : Arena) (h k : Handle) :
    (a.deliver name value s h).entity? k =
      if k = h then (a.entity? k).map (·.notice name value s) else a.entity? k := by
  obtain ⟨⟨i⟩⟩ | ⟨⟨i⟩⟩ | ⟨⟨i⟩⟩ | ⟨⟨i⟩⟩ := h <;>
    obtain ⟨⟨j⟩⟩ | ⟨⟨j⟩⟩ | ⟨⟨j⟩⟩ | ⟨⟨j⟩⟩ := k <;>
    simp [deliver, entity?] <;> split <;> simp [Function.comp_def, Entity.notice]

@[simp] theorem next_deliver (a : Arena) (h k : Handle) :
    (a.deliver name value s h).next k = a.next k := by
  cases h <;> cases k <;> simp [deliver, next]

/-- Every watcher is told once, and nobody else. -/
theorem entity?_foldl_deliver {keys : List Handle} (hn : keys.Nodup) (a : Arena) (k : Handle) :
    (keys.foldl (deliver name value s) a).entity? k =
      if k ∈ keys then (a.entity? k).map (·.notice name value s) else a.entity? k := by
  induction keys generalizing a with
  | nil => simp
  | cons h keys ih =>
    obtain ⟨hh, hn⟩ := List.nodup_cons.mp hn
    rw [List.foldl_cons, ih hn, entity?_deliver]
    by_cases hk : k = h
    · subst hk
      simp [hh]
    · simp [hk]

@[simp] theorem next_foldl_deliver (keys : List Handle) (a : Arena) (k : Handle) :
    (keys.foldl (deliver name value s) a).next k = a.next k := by
  induction keys generalizing a with
  | nil => rfl
  | cons h keys ih => rw [List.foldl_cons, ih, next_deliver]

theorem entity?_clear (a : Arena) (h k : Handle) :
    (a.clear h).entity? k = if k = h then none else a.entity? k := by
  obtain ⟨⟨i⟩⟩ | ⟨⟨i⟩⟩ | ⟨⟨i⟩⟩ | ⟨⟨i⟩⟩ := h <;>
    obtain ⟨⟨j⟩⟩ | ⟨⟨j⟩⟩ | ⟨⟨j⟩⟩ | ⟨⟨j⟩⟩ := k <;>
    simp [clear, entity?] <;> split <;> rfl

@[simp] theorem next_clear (a : Arena) (h k : Handle) : (a.clear h).next k = a.next k := by
  cases h <;> cases k <;> simp [clear, next]

def push (a : Arena) : Entity → Arena
  | .item i => { a with items := a.items.push i }
  | .node n => { a with nodes := a.nodes.push n }
  | .recipe r => { a with recipes := a.recipes.push r }
  | .repo r => { a with repos := a.repos.push r }

def handleFor (a : Arena) : Entity → Handle
  | .item _ => .item ⟨a.items.next⟩
  | .node _ => .node ⟨a.nodes.next⟩
  | .recipe _ => .recipe ⟨a.recipes.next⟩
  | .repo _ => .repo ⟨a.repos.next⟩

theorem entity?_push (a : Arena) (e : Entity) (k : Handle) :
    (a.push e).entity? k = if k = a.handleFor e then some e else a.entity? k := by
  cases e <;> obtain ⟨⟨j⟩⟩ | ⟨⟨j⟩⟩ | ⟨⟨j⟩⟩ | ⟨⟨j⟩⟩ := k <;>
    simp [push, handleFor, entity?] <;> split <;> rfl

theorem next_push (a : Arena) (e : Entity) (k : Handle) :
    k.index < (a.push e).next k ↔ k.index < a.next k ∨ k = a.handleFor e := by
  cases e <;> obtain ⟨⟨j⟩⟩ | ⟨⟨j⟩⟩ | ⟨⟨j⟩⟩ | ⟨⟨j⟩⟩ := k <;>
    simp [push, handleFor, next, Handle.index] <;> omega

end Arena

namespace Tree

def entity? (t : Tree) (h : Handle) : Option Entity := t.arena.entity? h

/-- A handle that was given out, whether or not it still stands for something. -/
def Issued (t : Tree) (h : Handle) : Prop := h.index < t.arena.next h

theorem entity?_of_not_issued {t : Tree} {h : Handle} (hn : ¬ t.Issued h) : t.entity? h = none :=
  t.arena.entity?_of_next_le (Nat.le_of_not_lt hn)

theorem issued_of_entity? {t : Tree} {h : Handle} {e : Entity} (he : t.entity? h = some e) :
    t.Issued h := by
  apply Classical.byContradiction
  intro hn
  rw [entity?_of_not_issued hn] at he
  cases he

@[simp] theorem entity?_item (t : Tree) (id : ItemId) :
    t.entity? (.item id) = (t.item? id).map .item := rfl

@[simp] theorem entity?_node (t : Tree) (id : NodeId) :
    t.entity? (.node id) = (t.node? id).map .node := rfl

@[simp] theorem entity?_recipe (t : Tree) (id : RecipeId) :
    t.entity? (.recipe id) = (t.recipe? id).map .recipe := rfl

@[simp] theorem entity?_repo (t : Tree) (id : RepoId) :
    t.entity? (.repo id) = (t.repo? id).map .repo := rfl

theorem entity?_eq_item {t : Tree} {id : ItemId} {item : Item} :
    t.entity? (.item id) = some (.item item) ↔ t.item? id = some item := by
  simp

theorem entity?_eq_node {t : Tree} {id : NodeId} {node : Node} :
    t.entity? (.node id) = some (.node node) ↔ t.node? id = some node := by
  simp

theorem issued_of_node {t : Tree} {id : NodeId} {node : Node} (h : t.node? id = some node) :
    t.Issued (.node id) :=
  issued_of_entity? (entity?_eq_node.mpr h)

/-! ## Publishing -/

theorem publish_of_changes {t : Tree} {name value : String}
    (h : t.vars.changes name value = true) :
    t.publish name value = { t with
      vars := t.vars.write name value
      arena := (t.vars.watching name).foldl
        (Arena.deliver name value (t.vars.write name value)) t.arena } := by
  simp [publish, Variables.set, h]

theorem publish_of_not_changes {t : Tree} {name value : String}
    (h : t.vars.changes name value = false) : t.publish name value = t := by
  simp [publish, Variables.set, h]

theorem entity?_publish (t : Tree) (name value : String) (hn : (t.vars.watching name).Nodup)
    (h : Handle) : (t.publish name value).entity? h =
      if t.vars.changes name value = true ∧ h ∈ t.vars.watching name then
        (t.entity? h).map (·.notice name value (t.vars.write name value))
      else t.entity? h := by
  cases hc : t.vars.changes name value with
  | false => simp [publish_of_not_changes hc]
  | true =>
    rw [publish_of_changes hc]
    simp only [true_and]
    exact Arena.entity?_foldl_deliver name value _ hn t.arena h

@[simp] theorem issued_publish (t : Tree) (name value : String) (h : Handle) :
    (t.publish name value).Issued h ↔ t.Issued h := by
  cases hc : t.vars.changes name value with
  | false => rw [publish_of_not_changes hc]
  | true =>
    rw [publish_of_changes hc]
    simp [Issued]

@[simp] theorem values_publish (t : Tree) (name value : String) :
    (t.publish name value).vars.values = t.vars.values.insert name value :=
  t.vars.values_set ..

@[simp] theorem watching_publish (t : Tree) (name value other : String) :
    (t.publish name value).vars.watching other = t.vars.watching other :=
  t.vars.watching_set ..

/-! ## Arrivals and departures -/

def handleFor (t : Tree) (e : Entity) : Handle := t.arena.handleFor e

def add (t : Tree) (e : Entity) : Tree :=
  { t with vars := t.vars.watchAll (t.handleFor e) e.watched, arena := t.arena.push e }

theorem entity?_add (t : Tree) (e : Entity) (k : Handle) :
    (t.add e).entity? k = if k = t.handleFor e then some e else t.entity? k :=
  t.arena.entity?_push e k

theorem issued_add (t : Tree) (e : Entity) (k : Handle) :
    (t.add e).Issued k ↔ t.Issued k ∨ k = t.handleFor e :=
  t.arena.next_push e k

theorem not_issued_handleFor (t : Tree) (e : Entity) : ¬ t.Issued (t.handleFor e) := by
  cases e <;> simp [Issued, handleFor, Arena.handleFor, Arena.next, Handle.index]

theorem entity?_drop (t : Tree) (h k : Handle) :
    (t.drop h).entity? k = if k = h then none else t.entity? k :=
  t.arena.entity?_clear h k

@[simp] theorem issued_drop (t : Tree) (h k : Handle) : (t.drop h).Issued k ↔ t.Issued k := by
  simp [Issued, drop]

@[simp] theorem values_foldl_drop (t : Tree) (hs : List Handle) :
    (hs.foldl drop t).vars.values = t.vars.values := by
  induction hs generalizing t with
  | nil => rfl
  | cons h hs ih => rw [List.foldl_cons, ih]; rfl

@[simp] theorem watching_foldl_drop (t : Tree) (hs : List Handle) (name : String) :
    (hs.foldl drop t).vars.watching name = (t.vars.watching name).filter (· ∉ hs) := by
  induction hs generalizing t with
  | nil => exact (List.filter_eq_self.mpr (by simp)).symm
  | cons h hs ih =>
    rw [List.foldl_cons, ih]
    simp [drop, List.filter_filter, Bool.and_comm]

theorem entity?_foldl_drop (t : Tree) (hs : List Handle) (k : Handle) :
    (hs.foldl drop t).entity? k = if k ∈ hs then none else t.entity? k := by
  induction hs generalizing t with
  | nil => simp
  | cons h hs ih =>
    rw [List.foldl_cons, ih, entity?_drop]
    by_cases hk : k = h <;> simp [hk]

@[simp] theorem issued_foldl_drop (t : Tree) (hs : List Handle) (k : Handle) :
    (hs.foldl drop t).Issued k ↔ t.Issued k := by
  induction hs generalizing t with
  | nil => rfl
  | cons h hs ih => rw [List.foldl_cons, ih, issued_drop]

/-! ## Contents and values -/

theorem entity?_setParsed (t : Tree) (id : NodeId) (parsed? : Option Parsed) (k : Handle) :
    (t.setParsed id parsed?).entity? k =
      if k = .node id then (t.entity? k).map (·.read parsed?) else t.entity? k := by
  obtain ⟨⟨j⟩⟩ | ⟨⟨j⟩⟩ | ⟨⟨j⟩⟩ | ⟨⟨j⟩⟩ := k <;> obtain ⟨i⟩ := id <;>
    simp [setParsed, entity?, Arena.entity?]
  split <;> simp [Function.comp_def, Entity.read]

theorem node?_setParsed {t : Tree} {id : NodeId} {node : Node} (hn : t.node? id = some node)
    (parsed? : Option Parsed) :
    (t.setParsed id parsed?).node? id = some { node with parsed? } := by
  rw [← entity?_eq_node, entity?_setParsed, if_pos rfl, entity?_node, hn]
  rfl

@[simp] theorem issued_setParsed (t : Tree) (id : NodeId) (parsed? : Option Parsed) (k : Handle) :
    (t.setParsed id parsed?).Issued k ↔ t.Issued k := by
  cases k <;> simp [Issued, setParsed, Arena.next]

theorem entity?_setItem (t : Tree) (id : ItemId) (item : Item) (k : Handle) :
    (t.setItem id item).entity? k =
      if k = .item id then (t.entity? k).map (fun _ => .item item) else t.entity? k := by
  obtain ⟨⟨j⟩⟩ | ⟨⟨j⟩⟩ | ⟨⟨j⟩⟩ | ⟨⟨j⟩⟩ := k <;> obtain ⟨i⟩ := id <;>
    simp [setItem, entity?, Arena.entity?]
  split <;> simp [Function.comp_def]

@[simp] theorem issued_setItem (t : Tree) (id : ItemId) (item : Item) (k : Handle) :
    (t.setItem id item).Issued k ↔ t.Issued k := by
  cases k <;> simp [Issued, setItem, Arena.next]

/-- A value is refused without effect, or it is noted at the item and published. -/
theorem assign_of_item {t : Tree} {id : ItemId} {item : Item} (h : t.item? id = some item)
    (raw : String) : t.assign id raw =
      match item.kind.accept raw with
      | .error reason => (.error (.rejected ⟨item.name, reason⟩), t)
      | .ok value =>
        (.ok (), (t.setItem id { item with user? := some value }).publish item.name value) := by
  simp only [assign, h, Item.assign, Item.validate]
  cases item.kind.accept raw <;> rfl

theorem assignAll_invariant {P : Tree → Prop}
    (assign : ∀ t id raw, P t → P (Tree.assign t id raw).2) {t : Tree} (h : P t)
    (values : List (ItemId × String)) : P (t.assignAll values).2 := by
  induction values generalizing t with
  | nil => exact h
  | cons value values ih =>
    have ha := assign t value.1 value.2 h
    unfold assignAll
    split
    · next heq =>
      rw [heq] at ha
      exact ih ha
    · exact ha

end Tree

end MakeConfig
