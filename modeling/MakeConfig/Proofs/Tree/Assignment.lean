import MakeConfig.Proofs.Tree.Frame

/-! # Giving a value

An item takes a value or refuses it. A refusal leaves the tree as it was. A value that is taken is
noted at the item and published under its name, and nobody learns of it but those that watch the
name. The item may be among them.
-/

namespace MakeConfig

namespace Tree

/-- A canonical value is noted at an item and published. -/
def give (t : Tree) (id : ItemId) (item : Item) (value : String) : Tree :=
  (t.setItem id { item with user? := some value }).publish item.name value

variable {t : Tree} {id : ItemId} {item : Item}

theorem assign_of_accepted (hi : t.item? id = some item)
    {raw value : String} (ha : item.kind.accept raw = .ok value) :
    t.assign id raw = (.ok (), t.give id item value) := by
  rw [assign_of_item hi, ha]
  rfl

theorem entity?_setUser (hi : t.item? id = some item) (user? : Option String) :
    (t.setItem id { item with user? }).entity? (.item id) = some (.item { item with user? }) := by
  rw [entity?_setItem, if_pos rfl, entity?_item, hi]
  rfl

theorem item?_give (hc : t.Coherent) (hi : t.item? id = some item) (value : String) :
    ∃ item', (t.give id item value).item? id = some item' ∧ item'.name = item.name ∧
      item'.user? = some value := by
  have hset := entity?_eq_item.mp (entity?_setUser hi (some value))
  obtain ⟨item', hi', hb⟩ :=
    (spares_publish (hc.setUser hi (some value)) item.name value).item hset not_false
  have hname := Item.name_of_bare hb
  have huser := Item.user?_of_bare hb
  exact ⟨item', hi', hname, huser⟩

theorem get?_give (t : Tree) (id : ItemId) (item : Item) (value name : String) :
    (t.give id item value).vars.get? name =
      if name = item.name then some value else t.vars.get? name := by
  rw [Variables.get?, give, values_publish, OrderedMap.get?_insert]
  rfl

theorem entity?_give_of_not_watching (hc : t.Coherent) {h : Handle}
    (hw : h ∉ t.vars.watching item.name) (hi : t.item? id = some item) (value : String) :
    (t.give id item value).entity? h =
      (t.setItem id { item with user? := some value }).entity? h := by
  rw [give, entity?_publish _ _ _ ((hc.setUser hi (some value)).nodup item.name)]
  exact if_neg fun hb => hw hb.2

theorem watchers_publish (t : Tree) (name value : String) :
    (t.publish name value).vars.watchers = t.vars.watchers := by
  cases hc : t.vars.changes name value with
  | false => rw [publish_of_not_changes hc]
  | true => rw [publish_of_changes hc]; rfl

theorem next_publish (t : Tree) (name value : String) :
    (t.publish name value).arena.next = t.arena.next := by
  cases hc : t.vars.changes name value with
  | false => rw [publish_of_not_changes hc]
  | true =>
    rw [publish_of_changes hc]
    funext h
    exact Arena.next_foldl_deliver ..

theorem next_setItem (t : Tree) (id : ItemId) (item : Item) :
    (t.setItem id item).arena.next = t.arena.next := by
  funext h
  cases h <;> simp [setItem, Arena.next]

/-- What a tree is after a canonical value was given to an item of it. What there is to an entity
but its visibility, the changes seen by it and the values noted in it is told by `Entity.bare`. -/
structure Given (t : Tree) (id : ItemId) (item : Item) (value : String) (t' : Tree) : Prop where
  own : ∃ item', t'.item? id = some item' ∧ item'.user? = some value ∧
    item'.bare = { item with user? := some value }.bare ∧
    (.item id ∉ t.vars.watching item.name → item' = { item with user? := some value })
  stored : t'.vars.get? item.name = some value
  others : ∀ name, name ≠ item.name → t'.vars.get? name = t.vars.get? name
  users : ∀ other, other ≠ id → (t'.item? other).map Item.user? = (t.item? other).map Item.user?
  order : t'.vars.values.keys =
    if item.name ∈ t.vars.values.keys then t.vars.values.keys
    else t.vars.values.keys ++ [item.name]
  watchers : t'.vars.watchers = t.vars.watchers
  told : ∀ h, h ≠ .item id → (t'.entity? h).map Entity.bare = (t.entity? h).map Entity.bare
  rest : ∀ h, h ≠ .item id → h ∉ t.vars.watching item.name → t'.entity? h = t.entity? h
  next : t'.arena.next = t.arena.next
  place : t'.rootPath = t.rootPath ∧ t'.origin = t.origin
  held : t.vars.get? item.name = some value →
    t' = t.setItem id { item with user? := some value }

theorem given_give (hc : t.Coherent) (hi : t.item? id = some item) (value : String) :
    t.Given id item value (t.give id item value) := by
  have hset := hc.setUser hi (some value)
  have hpublish := spares_publish hset item.name value
  have hbare : ∀ h, h ≠ .item id → ((t.give id item value).entity? h).map Entity.bare =
      (t.entity? h).map Entity.bare := by
    intro h hne
    have hsame : (t.setItem id { item with user? := some value }).entity? h = t.entity? h := by
      rw [entity?_setItem, if_neg hne]
    rw [give, entity?_publish _ _ _ (hset.nodup item.name), ← hsame]
    split
    · simp [Function.comp_def]
    · rfl
  constructor
  case own =>
    have hgiven := entity?_eq_item.mp (entity?_setUser hi (some value))
    obtain ⟨item', hi', hb⟩ := hpublish.item hgiven not_false
    refine ⟨item', hi', Item.user?_of_bare hb, hb, fun hw => ?_⟩
    have he := entity?_give_of_not_watching hc hw hi value
    rw [entity?_setUser hi] at he
    exact Option.some.inj (hi'.symm.trans (entity?_eq_item.mp he))
  case stored => rw [get?_give, if_pos rfl]
  case others =>
    intro name hne
    rw [get?_give, if_neg hne]
  case users =>
    intro other hne
    have hb := hbare (.item other) (by simpa using hne)
    rw [entity?_item, entity?_item, Option.map_map, Option.map_map] at hb
    cases ho : t.item? other with
    | none =>
      rw [ho] at hb
      rw [Option.map_eq_none_iff.mp hb]
    | some item₀ =>
      rw [ho] at hb
      obtain ⟨item', hi', hb⟩ := Option.map_eq_some_iff.mp hb
      rw [hi', Option.map_some, Option.map_some, Item.user?_of_bare (Entity.item.inj hb)]
  case order =>
    rw [give, values_publish, OrderedMap.keys_insert]
    rfl
  case watchers => rw [give, watchers_publish]; rfl
  case told => exact hbare
  case rest =>
    intro h hne hw
    rw [entity?_give_of_not_watching hc hw hi value, entity?_setItem, if_neg hne]
  case next => rw [give, next_publish, next_setItem]
  case place => exact ⟨rfl, rfl⟩
  case held =>
    intro hv
    exact publish_of_not_changes ((Variables.changes_eq_false_iff ..).mpr hv)

/-! ## All or nothing -/

/-- How an attempt to give an item a value ends. It fails without effect where there is no item,
nothing to give or a value that the item refuses. -/
def Settled (t : Tree) (id : ItemId) (raw? : Item → Option String) :
    Except Error Unit × Tree → Prop
  | (.error _, t') => t' = t ∧ ∀ item raw, t.item? id = some item → raw? item = some raw →
      ∃ reason, item.validate raw = .error reason
  | (.ok (), t') => ∃ item raw value, t.item? id = some item ∧ raw? item = some raw ∧
      item.validate raw = .ok value ∧ t.Given id item value t'

theorem Settled.congr {raw? raw?' : Item → Option String}
    (hr : ∀ item, t.item? id = some item → raw? item = raw?' item)
    {r : Except Error Unit × Tree} (h : t.Settled id raw? r) : t.Settled id raw?' r := by
  obtain ⟨r, t'⟩ := r
  cases r with
  | error e =>
    refine ⟨h.1, fun item raw hi hraw => ?_⟩
    exact h.2 item raw hi ((hr item hi).trans hraw)
  | ok _ =>
    obtain ⟨item, raw, value, hi, hraw, hrest⟩ := h
    exact ⟨item, raw, value, hi, (hr item hi).symm.trans hraw, hrest⟩

theorem Settled.unchanged {raw? : Item → Option String} {r : Except Error Unit × Tree}
    (h : t.Settled id raw? r) (he : r.1.isOk = false) : r.2 = t := by
  obtain ⟨_ | _, t'⟩ := r
  · exact h.1
  · cases he

theorem Settled.given {raw? : Item → Option String} {r : Except Error Unit × Tree}
    (h : t.Settled id raw? r) (he : r.1.isOk = true) :
    ∃ item raw value, t.item? id = some item ∧ raw? item = some raw ∧
      item.validate raw = .ok value ∧ t.Given id item value r.2 := by
  obtain ⟨_ | _, t'⟩ := r
  · cases he
  · exact h

theorem settled_assign (hc : t.Coherent) (id : ItemId) (raw : String) :
    t.Settled id (fun _ => some raw) (t.assign id raw) := by
  cases hi : t.item? id with
  | none =>
    simp only [assign, hi, Settled, true_and]
    rintro item _ ⟨⟩
  | some item =>
    rw [assign_of_item hi]
    cases ha : item.kind.accept raw with
    | error reason =>
      refine ⟨rfl, ?_⟩
      rintro item' _ hi' ⟨⟩
      cases hi.symm.trans hi'
      exact ⟨⟨item.name, reason⟩, by simp only [Item.validate, ha]⟩
    | ok value =>
      exact ⟨item, raw, value, hi, rfl, by simp only [Item.validate, ha], given_give hc hi value⟩

theorem settled_adoptDefault (hc : t.Coherent) (id : ItemId) :
    t.Settled id Item.default? (t.adoptDefault id) := by
  cases hi : t.item? id with
  | none =>
    simp only [adoptDefault, hi, Settled, true_and]
    rintro item _ ⟨⟩
  | some item =>
    cases hd : item.default? with
    | none =>
      simp only [adoptDefault, hi, hd, Settled, true_and]
      rintro _ raw ⟨⟩ hraw
      cases hd.symm.trans hraw
    | some raw =>
      simp only [adoptDefault, hi, hd]
      refine (settled_assign hc id raw).congr fun item' hi' => ?_
      cases hi.symm.trans hi'
      exact hd.symm

/-! ## An example -/

namespace Gate

def schemaText : String :=
  "\x7b\"G\":\x7b\"type\":\"enum\",\"enum\":[\"off\",\"on\"],\"default\":\"1\"," ++
  "\"depend\":\x7b\"G\":\"off\"\x7d\x7d," ++
  "\"N\":\x7b\"type\":\"int\",\"depend\":\x7b\"G\":\"on\"\x7d\x7d\x7d"

def around : Surroundings where
  files := ⟨⟨"/"⟩, [(["config.json"], .file schemaText.toUTF8 false)]⟩
  environment := ⟨[], .checked⟩

def planted : Tree := plant "config.json" ⟨"/"⟩

def tree : Tree := (planted.parse around root).2

theorem reachable_tree : tree.Reachable :=
  .call (.plant _ _) (.parse around planted root)

theorem exists_choice : ∃ item, tree.item? ⟨0⟩ = some item ∧ item.name = "G" ∧
    item.kind = .choice ["off", "on"] := by
  have hchoice : (tree.item? ⟨0⟩).any (fun item =>
      item.name = "G" ∧ item.kind = .choice ["off", "on"]) = true := by
    decide +kernel
  obtain ⟨item, hi, hshape⟩ := (Option.any_eq_true _ _).mp hchoice
  exact ⟨item, hi, of_decide_eq_true hshape⟩

end Gate

/-- Giving an item a value or its default is all or nothing, and touches nothing that does not
watch the variable. -/
theorem assignment_atomic {t : Tree} (h : t.Reachable) (id : ItemId) (raw : String) :
    t.Settled id (fun _ => some raw) (t.assign id raw) ∧
      t.Settled id Item.default? (t.adoptDefault id) :=
  ⟨settled_assign h.coherent id raw, settled_adoptDefault h.coherent id⟩

/-- An index that is too large changes nothing. The default is given to the choice and published,
also for itself. -/
theorem assignment_atomic_gate :
    Gate.tree.Reachable ∧ (Gate.tree.assign ⟨0⟩ "2").2 = Gate.tree ∧
      ∃ item value, Gate.tree.item? ⟨0⟩ = some item ∧ item.default? = some "1" ∧
        .item ⟨0⟩ ∈ Gate.tree.vars.watching item.name ∧
        Gate.tree.Given ⟨0⟩ item value (Gate.tree.adoptDefault ⟨0⟩).2 := by
  obtain ⟨hrefused, hadopted⟩ := assignment_atomic Gate.reachable_tree ⟨0⟩ "2"
  refine ⟨Gate.reachable_tree, hrefused.unchanged (by decide +kernel), ?_⟩
  obtain ⟨item, raw, value, hi, hd, -, hgiven⟩ := hadopted.given (by decide +kernel)
  have hsample : (Gate.tree.item? ⟨0⟩).all (fun item => decide (item.default? = some "1" ∧
      .item ⟨0⟩ ∈ Gate.tree.vars.watching item.name)) = true := by
    decide +kernel
  rw [hi] at hsample
  obtain ⟨hdefault, hwatching⟩ := of_decide_eq_true hsample
  exact ⟨item, value, hi, hdefault, hwatching, hgiven⟩

end Tree

end MakeConfig
