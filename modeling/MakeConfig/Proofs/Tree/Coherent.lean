import MakeConfig.Proofs.Tree.Intake
import MakeConfig.Proofs.Tree.Reachable

/-! # Coherent trees

What entities remember of variables agrees with the variables: visibility, changes seen and
values in paths. It stays so because the watchers of a variable are exactly the entities that
look at it. Every call on a tree keeps both.
-/

namespace MakeConfig

section Memory

variable {κ : Type}

namespace Binding

/-- The values that a binding knows are in force. -/
def Current (b : Binding) (s : Variables κ) : Prop := ∀ name ∈ b.names, b.value? name = s.get? name

/-- A binding knows values only of variables that have one, though maybe another one by now. -/
def Noted (b : Binding) (s : Variables κ) : Prop :=
  ∀ name, (b.value? name).isSome = true → name ∈ s.values.keys

theorem Current.path_eq {b : Binding} {s : Variables κ} (h : b.Current s) :
    b.path = b.pathWith s.get? := by
  unfold path pathWith
  rw [Template.fill_congr fun name hn => h name (b.names_eq ▸ hn)]

theorem Noted.pathIn_eq {b : Binding} {s : Variables κ} (h : b.Noted s) :
    b.pathIn s = b.pathWith s.get? := by
  unfold pathIn pathWith
  congr 1
  apply Template.fill_congr
  intro name _
  cases hs : s.get? name with
  | some value => rfl
  | none =>
    cases hb : b.value? name with
    | none => rfl
    | some value =>
      have hk := h name (by rw [hb]; rfl)
      exact absurd hs (mt (s.values.get?_eq_none_iff name).mp (not_not_intro hk))

theorem current_bind (raw : String) (origin : Path) (s : Variables κ) :
    (bind raw origin s.values).Current s := by
  intro name hn
  rw [names_eq, raw_bind] at hn
  rw [value?_bind, if_pos hn]
  rfl

theorem noted_bind (raw : String) (origin : Path) {known : OrderedMap String} {s : Variables κ}
    (h : ∀ name ∈ known.keys, name ∈ s.values.keys) : (bind raw origin known).Noted s := by
  intro name hn
  rw [value?_bind] at hn
  split at hn
  · exact h name ((known.isSome_get? name).mp hn)
  · cases hn

theorem Current.learn {b : Binding} {s : Variables κ} (h : b.Current s) (name value : String) :
    (b.learn name value).Current (s.write name value) := by
  intro other ho
  rw [names_learn] at ho
  rw [value?_learn, Variables.get?_write, h other ho]
  simp [ho]

theorem Current.write {b : Binding} {s : Variables κ} (h : b.Current s) {name : String}
    (hn : name ∉ b.names) (value : String) : b.Current (s.write name value) := by
  intro other ho
  have hne : other ≠ name := fun he => hn (he ▸ ho)
  rw [Variables.get?_write, if_neg hne, h other ho]

theorem Noted.write {b : Binding} {s : Variables κ} (h : b.Noted s) (name value : String) :
    b.Noted (s.write name value) :=
  fun other ho => OrderedMap.mem_keys_insert.mpr (.inr (h other ho))

theorem Noted.learn {b : Binding} {s : Variables κ} (h : b.Noted s) (name value : String) :
    (b.learn name value).Noted (s.write name value) := by
  intro other ho
  rw [value?_learn] at ho
  apply OrderedMap.mem_keys_insert.mpr
  split at ho
  · next hc => exact .inl hc.1
  · exact .inr (h other ho)

end Binding

/-- An item is visible as its requirements are met, and has seen the last changes. -/
structure Item.Current (i : Item) (s : Variables κ) : Prop where
  visible : i.visible = s.meetsAll i.depends
  observed : ∀ name value, i.observed.get? name = some value →
    name ∈ i.depends.keys ∧ s.get? name = some value

structure Node.Current (n : Node) (s : Variables κ) : Prop where
  visible : n.visible = s.meetsAll n.depends
  path : n.path.Current s
  known : ∀ name ∈ n.known.keys, name ∈ s.values.keys

theorem Item.Current.write {i : Item} {s : Variables κ} (h : i.Current s) {name : String}
    (hn : name ∉ i.depends.keys) (value : String) : i.Current (s.write name value) := by
  have hne : ∀ other ∈ i.depends.keys, other ≠ name := fun other ho he => hn (he ▸ ho)
  constructor
  · rw [h.visible, Variables.meetsAll_write hn]
  · intro other v ho
    obtain ⟨hk, hv⟩ := h.observed other v ho
    rw [Variables.get?_write, if_neg (hne other hk)]
    exact ⟨hk, hv⟩

theorem Item.Current.notice {i : Item} {s : Variables κ} (h : i.Current s) (name value : String) :
    (i.notice name value (s.write name value)).Current (s.write name value) := by
  rw [notice_eq]
  cases hd : i.depends.contains name with
  | true =>
    refine ⟨by simp, fun other v ho => ?_⟩
    simp only [if_true, OrderedMap.get?_insert] at ho
    rw [Variables.get?_write]
    split at ho
    · next he =>
      cases ho
      exact ⟨he ▸ (i.depends.contains_iff name).mp hd, if_pos he⟩
    · next he =>
      rw [if_neg he]
      exact h.observed other v ho
  | false =>
    have hn : name ∉ i.depends.keys := by simp [← OrderedMap.contains_iff, hd]
    exact h.write hn value

theorem Node.Current.known_learn {n : Node} {s : Variables κ} (h : n.Current s)
    (name value : String) :
    ∀ other ∈ (n.learn name value).known.keys, other ∈ (s.write name value).values.keys := by
  intro other ho
  apply OrderedMap.mem_keys_insert.mpr
  rw [learn_eq] at ho
  split at ho
  · exact (OrderedMap.mem_keys_insert.mp ho).imp_right (h.known other)
  · rw [OrderedMap.keys_modify] at ho
    exact .inr (h.known other ho)

theorem Node.Current.notice {n : Node} {s : Variables κ} (h : n.Current s) (name value : String) :
    (n.notice name value (s.write name value)).Current (s.write name value) := by
  refine ⟨?_, n.path_notice name value _ ▸ h.path.learn name value, ?_⟩
  · rw [notice_eq, learn_eq]
    cases hd : n.depends.contains name with
    | true => rfl
    | false =>
      have hn : name ∉ n.depends.keys := by simp [← OrderedMap.contains_iff, hd]
      simp only [Bool.false_eq_true, if_false, h.visible, Variables.meetsAll_write hn]
  · rw [notice_eq]
    exact h.known_learn name value

theorem Node.Current.write {n : Node} {s : Variables κ} (h : n.Current s) {name : String}
    (hn : name ∉ n.watched) (value : String) : n.Current (s.write name value) := by
  have hd : name ∉ n.depends.keys := fun hd => hn (List.mem_append_left _ hd)
  have hp : name ∉ n.path.names := fun hp =>
    hn (List.mem_append_right _ (List.mem_filter.mpr ⟨hp, by simpa using hd⟩))
  refine ⟨?_, h.path.write hp value, fun other ho => ?_⟩
  · rw [h.visible, Variables.meetsAll_write hd]
  · exact OrderedMap.mem_keys_insert.mpr (.inr (h.known other ho))

namespace Entity

/-- What an entity remembers of variables is in force, as far as it counts. -/
def Current (s : Variables κ) : Entity → Prop
  | item i => i.Current s
  | node n => n.Current s
  | recipe r => r.path.Noted s
  | repo r => r.directory.Noted s ∧ r.out.Noted s

theorem Current.notice {e : Entity} {s : Variables κ} (h : e.Current s) (name value : String) :
    (e.notice name value (s.write name value)).Current (s.write name value) := by
  cases e with
  | item i => exact Item.Current.notice h name value
  | node n => exact Node.Current.notice h name value
  | recipe r => exact Binding.Noted.learn h name value
  | repo r => exact ⟨h.1.learn name value, h.2.learn name value⟩

theorem Current.write {e : Entity} {s : Variables κ} (h : e.Current s) {name : String}
    (hn : name ∉ e.watched) (value : String) : e.Current (s.write name value) := by
  cases e with
  | item i => exact Item.Current.write h hn value
  | node n => exact Node.Current.write h hn value
  | recipe r => exact Binding.Noted.write h name value
  | repo r => exact ⟨h.1.write name value, h.2.write name value⟩

theorem Current.of_values {κ' : Type} {e : Entity} {s : Variables κ} {s' : Variables κ'}
    (h : e.Current s) (hv : s'.values = s.values) : e.Current s' := by
  obtain ⟨values, watchers⟩ := s
  obtain ⟨values', watchers'⟩ := s'
  cases hv
  cases e with
  | item i => exact ⟨h.visible, h.observed⟩
  | node n => exact ⟨h.visible, h.path, h.known⟩
  | recipe r => exact h
  | repo r => exact h

theorem Current.read {e : Entity} {s : Variables κ} (h : e.Current s) (parsed? : Option Parsed) :
    (e.read parsed?).Current s := by
  cases e with
  | node n => exact ⟨h.visible, h.path, h.known⟩
  | item i => exact h
  | recipe r => exact h
  | repo r => exact h

end Entity

end Memory

/-! ## The invariant -/

/-- Entities are up to date, and a variable is watched by those that look at it, each once. -/
structure Tree.Coherent (t : Tree) : Prop where
  current : ∀ h e, t.entity? h = some e → e.Current t.vars
  watching : ∀ name h, h ∈ t.vars.watching name ↔ ∃ e, t.entity? h = some e ∧ name ∈ e.watched
  nodup : ∀ name, (t.vars.watching name).Nodup

theorem Entity.exists_watched_map {f : Entity → Entity} {o : Option Entity}
    (hf : ∀ e, o = some e → (f e).watched = e.watched) {name : String} :
    (∃ e, o.map f = some e ∧ name ∈ e.watched) ↔ ∃ e, o = some e ∧ name ∈ e.watched := by
  cases o with
  | none => simp
  | some e => simp [hf e rfl]

namespace Tree.Coherent

section Lookup

variable {t : Tree} (hc : t.Coherent)

include hc

theorem mem_watching {h : Handle} {e : Entity} (he : t.entity? h = some e) (name : String) :
    h ∈ t.vars.watching name ↔ name ∈ e.watched := by
  rw [hc.watching]
  constructor
  · rintro ⟨e', he', hn⟩
    cases he.symm.trans he'
    exact hn
  · exact fun hn => ⟨e, he, hn⟩

theorem item {id : ItemId} {item : Item} (h : t.item? id = some item) : item.Current t.vars :=
  hc.current _ _ (entity?_eq_item.mpr h)

theorem node {id : NodeId} {node : Node} (h : t.node? id = some node) : node.Current t.vars :=
  hc.current _ _ (entity?_eq_node.mpr h)

theorem recipe {id : RecipeId} {recipe : Recipe} (h : t.recipe? id = some recipe) :
    recipe.path.Noted t.vars :=
  hc.current (.recipe id) (.recipe recipe) (by rw [entity?_recipe, h]; rfl)

theorem repo {id : RepoId} {repo : Repo} (h : t.repo? id = some repo) :
    repo.directory.Noted t.vars ∧ repo.out.Noted t.vars :=
  hc.current (.repo id) (.repo repo) (by rw [entity?_repo, h]; rfl)

end Lookup

end Tree.Coherent

namespace Tree.Coherent

open Entity

variable {t : Tree}

/-- The key step: a variable changes, and whoever looks at it is told. -/
theorem publish (hc : t.Coherent) (name value : String) : (t.publish name value).Coherent := by
  cases hch : t.vars.changes name value with
  | false => rwa [publish_of_not_changes hch]
  | true =>
    have he := t.entity?_publish name value (hc.nodup name)
    simp only [hch, true_and] at he
    refine ⟨fun h e' he' => ?_, fun other h => ?_, fun other => ?_⟩
    · have hv : (t.publish name value).vars.values = (t.vars.write name value).values :=
        t.values_publish name value
      refine Entity.Current.of_values ?_ hv
      rw [he] at he'
      split at he'
      · obtain ⟨e, hte, rfl⟩ := Option.map_eq_some_iff.mp he'
        exact (hc.current h e hte).notice name value
      · next hh => exact (hc.current h e' he').write (mt (hc.mem_watching he' name).mpr hh) value
    · rw [watching_publish, hc.watching, he]
      split
      · rw [exists_watched_map fun e _ => e.watched_notice ..]
      · rfl
    · rw [watching_publish]
      exact hc.nodup other

theorem add (hc : t.Coherent) {e : Entity} (h : e.Current t.vars) : (t.add e).Coherent := by
  have hf := t.entity?_of_not_issued (t.not_issued_handleFor e)
  refine ⟨fun k e' he' => ?_, fun name k => ?_, fun name => ?_⟩
  · refine Entity.Current.of_values ?_ (t.vars.values_watchAll _ _)
    rw [entity?_add] at he'
    split at he'
    · cases he'
      exact h
    · exact hc.current k e' he'
  · change k ∈ (t.vars.watchAll (t.handleFor e) e.watched).watching name ↔ _
    rw [Variables.mem_watching_watchAll, hc.watching, entity?_add]
    by_cases hk : k = t.handleFor e
    · simp [hk, hf]
    · simp [hk]
  · exact Variables.nodup_watching_watchAll _ _ _ (hc.nodup name)

theorem foldl_drop (hc : t.Coherent) (hs : List Handle) : (hs.foldl drop t).Coherent := by
  refine ⟨fun k e he => ?_, fun name k => ?_, fun name => ?_⟩
  · rw [entity?_foldl_drop] at he
    split at he
    · cases he
    · exact (hc.current k e he).of_values (t.values_foldl_drop hs)
  · rw [watching_foldl_drop, List.mem_filter, hc.watching, entity?_foldl_drop]
    by_cases hk : k ∈ hs <;> simp [hk]
  · rw [watching_foldl_drop]
    exact (hc.nodup name).filter _

theorem amend {t' : Tree} (hc : t.Coherent) (hv : t'.vars = t.vars) (f : Handle → Entity → Entity)
    (he : ∀ h, t'.entity? h = (t.entity? h).map (f h))
    (hw : ∀ h e, t.entity? h = some e → (f h e).watched = e.watched)
    (hcur : ∀ h e, t.entity? h = some e → (f h e).Current t.vars) : t'.Coherent := by
  refine ⟨fun h e' he' => ?_, fun name h => ?_, fun name => hv ▸ hc.nodup name⟩
  · rw [he] at he'
    obtain ⟨e, hte, rfl⟩ := Option.map_eq_some_iff.mp he'
    exact hv ▸ hcur h e hte
  · rw [hv, hc.watching, he, exists_watched_map (hw h)]

theorem setParsed (hc : t.Coherent) (id : NodeId) (parsed? : Option Parsed) :
    (t.setParsed id parsed?).Coherent := by
  refine hc.amend rfl (fun h e => if h = .node id then e.read parsed? else e) ?_ ?_ ?_
  · intro h
    rw [entity?_setParsed]
    split <;> simp
  · intro h e _
    split <;> simp
  · intro h e he
    split
    · exact (hc.current h e he).read parsed?
    · exact hc.current h e he

theorem setUser (hc : t.Coherent) {id : ItemId} {item : Item} (hi : t.item? id = some item)
    (user? : Option String) : (t.setItem id { item with user? }).Coherent := by
  have hit : ∀ h e, t.entity? h = some e → h = .item id → e = .item item := by
    rintro h e he rfl
    rw [entity?_item, hi] at he
    cases he
    rfl
  refine hc.amend rfl
    (fun h e => if h = .item id then .item { item with user? } else e) ?_ ?_ ?_
  · intro h
    rw [entity?_setItem]
    split <;> simp
  · intro h e he
    split
    · next hh => rw [hit h e he hh]; rfl
    · rfl
  · intro h e he
    split
    · next hh =>
      have hcur := hc.current h e he
      rw [hit h e he hh] at hcur
      exact ⟨hcur.visible, hcur.observed⟩
    · exact hc.current h e he

theorem assign (hc : t.Coherent) (id : ItemId) (raw : String) : (t.assign id raw).2.Coherent := by
  cases hi : t.item? id with
  | none =>
    simp only [Tree.assign, hi]
    exact hc
  | some item =>
    rw [assign_of_item hi]
    split
    · exact hc
    · exact (hc.setUser hi _).publish _ _

theorem assignAll (hc : t.Coherent) (values : List (ItemId × String)) :
    (t.assignAll values).2.Coherent :=
  assignAll_invariant (fun _ id raw hc => hc.assign id raw) hc values

end Tree.Coherent

/-! ## Arrivals -/

theorem Node.current_construct {κ : Type} (name path : String) (origin : Path)
    (depends : Requirements) (s : Variables κ) :
    (construct name path origin depends s).Current s := by
  refine ⟨rfl, ?_, ?_⟩
  · simp only [construct, Variables.copyInto_empty]
    exact Binding.current_bind path origin s
  · simp only [construct, Variables.copyInto_empty]
    exact fun _ h => h

namespace Intake

theorem current_of_arriving {environment : Environment} {base : Path} {known : OrderedMap String}
    {s : Variables Handle} (hk : ∀ name ∈ known.keys, name ∈ s.values.keys)
    {entry : String × Entry} {e : Entity} {value? : Option String}
    (h : arriving environment base known s entry = .ok (e, value?)) : e.Current s := by
  obtain ⟨name, entry⟩ := entry
  cases entry with
  | item typeName spec =>
    simp only [arriving] at h
    cases hi : Item.ofSpec environment.build name typeName spec with
    | error e => simp [hi] at h
    | ok item =>
      simp only [hi] at h
      split at h
      · cases h
      · cases h
        obtain ⟨kind, generates, -, -, -, rfl⟩ := Item.ofSpec_cases hi
        refine ⟨rfl, fun other v ho => ?_⟩
        cases ho
  | child spec =>
    cases h
    exact Node.current_construct ..
  | recipe spec =>
    cases h
    exact Binding.noted_bind _ _ hk
  | repo spec =>
    cases h
    exact ⟨Binding.noted_bind _ _ hk, Binding.noted_bind _ _ hk⟩

end Intake

namespace Tree

theorem coherent_plant (rootPath : String) (origin : Path) : (plant rootPath origin).Coherent := by
  let bare : Tree := { vars := .empty, arena := .empty, rootPath, origin }
  have hbare : bare.Coherent := by
    refine ⟨fun h e he => ?_, fun name h => ?_, fun name => List.nodup_nil⟩
    · cases h <;> cases he
    · constructor
      · rintro ⟨⟩
      · rintro ⟨e, he, _⟩
        cases h <;> cases he
  exact hbare.add (e := .node _) (Node.current_construct ..)

namespace Coherent

variable {t : Tree}

theorem release (hc : t.Coherent) (c : Contents) : (t.release c).Coherent := hc.foldl_drop _

theorem unread (hc : t.Coherent) (id : NodeId) : (t.unread id).Coherent := by
  unfold Tree.unread
  split
  · exact hc
  · exact (hc.setParsed id none).release _

theorem values_unread (id : NodeId) : (t.unread id).vars.values = t.vars.values := by
  unfold Tree.unread
  split
  · rfl
  · exact values_foldl_drop ..

theorem takeAll (environment : Environment) (base : Path) {known : OrderedMap String}
    {i : Intake} (hc : i.tree.Coherent)
    (hk : ∀ name ∈ known.keys, name ∈ i.tree.vars.values.keys) (schema : Schema) :
    (i.takeAll environment base known schema).2.tree.Coherent := by
  have hboth := Intake.takeAll_invariant environment base known
    (P := fun i' => i'.tree.Coherent ∧ i'.tree.vars.values = i.tree.vars.values) (i := i)
    (fun i' entry e value? hi ha =>
      ⟨hi.1.add (Intake.current_of_arriving (hi.2 ▸ hk) ha),
        (i'.tree.vars.values_watchAll _ _).trans hi.2⟩)
    ⟨hc, rfl⟩ schema
  exact hboth.1

theorem known_unread (hc : t.Coherent) {id : NodeId} {node : Node} (hn : t.node? id = some node) :
    ∀ name ∈ node.known.keys, name ∈ (t.unread id).vars.values.keys := by
  rw [values_unread]
  exact (hc.node hn).known

theorem populate (hc : t.Coherent) (environment : Environment) {id : NodeId} {node : Node}
    (hn : t.node? id = some node) (file : Path) (schema : Schema) :
    (t.populate environment id node file schema).2.Coherent := by
  let start : Intake := { tree := t.unread id, contents := .empty, imported := [] }
  have hstart : start.tree.Coherent := hc.unread id
  have htaken := hstart.takeAll environment (file.parent?.getD ⟨""⟩) (hc.known_unread hn) schema
  unfold Tree.populate
  dsimp only
  split
  · next hr =>
    rw [hr] at htaken
    exact htaken.release _
  · next hr =>
    rw [hr] at htaken
    exact (htaken.setParsed id _).assignAll _

theorem parse (hc : t.Coherent) (around : Surroundings) (id : NodeId) :
    (t.parse around id).2.Coherent := by
  unfold Tree.parse
  split
  · exact hc
  · next node hn =>
    dsimp only
    split
    · exact hc
    · exact hc.populate around.environment hn _ _

end Coherent

theorem Reachable.coherent {t : Tree} (h : t.Reachable) : t.Coherent :=
  h.invariant coherent_plant (fun _ name value hc => hc.publish name value)
    (fun _ id raw hc => hc.assign id raw) fun around _ id hc => hc.parse around id

end Tree

end MakeConfig
