import MakeConfig.Proofs.Tree.Coherent

/-! # What operations leave alone

An operation touches few handles. All others that were given out stand for what they stood for
before, apart from what it has seen of variables meanwhile. What a reading lets in comes under
handles that were not given out before, so a child comes after its parent.
-/

namespace MakeConfig

namespace Tree

/-- Handles stay given out, and those that are not touched keep what they stand for. -/
structure Spares (touched : Handle → Prop) (t t' : Tree) : Prop where
  issued : ∀ h, t.Issued h → t'.Issued h
  bare : ∀ h, t.Issued h → ¬ touched h →
    (t'.entity? h).map Entity.bare = (t.entity? h).map Entity.bare

namespace Spares

variable {P Q : Handle → Prop} {t t' t'' : Tree}

theorem refl (P : Handle → Prop) (t : Tree) : t.Spares P t :=
  ⟨fun _ h => h, fun _ _ _ => rfl⟩

theorem mono (h : t.Spares P t') (hPQ : ∀ k, t.Issued k → P k → Q k) : t.Spares Q t' :=
  ⟨h.issued, fun k hk hn => h.bare k hk (mt (hPQ k hk) hn)⟩

theorem after (hs : t.Spares Q t') (h : t'.Spares P t'')
    (hPQ : ∀ k, t.Issued k → P k → Q k) : t.Spares Q t'' := by
  refine ⟨fun k hk => h.issued k (hs.issued k hk), fun k hk hn => ?_⟩
  rw [h.bare k (hs.issued k hk) (mt (hPQ k hk) hn), hs.bare k hk hn]

theorem trans (h : t.Spares P t') (h' : t'.Spares P t'') : t.Spares P t'' :=
  h.after h' fun _ _ hk => hk

theorem node {id : NodeId} {node : Node} (h : t.Spares P t') (hn : t.node? id = some node)
    (hp : ¬ P (.node id)) : ∃ node', t'.node? id = some node' ∧ node'.bare = node.bare := by
  have he := entity?_eq_node.mpr hn
  have hb := h.bare _ (issued_of_entity? he) hp
  rw [he, entity?_node] at hb
  obtain ⟨e, he', hb⟩ := Option.map_eq_some_iff.mp hb
  obtain ⟨node', hn', rfl⟩ := Option.map_eq_some_iff.mp he'
  exact ⟨node', hn', Entity.node.inj hb⟩

theorem item {id : ItemId} {item : Item} (h : t.Spares P t') (hi : t.item? id = some item)
    (hp : ¬ P (.item id)) : ∃ item', t'.item? id = some item' ∧ item'.bare = item.bare := by
  have he := entity?_eq_item.mpr hi
  have hb := h.bare _ (issued_of_entity? he) hp
  rw [he, entity?_item] at hb
  obtain ⟨e, he', hb⟩ := Option.map_eq_some_iff.mp hb
  obtain ⟨item', hi', rfl⟩ := Option.map_eq_some_iff.mp he'
  exact ⟨item', hi', Entity.item.inj hb⟩

end Spares

variable {t : Tree}

theorem spares_publish (hc : t.Coherent) (name value : String) :
    t.Spares (fun _ => False) (t.publish name value) := by
  refine ⟨fun h hi => (t.issued_publish name value h).mpr hi, fun h _ _ => ?_⟩
  rw [t.entity?_publish name value (hc.nodup name)]
  split
  · simp [Function.comp_def]
  · rfl

theorem spares_add (e : Entity) : t.Spares (fun _ => False) (t.add e) := by
  refine ⟨fun h hi => (t.issued_add e h).mpr (.inl hi), fun h hi _ => ?_⟩
  rw [entity?_add, if_neg]
  rintro rfl
  exact t.not_issued_handleFor e hi

theorem spares_foldl_drop (hs : List Handle) : t.Spares (· ∈ hs) (hs.foldl drop t) := by
  refine ⟨fun h hi => (t.issued_foldl_drop hs h).mpr hi, fun h _ hn => ?_⟩
  rw [entity?_foldl_drop, if_neg hn]

theorem spares_setParsed (id : NodeId) (parsed? : Option Parsed) :
    t.Spares (· = .node id) (t.setParsed id parsed?) := by
  refine ⟨fun h hi => (t.issued_setParsed id parsed? h).mpr hi, fun h _ hn => ?_⟩
  rw [entity?_setParsed, if_neg hn]

theorem spares_setItem (id : ItemId) (item : Item) :
    t.Spares (· = .item id) (t.setItem id item) := by
  refine ⟨fun h hi => (t.issued_setItem id item h).mpr hi, fun h _ hn => ?_⟩
  rw [entity?_setItem, if_neg hn]

theorem spares_assign (hc : t.Coherent) (id : ItemId) (raw : String) :
    t.Spares (· = .item id) (t.assign id raw).2 := by
  cases hi : t.item? id with
  | none =>
    simp only [assign, hi]
    exact .refl _ t
  | some item =>
    rw [assign_of_item hi]
    split
    · exact .refl _ t
    · next value _ =>
      have hp := spares_publish (hc.setUser hi (some value)) item.name value
      exact (spares_setItem id _).trans (hp.mono fun _ _ => False.elim)

theorem spares_assignAll (hc : t.Coherent) (values : List (ItemId × String)) :
    t.Spares (fun h => ∃ p ∈ values, h = .item p.1) (t.assignAll values).2 := by
  induction values generalizing t with
  | nil => exact .refl _ t
  | cons value values ih =>
    have hcoherent := hc.assign value.1 value.2
    have hfirst : t.Spares (fun h => ∃ p ∈ value :: values, h = .item p.1)
        (t.assign value.1 value.2).2 := by
      refine (spares_assign hc value.1 value.2).mono ?_
      rintro k - rfl
      exact ⟨value, List.mem_cons_self, rfl⟩
    unfold assignAll
    split
    · next t' heq =>
      rw [heq] at hcoherent hfirst
      refine hfirst.trans ((ih hcoherent).mono ?_)
      rintro k - ⟨p, hp, rfl⟩
      exact ⟨p, List.mem_cons_of_mem value hp, rfl⟩
    · exact hfirst

end Tree

namespace Intake

/-- What came in since a tree has handles of its own. -/
structure Grown (t : Tree) (i : Intake) : Prop where
  spares : t.Spares (fun _ => False) i.tree
  fresh : ∀ h ∈ i.contents.handles, ¬ t.Issued h
  issued : ∀ h ∈ i.contents.handles, i.tree.Issued h
  nodup : i.contents.handles.Nodup

theorem Grown.receive {t : Tree} {i : Intake} (h : i.Grown t) (e : Entity)
    (value? : Option String) : (i.receive e value?).Grown t := by
  have hp := i.contents.handles_add (i.tree.handleFor e)
  have hnew := i.tree.not_issued_handleFor e
  refine ⟨h.spares.trans (Tree.spares_add e), fun k hk => ?_, fun k hk => ?_, ?_⟩
  · rcases List.mem_cons.mp (hp.mem_iff.mp hk) with rfl | hk
    · exact fun hi => hnew (h.spares.issued _ hi)
    · exact h.fresh k hk
  · apply (i.tree.issued_add e k).mpr
    rcases List.mem_cons.mp (hp.mem_iff.mp hk) with rfl | hk
    · exact .inr rfl
    · exact .inl (h.issued k hk)
  · apply hp.nodup_iff.mpr
    exact List.nodup_cons.mpr ⟨fun hm => hnew (h.issued _ hm), h.nodup⟩

theorem Grown.start (t : Tree) : (Intake.mk t .empty []).Grown t := by
  refine ⟨.refl _ t, ?_, ?_, List.nodup_nil⟩
  · rintro h ⟨⟩
  · rintro h ⟨⟩

theorem Grown.takeAll {t : Tree} {i : Intake} (h : i.Grown t) (environment : Environment)
    (base : Path) (known : OrderedMap String) (schema : Schema) :
    (i.takeAll environment base known schema).2.Grown t :=
  takeAll_invariant environment base known (P := fun i => i.Grown t)
    (fun _ _ e value? hi _ => hi.receive e value?) h schema

theorem unread_of_arriving {environment : Environment} {base : Path}
    {known : OrderedMap String} {s : Variables Handle} {entry : String × Entry} {node : Node}
    {value? : Option String}
    (h : arriving environment base known s entry = .ok (.node node, value?)) :
    node.parsed? = none := by
  obtain ⟨name, entry⟩ := entry
  cases entry with
  | item typeName spec =>
    simp only [arriving] at h
    split at h
    · cases h
    · split at h
      · cases h
      · cases h
  | child spec =>
    cases h
    rfl
  | recipe spec => cases h
  | repo spec => cases h

end Intake

namespace Tree

/-! ## Parents and children -/

/-- Children have later handles than their parents. -/
def Rising (t : Tree) : Prop :=
  ∀ id node, t.node? id = some node → ∀ child ∈ node.contents.children, id.index < child.index

theorem rising_plant (rootPath : String) (origin : Path) : (plant rootPath origin).Rising := by
  intro id node hn child hc
  have he := entity?_eq_node.mpr hn
  rw [show plant rootPath origin = add _ (.node _) from rfl, entity?_add] at he
  split at he
  · cases he
    cases hc
  · cases he

namespace Rising

variable {t t' : Tree} {P : Handle → Prop}

theorem of_spares (hr : t.Rising) (hs : t.Spares P t') (hi : ∀ h, t'.Issued h → t.Issued h)
    (hp : ∀ id, ¬ P (.node id)) : t'.Rising := by
  intro id node' hn'
  have he := entity?_eq_node.mpr hn'
  have hb := hs.bare _ (hi _ (issued_of_entity? he)) (hp id)
  rw [he, entity?_node] at hb
  obtain ⟨e, hte, hb⟩ := Option.map_eq_some_iff.mp hb.symm
  obtain ⟨node, hn, rfl⟩ := Option.map_eq_some_iff.mp hte
  have hcontents : node.contents = node'.contents := by
    unfold Node.contents
    rw [Node.parsed?_of_bare (Entity.node.inj hb)]
  rw [← hcontents]
  exact hr id node hn

theorem publish (hr : t.Rising) (hc : t.Coherent) (name value : String) :
    (t.publish name value).Rising :=
  hr.of_spares (spares_publish hc name value) (fun h => (t.issued_publish name value h).mp)
    fun _ => id

theorem assign (hr : t.Rising) (hc : t.Coherent) (id : ItemId) (raw : String) :
    (t.assign id raw).2.Rising := by
  refine hr.of_spares (spares_assign hc id raw) (fun h => ?_) (fun _ => by simp)
  cases hi : t.item? id with
  | none =>
    simp only [Tree.assign, hi]
    exact fun hi => hi
  | some item =>
    rw [assign_of_item hi]
    split <;> simp

theorem assignAll (hr : t.Rising) (hc : t.Coherent) (values : List (ItemId × String)) :
    (t.assignAll values).2.Rising := by
  have hboth := assignAll_invariant (P := fun t => t.Coherent ∧ t.Rising)
    (fun _ id raw h => ⟨h.1.assign id raw, h.2.assign h.1 id raw⟩) ⟨hc, hr⟩ values
  exact hboth.2

theorem add (hr : t.Rising) {e : Entity} (hu : ∀ node, e = .node node → node.parsed? = none) :
    (t.add e).Rising := by
  intro id node hn child hc
  have he := entity?_eq_node.mpr hn
  rw [entity?_add] at he
  split at he
  · cases he
    simp [Node.contents, hu node rfl, Contents.empty] at hc
  · exact hr id node (entity?_eq_node.mp he) child hc

theorem foldl_drop (hr : t.Rising) (hs : List Handle) : (hs.foldl drop t).Rising := by
  intro id node hn
  have he := entity?_eq_node.mpr hn
  rw [entity?_foldl_drop] at he
  split at he
  · cases he
  · exact hr id node (entity?_eq_node.mp he)

theorem setParsed (hr : t.Rising) {id : NodeId} {parsed? : Option Parsed}
    (hp : ∀ parsed, parsed? = some parsed →
      ∀ child ∈ parsed.contents.children, id.index < child.index) :
    (t.setParsed id parsed?).Rising := by
  intro k node hn child hc
  have he := entity?_eq_node.mpr hn
  rw [entity?_setParsed] at he
  split at he
  · next hk =>
    cases hk
    rw [entity?_node, Option.map_map] at he
    obtain ⟨node', -, hnode⟩ := Option.map_eq_some_iff.mp he
    cases hnode
    cases parsed? with
    | none => cases hc
    | some parsed => exact hp parsed rfl child hc
  · exact hr k node (entity?_eq_node.mp he) child hc

theorem unread (hr : t.Rising) (id : NodeId) : (t.unread id).Rising := by
  unfold Tree.unread
  split
  · exact hr
  · exact (hr.setParsed (by rintro _ ⟨⟩)).foldl_drop _

end Rising

theorem Rising.takeAll {i : Intake} (hr : i.tree.Rising) (environment : Environment) (base : Path)
    (known : OrderedMap String) (schema : Schema) :
    (i.takeAll environment base known schema).2.tree.Rising :=
  Intake.takeAll_invariant environment base known (P := fun i => i.tree.Rising)
    (fun _ _ _ _ hi ha => hi.add fun _ hn => Intake.unread_of_arriving (hn ▸ ha)) hr schema

theorem issued_unread (t : Tree) (id : NodeId) (h : Handle) :
    (t.unread id).Issued h ↔ t.Issued h := by
  unfold unread release
  split
  · rfl
  · rw [issued_foldl_drop, issued_setParsed]

theorem Rising.populate {t : Tree} (hr : t.Rising) (hc : t.Coherent) (environment : Environment)
    {id : NodeId} {node : Node} (hn : t.node? id = some node) (file : Path) (schema : Schema) :
    (t.populate environment id node file schema).2.Rising := by
  have hid := issued_of_node hn
  let start : Intake := { tree := t.unread id, contents := .empty, imported := [] }
  have hstart : start.tree.Coherent := hc.unread id
  have hcoherent := hstart.takeAll environment (file.parent?.getD ⟨""⟩) (hc.known_unread hn) schema
  have hgrown := (Intake.Grown.start (t.unread id)).takeAll environment (file.parent?.getD ⟨""⟩)
    node.known schema
  have hrising := Rising.takeAll (i := start) (hr.unread id) environment (file.parent?.getD ⟨""⟩)
    node.known schema
  unfold Tree.populate
  dsimp only
  split
  · next heq =>
    rw [heq] at hrising
    exact hrising.foldl_drop _
  · next i heq =>
    rw [heq] at hgrown hrising hcoherent
    refine (hrising.setParsed ?_).assignAll (hcoherent.setParsed id _) _
    rintro _ ⟨rfl⟩ child hchild
    have hfresh := hgrown.fresh (.node child) (by simp [Contents.handles, hchild])
    rw [issued_unread] at hfresh
    exact Nat.lt_of_lt_of_le hid (Nat.le_of_not_lt hfresh)

theorem Rising.parse {t : Tree} (hr : t.Rising) (hc : t.Coherent) (around : Surroundings)
    (id : NodeId) : (t.parse around id).2.Rising := by
  unfold Tree.parse
  split
  · exact hr
  · next node hn =>
    dsimp only
    split
    · exact hr
    · exact hr.populate hc around.environment hn _ _

theorem Reachable.rising {t : Tree} (h : t.Reachable) : t.Rising := by
  have hboth : t.Coherent ∧ t.Rising := h.invariant
    (P := fun t => t.Coherent ∧ t.Rising)
    (fun rootPath origin => ⟨coherent_plant rootPath origin, rising_plant rootPath origin⟩)
    (fun _ name value h => ⟨h.1.publish name value, h.2.publish h.1 name value⟩)
    (fun _ id raw h => ⟨h.1.assign id raw, h.2.assign h.1 id raw⟩)
    fun around _ id h => ⟨h.1.parse around id, h.2.parse h.1 around id⟩
  exact hboth.2

end Tree

end MakeConfig
