import MakeConfig.Proofs.Tree.Frame
import Mathlib.Logic.Relation

/-! # Ownership

Everything in a tree hangs on one node, from the root down, and contents name nothing that is gone.
Only what is being taken in or taken away hangs nowhere for a time.
-/

namespace MakeConfig

namespace Entity

/-- What hangs on an entity. -/
def parts : Entity → List Handle
  | node n => n.contents.handles
  | _ => []

@[simp] theorem parts_bare (e : Entity) : e.bare.parts = e.parts := by
  cases e <;> rfl

@[simp] theorem parts_notice {κ : Type} (name value : String) (s : Variables κ) (e : Entity) :
    (e.notice name value s).parts = e.parts := by
  rw [← parts_bare, bare_notice, parts_bare]

end Entity

def Contents.ofParsed (parsed? : Option Parsed) : Contents :=
  (parsed?.map Parsed.contents).getD .empty

namespace Tree

def parts? (t : Tree) (h : Handle) : Option (List Handle) := (t.entity? h).map Entity.parts

def Live (t : Tree) (h : Handle) : Prop := ∃ e, t.entity? h = some e

def Holds (t : Tree) (h k : Handle) : Prop := ∃ hs, t.parts? h = some hs ∧ k ∈ hs

theorem live_iff {t : Tree} {h : Handle} : t.Live h ↔ (t.parts? h).isSome = true := by
  simp [Live, parts?, Option.isSome_iff_exists]

theorem holds_iff_node {t : Tree} {h k : Handle} :
    t.Holds h k ↔ ∃ id node, h = .node id ∧ t.node? id = some node ∧ k ∈ node.contents.handles := by
  constructor
  · rintro ⟨hs, hp, hk⟩
    obtain ⟨e, he, rfl⟩ := Option.map_eq_some_iff.mp hp
    cases e with
    | node node =>
      cases h with
      | node id => exact ⟨id, node, rfl, entity?_eq_node.mp he, hk⟩
      | item id => simp at he
      | recipe id => simp at he
      | repo id => simp at he
    | item item => cases hk
    | recipe recipe => cases hk
    | repo repo => cases hk
  · rintro ⟨id, node, rfl, hn, hk⟩
    exact ⟨node.contents.handles, by simp [parts?, hn, Entity.parts], hk⟩

theorem holds_node_iff {t : Tree} {id : NodeId} {node : Node} (hn : t.node? id = some node)
    {k : Handle} : t.Holds (.node id) k ↔ k ∈ node.contents.handles := by
  simp [Holds, parts?, hn, Entity.parts]

theorem live_of_holds {t : Tree} {h k : Handle} (hk : t.Holds h k) : t.Live h := by
  obtain ⟨hs, hp, -⟩ := hk
  exact live_iff.mpr (by rw [hp]; rfl)

/-! ## What operations do to contents -/

theorem parts?_publish {t : Tree} (hc : t.Coherent) (name value : String) (h : Handle) :
    (t.publish name value).parts? h = t.parts? h := by
  unfold parts?
  rw [t.entity?_publish name value (hc.nodup name)]
  split
  · simp [Function.comp_def]
  · rfl

theorem parts?_setItem (t : Tree) (id : ItemId) (item : Item) (h : Handle) :
    (t.setItem id item).parts? h = t.parts? h := by
  unfold parts?
  rw [entity?_setItem]
  split
  · next hh =>
    subst hh
    cases hi : t.item? id <;> simp [hi, Entity.parts]
  · rfl

theorem parts?_assign {t : Tree} (hc : t.Coherent) (id : ItemId) (raw : String) (h : Handle) :
    (t.assign id raw).2.parts? h = t.parts? h := by
  cases hi : t.item? id with
  | none => simp only [assign, hi]
  | some item =>
    rw [assign_of_item hi]
    split
    · rfl
    · rw [parts?_publish (hc.setUser hi _), parts?_setItem]

theorem parts?_assignAll {t : Tree} (hc : t.Coherent) (values : List (ItemId × String))
    (h : Handle) : (t.assignAll values).2.parts? h = t.parts? h := by
  have hboth := assignAll_invariant (P := fun t' => t'.Coherent ∧ t'.parts? h = t.parts? h)
    (fun _ id raw hi => ⟨hi.1.assign id raw, (parts?_assign hi.1 id raw h).trans hi.2⟩)
    ⟨hc, rfl⟩ values
  exact hboth.2

theorem parts?_of_spares {P : Handle → Prop} {t t' : Tree} (hs : t.Spares P t') {h : Handle}
    (hi : t.Issued h) (hp : ¬ P h) : t'.parts? h = t.parts? h := by
  have hb := congrArg (Option.map Entity.parts) (hs.bare h hi hp)
  simpa [parts?, Function.comp_def] using hb

theorem parts?_add (t : Tree) (e : Entity) (h : Handle) :
    (t.add e).parts? h = if h = t.handleFor e then some e.parts else t.parts? h := by
  unfold parts?
  rw [entity?_add]
  split <;> rfl

theorem parts?_foldl_drop (t : Tree) (gone : List Handle) (h : Handle) :
    (gone.foldl drop t).parts? h = if h ∈ gone then none else t.parts? h := by
  unfold parts?
  rw [entity?_foldl_drop]
  split <;> rfl

theorem parts?_setParsed (t : Tree) (id : NodeId) (parsed? : Option Parsed) (h : Handle) :
    (t.setParsed id parsed?).parts? h =
      if h = .node id then (t.parts? h).map fun _ => (Contents.ofParsed parsed?).handles
      else t.parts? h := by
  unfold parts?
  rw [entity?_setParsed]
  split
  · next hh =>
    subst hh
    cases hn : t.node? id <;> simp [hn, Entity.read, Entity.parts, Node.contents, Contents.ofParsed]
  · rfl

section Changes

variable {t t' : Tree} {h k : Handle}

theorem holds_congr (hp : ∀ h, t'.parts? h = t.parts? h) : t'.Holds h k ↔ t.Holds h k := by
  simp only [Holds, hp]

theorem live_congr (hp : ∀ h, t'.parts? h = t.parts? h) : t'.Live h ↔ t.Live h := by
  simp only [live_iff, hp]

theorem holds_foldl_drop {gone : List Handle} :
    (gone.foldl drop t).Holds h k ↔ h ∉ gone ∧ t.Holds h k := by
  simp only [Holds, parts?_foldl_drop]
  split <;> simp_all

theorem live_foldl_drop {gone : List Handle} :
    (gone.foldl drop t).Live h ↔ h ∉ gone ∧ t.Live h := by
  simp only [live_iff, parts?_foldl_drop]
  split <;> simp_all

theorem holds_setParsed {id : NodeId} {parsed? : Option Parsed} :
    (t.setParsed id parsed?).Holds h k ↔
      (h = .node id ∧ t.Live h ∧ k ∈ (Contents.ofParsed parsed?).handles) ∨
        (h ≠ .node id ∧ t.Holds h k) := by
  simp only [Holds, live_iff, parts?_setParsed]
  split
  · next hh =>
    cases t.parts? h <;> simp [hh]
  · next hh => simp [hh]

theorem holds_setParsed_none {id : NodeId} :
    (t.setParsed id none).Holds h k ↔ h ≠ .node id ∧ t.Holds h k := by
  rw [holds_setParsed]
  simp [Contents.ofParsed, Contents.handles, Contents.empty]

theorem live_setParsed {id : NodeId} {parsed? : Option Parsed} :
    (t.setParsed id parsed?).Live h ↔ t.Live h := by
  simp only [live_iff, parts?_setParsed]
  split <;> simp

theorem holds_add {e : Entity} (he : e.parts = []) : (t.add e).Holds h k ↔ t.Holds h k := by
  have hnew : t.parts? (t.handleFor e) = none := by
    rw [parts?, entity?_of_not_issued (t.not_issued_handleFor e)]
    rfl
  simp only [Holds, parts?_add]
  split
  · next hh => simp [he, hh, hnew]
  · rfl

theorem live_add {e : Entity} : (t.add e).Live h ↔ t.Live h ∨ h = t.handleFor e := by
  simp only [live_iff, parts?_add]
  split
  · next hh => simp [hh]
  · next hh => simp [hh]

end Changes

/-! ## From a handle down -/

/-- A handle hangs below another one, at some depth. -/
def Below (t : Tree) : Handle → Handle → Prop := Relation.TransGen t.Holds

/-- A handle is another one or hangs below it. -/
def From (t : Tree) : Handle → Handle → Prop := Relation.ReflTransGen t.Holds

namespace Rising

variable {t : Tree} (hr : t.Rising)

include hr

theorem index_lt {h : Handle} {id : NodeId} (hk : t.Holds h (.node id)) :
    ∃ parent, h = .node parent ∧ parent.index < id.index := by
  obtain ⟨parent, node, rfl, hn, hm⟩ := holds_iff_node.mp hk
  exact ⟨parent, rfl, hr parent node hn id (by simpa [Contents.handles] using hm)⟩

theorem not_holds_root (h : Handle) : ¬ t.Holds h (.node root) := by
  intro hk
  obtain ⟨parent, -, hlt⟩ := hr.index_lt hk
  exact Nat.not_lt_zero _ hlt

theorem index_lt_of_below {a b : NodeId} (hb : t.Below (.node a) (.node b)) :
    a.index < b.index := by
  generalize hx : Handle.node b = x at hb
  induction hb generalizing b with
  | single hk =>
    subst hx
    obtain ⟨parent, hp, hlt⟩ := hr.index_lt hk
    cases hp
    exact hlt
  | tail _ hk ih =>
    subst hx
    obtain ⟨parent, hp, hlt⟩ := hr.index_lt hk
    exact Nat.lt_trans (ih hp.symm) hlt

/-- A release finds all that hangs on contents: the number of nodes is depth enough for it. -/
theorem mem_handlesOf_iff {c : Contents} {h : Handle} :
    h ∈ t.handlesOf (t.arena.nodes.next + 1) c ↔ ∃ k ∈ c.handles, t.From k h := by
  suffices hall : ∀ depth c, 0 < depth →
      (∀ id ∈ c.children, t.arena.nodes.next < depth + id.index) →
      (h ∈ t.handlesOf depth c ↔ ∃ k ∈ c.handles, t.From k h) by
    exact hall _ c (Nat.succ_pos _) fun id _ => by omega
  intro depth
  induction depth with
  | zero => intro c hd; exact absurd hd (Nat.lt_irrefl 0)
  | succ depth ih =>
    intro c _ hc
    have hnode : ∀ id ∈ c.children, ∀ node, t.node? id = some node →
        (h ∈ t.handlesOf depth node.contents ↔ ∃ k ∈ node.contents.handles, t.From k h) := by
      intro id hid node hn
      have hlt : id.index < t.arena.nodes.next := issued_of_node hn
      have hd := hc id hid
      refine ih node.contents (by omega) fun child hchild => ?_
      have := hr id node hn child hchild
      omega
    simp only [handlesOf, List.mem_append, List.mem_flatMap, List.mem_cons]
    constructor
    · rintro (((hm | hm) | hm) | ⟨id, hid, rfl | hm⟩)
      · exact ⟨h, by simp [Contents.handles, List.mem_map.mp hm], .refl⟩
      · exact ⟨h, by simp [Contents.handles, List.mem_map.mp hm], .refl⟩
      · exact ⟨h, by simp [Contents.handles, List.mem_map.mp hm], .refl⟩
      · exact ⟨_, by simp [Contents.handles, hid], .refl⟩
      · cases hn : t.node? id with
        | none => simp [hn] at hm
        | some node =>
          rw [hn] at hm
          obtain ⟨k, hk, hfrom⟩ := (hnode id hid node hn).mp hm
          have hholds : t.Holds (.node id) k := holds_iff_node.mpr ⟨id, node, rfl, hn, hk⟩
          exact ⟨.node id, by simp [Contents.handles, hid], .head hholds hfrom⟩
    · rintro ⟨k, hk, hfrom⟩
      simp only [Contents.handles, List.mem_append] at hk
      rcases Relation.ReflTransGen.cases_head hfrom with rfl | ⟨j, hj, hrest⟩
      · rcases hk with ((hk | hk) | hk) | hk
        · exact .inl (.inl (.inl hk))
        · obtain ⟨id, hid, rfl⟩ := List.mem_map.mp hk
          exact .inr ⟨id, hid, .inl rfl⟩
        · exact .inl (.inl (.inr hk))
        · exact .inl (.inr hk)
      · obtain ⟨id, node, rfl, hn, hm⟩ := holds_iff_node.mp hj
        have hid : id ∈ c.children := by simpa using hk
        refine .inr ⟨id, hid, .inr ?_⟩
        rw [hn]
        exact (hnode id hid node hn).mpr ⟨j, hm, hrest⟩

theorem from_node_iff {id : NodeId} {node : Node} (hn : t.node? id = some node) {h : Handle} :
    t.From (.node id) h ↔
      h = .node id ∨ h ∈ t.handlesOf (t.arena.nodes.next + 1) node.contents := by
  rw [hr.mem_handlesOf_iff]
  constructor
  · intro hfrom
    rcases Relation.ReflTransGen.cases_head hfrom with rfl | ⟨k, hk, hrest⟩
    · exact .inl rfl
    · exact .inr ⟨k, (holds_node_iff hn).mp hk, hrest⟩
  · rintro (rfl | ⟨k, hk, hrest⟩)
    · exact .refl
    · exact .head ((holds_node_iff hn).mpr hk) hrest

theorem not_below_self (id : NodeId) : ¬ t.Below (.node id) (.node id) := fun hb =>
  Nat.lt_irrefl _ (hr.index_lt_of_below hb)

/-- Forgetting what was read at a node drops all that hangs below it. -/
theorem unread_eq {id : NodeId} {node : Node} (hn : t.node? id = some node) :
    ∃ gone : List Handle, (∀ h, h ∈ gone ↔ t.Below (.node id) h) ∧
      t.unread id = gone.foldl drop (t.setParsed id none) := by
  have hset : (t.setParsed id none).Rising := hr.setParsed (by rintro _ ⟨⟩)
  have heq : t.unread id = (t.setParsed id none).release node.contents := by
    simp only [Tree.unread, hn]
  refine ⟨_, fun h => hset.mem_handlesOf_iff.trans ⟨?_, ?_⟩, heq⟩
  · rintro ⟨k, hk, hfrom⟩
    refine .head' ((holds_node_iff hn).mpr hk) (hfrom.lift (fun h => h) fun _ _ hh => ?_)
    exact (holds_setParsed_none.mp hh).2
  · intro hb
    induction hb with
    | single hk => exact ⟨_, (holds_node_iff hn).mp hk, .refl⟩
    | @tail j h hj hk ih =>
      obtain ⟨k, hk', hfrom⟩ := ih
      refine ⟨k, hk', hfrom.tail (holds_setParsed_none.mpr ⟨?_, hk⟩)⟩
      rintro rfl
      exact hr.not_below_self id hj

theorem node?_unread {id : NodeId} {node : Node} (hn : t.node? id = some node) :
    (t.unread id).node? id = some { node with parsed? := none } := by
  obtain ⟨gone, hgone, heq⟩ := hr.unread_eq hn
  have hnot : .node id ∉ gone := mt (hgone _).mp (hr.not_below_self id)
  rw [heq, ← entity?_eq_node, entity?_foldl_drop, if_neg hnot, entity?_node, node?_setParsed hn]
  rfl

theorem parts?_unread {id : NodeId} {node : Node} (hn : t.node? id = some node) :
    (t.unread id).parts? (.node id) = some [] := by
  rw [parts?, entity?_node, hr.node?_unread hn]
  rfl

end Rising

/-! ## The invariant -/

/-- What is there hangs on one node, or it is the root or loose. -/
structure Owned (loose : Handle → Prop) (t : Tree) : Prop where
  root : t.Live (.node root)
  nodup : ∀ h hs, t.parts? h = some hs → hs.Nodup
  live : ∀ h k, t.Holds h k → t.Live k
  unique : ∀ h h' k, t.Holds h k → t.Holds h' k → h = h'
  held : ∀ k, t.Live k → k = .node Tree.root ∨ loose k ∨ ∃ h, t.Holds h k
  loose : ∀ k, loose k → t.Live k ∧ k ≠ .node Tree.root ∧ ∀ h, ¬ t.Holds h k

namespace Owned

variable {L L' : Handle → Prop} {t t' : Tree}

theorem congr (ho : t.Owned L) (hp : ∀ h, t'.parts? h = t.parts? h) : t'.Owned L := by
  constructor
  · exact (live_congr hp).mpr ho.root
  · intro h hs
    rw [hp]
    exact ho.nodup h hs
  · intro h k
    rw [holds_congr hp, live_congr hp]
    exact ho.live h k
  · intro h h' k
    rw [holds_congr hp, holds_congr hp]
    exact ho.unique h h' k
  · intro k
    simp only [live_congr hp, holds_congr hp]
    exact ho.held k
  · intro k
    simp only [live_congr hp, holds_congr hp]
    exact ho.loose k

theorem congr_loose (ho : t.Owned L) (hL : ∀ k, L k ↔ L' k) : t.Owned L' := by
  obtain rfl : L = L' := funext fun k => propext (hL k)
  exact ho

theorem add (ho : t.Owned L) {e : Entity} (he : e.parts = [])
    (hL : ∀ k, L' k ↔ L k ∨ k = t.handleFor e) : (t.add e).Owned L' := by
  have hnew : ¬ t.Live (t.handleFor e) := by
    rintro ⟨e', he'⟩
    exact t.not_issued_handleFor e (issued_of_entity? he')
  constructor
  · exact live_add.mpr (.inl ho.root)
  · intro h hs hp
    rw [parts?_add] at hp
    split at hp
    · cases hp
      rw [he]
      exact List.nodup_nil
    · exact ho.nodup h hs hp
  · intro h k hk
    exact live_add.mpr (.inl (ho.live h k ((holds_add he).mp hk)))
  · intro h h' k hk hk'
    exact ho.unique h h' k ((holds_add he).mp hk) ((holds_add he).mp hk')
  · intro k hk
    simp only [holds_add he, hL]
    rcases live_add.mp hk with hk | hk
    · rcases ho.held k hk with hr | hl | hh
      · exact .inl hr
      · exact .inr (.inl (.inl hl))
      · exact .inr (.inr hh)
    · exact .inr (.inl (.inr hk))
  · intro k hk
    simp only [live_add, holds_add he]
    rcases (hL k).mp hk with hl | rfl
    · obtain ⟨hlive, hroot, hfree⟩ := ho.loose k hl
      exact ⟨.inl hlive, hroot, hfree⟩
    · refine ⟨.inr rfl, ?_, fun h hk => hnew (ho.live h _ hk)⟩
      intro hroot
      exact hnew (hroot ▸ ho.root)

theorem foldl_drop (ho : t.Owned L) {gone : List Handle} (hroot : .node Tree.root ∉ gone)
    (hdown : ∀ h k, t.Holds h k → h ∈ gone → k ∈ gone)
    (hup : ∀ h k, t.Holds h k → k ∈ gone → h ∈ gone)
    (hL : ∀ k, L' k ↔ L k ∧ k ∉ gone) : (gone.foldl drop t).Owned L' := by
  constructor
  · exact live_foldl_drop.mpr ⟨hroot, ho.root⟩
  · intro h hs hp
    rw [parts?_foldl_drop] at hp
    split at hp
    · cases hp
    · exact ho.nodup h hs hp
  · intro h k hk
    obtain ⟨hh, hk⟩ := holds_foldl_drop.mp hk
    exact live_foldl_drop.mpr ⟨mt (hup h k hk) hh, ho.live h k hk⟩
  · intro h h' k hk hk'
    exact ho.unique h h' k (holds_foldl_drop.mp hk).2 (holds_foldl_drop.mp hk').2
  · intro k hk
    obtain ⟨hgone, hk⟩ := live_foldl_drop.mp hk
    rcases ho.held k hk with hr | hl | ⟨h, hh⟩
    · exact .inl hr
    · exact .inr (.inl ((hL k).mpr ⟨hl, hgone⟩))
    · exact .inr (.inr ⟨h, holds_foldl_drop.mpr ⟨mt (hdown h k hh) hgone, hh⟩⟩)
  · intro k hk
    obtain ⟨hl, hgone⟩ := (hL k).mp hk
    obtain ⟨hlive, hr, hfree⟩ := ho.loose k hl
    refine ⟨live_foldl_drop.mpr ⟨hgone, hlive⟩, hr, fun h hh => ?_⟩
    exact hfree h (holds_foldl_drop.mp hh).2

theorem release (hr : t.Rising) {c : Contents} (ho : t.Owned (· ∈ c.handles)) :
    (t.release c).Owned fun _ => False := by
  have hgone := fun h => hr.mem_handlesOf_iff (c := c) (h := h)
  refine ho.foldl_drop ?_ ?_ ?_ ?_
  · rw [hgone]
    rintro ⟨k, hk, hfrom⟩
    rcases Relation.ReflTransGen.cases_tail hfrom with he | ⟨h, -, hh⟩
    · exact (ho.loose k hk).2.1 he.symm
    · exact hr.not_holds_root h hh
  · intro h k hk
    rw [hgone, hgone]
    rintro ⟨j, hj, hfrom⟩
    exact ⟨j, hj, hfrom.tail hk⟩
  · intro h k hk
    rw [hgone, hgone]
    rintro ⟨j, hj, hfrom⟩
    rcases Relation.ReflTransGen.cases_tail hfrom with he | ⟨h', hfrom, hh'⟩
    · exact absurd hk ((ho.loose k (he ▸ hj)).2.2 h)
    · exact ⟨j, hj, ho.unique h' h k hh' hk ▸ hfrom⟩
  · intro k
    rw [hgone]
    constructor
    · exact False.elim
    · rintro ⟨hk, hn⟩
      exact hn ⟨k, hk, .refl⟩

theorem unread (ho : t.Owned fun _ => False) (hr : t.Rising) (id : NodeId) :
    (t.unread id).Owned fun _ => False := by
  unfold Tree.unread
  split
  · exact ho
  · next node hn =>
    have hset : (t.setParsed id none).Rising := hr.setParsed (by rintro _ ⟨⟩)
    refine release hset ?_
    constructor
    · exact live_setParsed.mpr ho.root
    · intro h hs hp
      rw [parts?_setParsed] at hp
      split at hp
      · obtain ⟨_, -, rfl⟩ := Option.map_eq_some_iff.mp hp
        exact List.nodup_nil
      · exact ho.nodup h hs hp
    · intro h k hk
      exact live_setParsed.mpr (ho.live h k (holds_setParsed_none.mp hk).2)
    · intro h h' k hk hk'
      exact ho.unique h h' k (holds_setParsed_none.mp hk).2 (holds_setParsed_none.mp hk').2
    · intro k hk
      rcases ho.held k (live_setParsed.mp hk) with hroot | hl | ⟨h, hh⟩
      · exact .inl hroot
      · exact hl.elim
      · by_cases he : h = .node id
        · exact .inr (.inl ((holds_node_iff hn).mp (he ▸ hh)))
        · exact .inr (.inr ⟨h, holds_setParsed_none.mpr ⟨he, hh⟩⟩)
    · intro k hk
      have hheld := (holds_node_iff hn).mpr hk
      refine ⟨live_setParsed.mpr (ho.live _ k hheld), ?_, fun h hh => ?_⟩
      · rintro rfl
        exact hr.not_holds_root _ hheld
      · obtain ⟨hne, hh⟩ := holds_setParsed_none.mp hh
        exact hne (ho.unique h _ k hh hheld)

theorem setParsed {c : Contents} (ho : t.Owned (· ∈ c.handles)) (hn : c.handles.Nodup)
    {id : NodeId} (hid : t.parts? (.node id) = some []) (file : Path) :
    (t.setParsed id (some ⟨file, c⟩)).Owned fun _ => False := by
  have hlive : t.Live (.node id) := live_iff.mpr (by rw [hid]; rfl)
  have hnone : ∀ k, ¬ t.Holds (.node id) k := by
    rintro k ⟨hs, hp, hk⟩
    cases hid.symm.trans hp
    cases hk
  have hholds : ∀ h k, (t.setParsed id (some ⟨file, c⟩)).Holds h k ↔
      (h = .node id ∧ k ∈ c.handles) ∨ t.Holds h k := by
    intro h k
    rw [holds_setParsed]
    constructor
    · rintro (⟨he, -, hk⟩ | ⟨-, hk⟩)
      · exact .inl ⟨he, hk⟩
      · exact .inr hk
    · rintro (⟨rfl, hk⟩ | hk)
      · exact .inl ⟨rfl, hlive, hk⟩
      · exact .inr ⟨fun he => hnone k (he ▸ hk), hk⟩
  constructor
  · exact live_setParsed.mpr ho.root
  · intro h hs hp
    rw [parts?_setParsed] at hp
    split at hp
    · obtain ⟨_, -, rfl⟩ := Option.map_eq_some_iff.mp hp
      exact hn
    · exact ho.nodup h hs hp
  · intro h k hk
    apply live_setParsed.mpr
    rcases (hholds h k).mp hk with ⟨-, hk⟩ | hk
    · exact (ho.loose k hk).1
    · exact ho.live h k hk
  · intro h h' k hk hk'
    rcases (hholds h k).mp hk with ⟨rfl, hm⟩ | hh <;>
      rcases (hholds h' k).mp hk' with ⟨rfl, hm'⟩ | hh'
    · rfl
    · exact absurd hh' ((ho.loose k hm).2.2 h')
    · exact absurd hh ((ho.loose k hm').2.2 h)
    · exact ho.unique h h' k hh hh'
  · intro k hk
    rcases ho.held k (live_setParsed.mp hk) with hroot | hl | ⟨h, hh⟩
    · exact .inl hroot
    · exact .inr (.inr ⟨_, (hholds _ k).mpr (.inl ⟨rfl, hl⟩)⟩)
    · exact .inr (.inr ⟨h, (hholds h k).mpr (.inr hh)⟩)
  · exact fun _ => False.elim

theorem plant (rootPath : String) (origin : Path) :
    (Tree.plant rootPath origin).Owned fun _ => False := by
  have hentity : ∀ h e, (Tree.plant rootPath origin).entity? h = some e →
      h = .node Tree.root ∧ e.parts = [] := by
    intro h e he
    rw [show Tree.plant rootPath origin = Tree.add _ (.node _) from rfl, entity?_add] at he
    split at he
    · next hh =>
      cases he
      exact ⟨hh, rfl⟩
    · cases h <;> cases he
  have hparts : ∀ h hs, (Tree.plant rootPath origin).parts? h = some hs → hs = [] := by
    intro h hs hp
    obtain ⟨e, he, rfl⟩ := Option.map_eq_some_iff.mp hp
    exact (hentity h e he).2
  have hnone : ∀ h k, ¬ (Tree.plant rootPath origin).Holds h k := by
    rintro h k ⟨hs, hp, hk⟩
    rw [hparts h hs hp] at hk
    cases hk
  constructor
  · exact ⟨_, rfl⟩
  · intro h hs hp
    rw [hparts h hs hp]
    exact List.nodup_nil
  · exact fun h k hk => absurd hk (hnone h k)
  · exact fun h h' k hk => absurd hk (hnone h k)
  · rintro k ⟨e, he⟩
    exact .inl (hentity k e he).1
  · exact fun _ => False.elim

end Owned

end Tree

/-! ## Reading -/

namespace Intake

theorem parts_of_arriving {environment : Environment} {base : Path} {known : OrderedMap String}
    {s : Variables Handle} {entry : String × Entry} {e : Entity} {value? : Option String}
    (h : arriving environment base known s entry = .ok (e, value?)) : e.parts = [] := by
  cases e with
  | node node =>
    simp only [Entity.parts, Node.contents, unread_of_arriving h]
    rfl
  | item item => rfl
  | recipe recipe => rfl
  | repo repo => rfl

theorem mem_handles_receive {i : Intake} {e : Entity} {value? : Option String} {h : Handle} :
    h ∈ (i.receive e value?).contents.handles ↔
      h ∈ i.contents.handles ∨ h = i.tree.handleFor e := by
  rw [show (i.receive e value?).contents = i.contents.add (i.tree.handleFor e) from rfl,
    (i.contents.handles_add _).mem_iff, List.mem_cons, or_comm]

end Intake

namespace Tree.Owned

variable {t : Tree}

theorem takeAll {i : Intake} (ho : i.tree.Owned (· ∈ i.contents.handles))
    (environment : Environment) (base : Path) (known : OrderedMap String) (schema : Schema) :
    (i.takeAll environment base known schema).2.tree.Owned
      (· ∈ (i.takeAll environment base known schema).2.contents.handles) :=
  Intake.takeAll_invariant environment base known
    (P := fun i => i.tree.Owned (· ∈ i.contents.handles))
    (fun _ _ _ _ hi ha =>
      hi.add (Intake.parts_of_arriving ha) fun _ => Intake.mem_handles_receive)
    ho schema

theorem populate (ho : t.Owned fun _ => False) (hr : t.Rising) (hc : t.Coherent)
    (environment : Environment) {id : NodeId} {node : Node} (hn : t.node? id = some node)
    (file : Path) (schema : Schema) :
    (t.populate environment id node file schema).2.Owned fun _ => False := by
  let start : Intake := { tree := t.unread id, contents := .empty, imported := [] }
  let base := file.parent?.getD ⟨""⟩
  have hstart : start.tree.Owned (· ∈ start.contents.handles) := by
    refine (ho.unread hr id).congr_loose fun k => ?_
    simp [start, Contents.handles, Contents.empty]
  have hi := takeAll hstart environment base node.known schema
  have hir := Rising.takeAll (i := start) (hr.unread id) environment base node.known schema
  have hic := (hc.unread id).takeAll (i := start) environment base (hc.known_unread hn) schema
  have hgrown := (Intake.Grown.start (t.unread id)).takeAll environment base node.known schema
  unfold Tree.populate
  dsimp only
  split
  · next i heq =>
    rw [heq] at hi hir
    exact release hir hi
  · next i heq =>
    rw [heq] at hi hic hgrown
    have hempty : i.tree.parts? (.node id) = some [] := by
      have hid := (issued_unread t id _).mpr (issued_of_node hn)
      rw [parts?_of_spares hgrown.spares hid not_false, hr.parts?_unread hn]
    exact (hi.setParsed hgrown.nodup hempty file).congr
      (parts?_assignAll (hic.setParsed id _) _)

theorem parse (ho : t.Owned fun _ => False) (hr : t.Rising) (hc : t.Coherent)
    (around : Surroundings) (id : NodeId) : (t.parse around id).2.Owned fun _ => False := by
  unfold Tree.parse
  split
  · exact ho
  · next node hn =>
    dsimp only
    split
    · exact ho
    · exact ho.populate hr hc around.environment hn _ _

end Tree.Owned

theorem Tree.Reachable.owned {t : Tree} (h : t.Reachable) : t.Owned fun _ => False := by
  have hall : t.Coherent ∧ t.Rising ∧ t.Owned fun _ => False := h.invariant
    (P := fun t => t.Coherent ∧ t.Rising ∧ t.Owned fun _ => False)
    (fun rootPath origin =>
      ⟨coherent_plant rootPath origin, rising_plant rootPath origin, .plant rootPath origin⟩)
    (fun _ name value h => ⟨h.1.publish name value, h.2.1.publish h.1 name value,
      h.2.2.congr (parts?_publish h.1 name value)⟩)
    (fun _ id raw h => ⟨h.1.assign id raw, h.2.1.assign h.1 id raw,
      h.2.2.congr (parts?_assign h.1 id raw)⟩)
    fun around _ id h => ⟨h.1.parse around id, h.2.1.parse h.1 around id,
      h.2.2.parse h.2.1 h.1 around id⟩
  exact hall.2.2

end MakeConfig
