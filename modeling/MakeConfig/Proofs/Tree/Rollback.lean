import MakeConfig.Proofs.Tree.Shape

/-! # Readings that are taken back

A reading that fails at an entry takes back all that was let in before it. What was read at the node
earlier is gone by then, and nothing else has changed.
-/

namespace MakeConfig

theorem Variables.filter_watching_watchAll {κ : Type} [DecidableEq κ] (s : Variables κ) (key : κ)
    (names : List String) (other : String) {p : κ → Bool} (hp : p key = false) :
    ((s.watchAll key names).watching other).filter p = (s.watching other).filter p := by
  unfold watchAll
  induction names generalizing s with
  | nil => rfl
  | cons name names ih =>
    rw [List.foldl_cons, ih, watching_watch]
    split
    · simp [hp]
    · rfl

namespace Intake

variable (environment : Environment) (base : Path) (known : OrderedMap String)

/-- Why an entry is refused: its definition, or a value that the environment has for it. -/
def refusal? : String × Entry → Option Error
  | (name, .item typeName spec) =>
    match Item.ofSpec environment.build name typeName spec with
    | .error e => some e
    | .ok item =>
      match importedValue? environment item with
      | .error r => some (.rejected r)
      | .ok _ => none
  | _ => none

theorem refusal?_eq (s : Variables Handle) (entry : String × Entry) :
    refusal? environment entry =
      match arriving environment base known s entry with
      | .error e => some e
      | .ok _ => none := by
  obtain ⟨name, entry⟩ := entry
  cases entry with
  | item typeName spec =>
    simp only [refusal?, arriving]
    cases Item.ofSpec environment.build name typeName spec with
    | error e => rfl
    | ok item =>
      simp only
      cases importedValue? environment item with
      | error r => rfl
      | ok value? => rfl
  | child spec => rfl
  | recipe spec => rfl
  | repo spec => rfl

/-- Taking in a schema fails as its first entry that is refused, if one is. -/
theorem takeAll_fst (i : Intake) (schema : Schema) :
    (i.takeAll environment base known schema).1 =
      match schema.findSome? (refusal? environment) with
      | some e => .error e
      | none => .ok () := by
  induction schema generalizing i with
  | nil => rfl
  | cons entry schema ih =>
    rw [takeAll, take_eq, List.findSome?_cons, refusal?_eq environment base known i.tree.vars]
    cases arriving environment base known i.tree.vars entry with
    | error e => rfl
    | ok p => exact ih _

/-- What came in since a tree is nothing but additions under handles of their own. -/
structure Added (t : Tree) (i : Intake) : Prop extends i.Grown t where
  values : i.tree.vars.values = t.vars.values
  others : ∀ h, h ∉ i.contents.handles → i.tree.entity? h = t.entity? h
  given : ∀ h, i.tree.Issued h → t.Issued h ∨ h ∈ i.contents.handles
  bare : ∀ h k, h ∈ i.contents.handles → ¬ i.tree.Holds h k
  watching : ∀ name, (i.tree.vars.watching name).filter (· ∉ i.contents.handles) =
    t.vars.watching name
  watchers : ∀ name, ∀ h ∈ i.tree.vars.watching name, i.tree.Issued h

theorem Added.start {t : Tree} (hc : t.Coherent) : (Intake.mk t .empty []).Added t where
  toGrown := .start t
  values := rfl
  others _ _ := rfl
  given _ h := .inl h
  bare := by rintro h k ⟨⟩
  watching name := List.filter_eq_self.mpr (by simp [Contents.handles, Contents.empty])
  watchers name h hh := by
    obtain ⟨e, he, -⟩ := (hc.watching name h).mp hh
    exact Tree.issued_of_entity? he

theorem Added.receive {t : Tree} {i : Intake} (h : i.Added t) {e : Entity} (he : e.parts = [])
    (value? : Option String) : (i.receive e value?).Added t := by
  have hnew := i.tree.not_issued_handleFor e
  have hmem : ∀ k, k ∈ (i.receive e value?).contents.handles ↔
      k ∈ i.contents.handles ∨ k = i.tree.handleFor e := fun k => mem_handles_receive
  refine {
    toGrown := h.toGrown.receive e value?
    values := (i.tree.vars.values_watchAll _ _).trans h.values
    others := fun k hk => ?_
    given := fun k hk => ?_
    bare := fun k j hk => ?_
    watching := fun name => ?_
    watchers := fun name k hk => ?_ }
  · rw [hmem, not_or] at hk
    exact (i.tree.entity?_add e k).trans ((if_neg hk.2).trans (h.others k hk.1))
  · rw [hmem]
    rcases (i.tree.issued_add e k).mp hk with hk | hk
    · exact (h.given k hk).imp_right .inl
    · exact .inr (.inr hk)
  · change ¬ (i.tree.add e).Holds k j
    rw [Tree.holds_add he]
    rcases (hmem k).mp hk with hk | rfl
    · exact h.bare k j hk
    · intro hj
      obtain ⟨e', he'⟩ := Tree.live_of_holds hj
      exact hnew (Tree.issued_of_entity? he')
  · change ((i.tree.vars.watchAll (i.tree.handleFor e) e.watched).watching name).filter _ = _
    rw [Variables.filter_watching_watchAll _ _ _ _ (by simp [hmem]), ← h.watching name]
    apply List.filter_congr
    intro k hk
    have hne : k ≠ i.tree.handleFor e := by
      rintro rfl
      exact hnew (h.watchers name _ hk)
    simp [hmem, hne]
  · apply (i.tree.issued_add e k).mpr
    rcases (Variables.mem_watching_watchAll _ _ _ _ _).mp hk with hk | ⟨rfl, -⟩
    · exact .inl (h.watchers name k hk)
    · exact .inr rfl

theorem Added.takeAll {t : Tree} {i : Intake} (h : i.Added t) (schema : Schema) :
    (i.takeAll environment base known schema).2.Added t :=
  takeAll_invariant environment base known (P := fun i => i.Added t)
    (fun _ _ _ value? hi ha => hi.receive (parts_of_arriving ha) value?) h schema

end Intake

namespace Tree

/-- Two trees that nobody can tell apart by what handles stand for, by values or by watchers. -/
structure Alike (t t' : Tree) : Prop where
  values : t'.vars.values = t.vars.values
  entity : ∀ h, t'.entity? h = t.entity? h
  watching : ∀ name, t'.vars.watching name = t.vars.watching name

end Tree

theorem Intake.Added.release {t : Tree} {i : Intake} (h : i.Added t) (hr : i.tree.Rising) :
    t.Alike (i.tree.release i.contents) := by
  have hgone : ∀ k, k ∈ i.tree.handlesOf (i.tree.arena.nodes.next + 1) i.contents ↔
      k ∈ i.contents.handles := by
    intro k
    rw [hr.mem_handlesOf_iff]
    constructor
    · rintro ⟨j, hj, hfrom⟩
      rcases Relation.ReflTransGen.cases_head hfrom with rfl | ⟨_, hj', -⟩
      · exact hj
      · exact absurd hj' (h.bare j _ hj)
    · exact fun hk => ⟨k, hk, .refl⟩
  constructor
  · exact (Tree.values_foldl_drop _ _).trans h.values
  · intro k
    rw [Tree.release, Tree.entity?_foldl_drop]
    split
    · next hk =>
      exact (Tree.entity?_of_not_issued (h.fresh k ((hgone k).mp hk))).symm
    · next hk => exact h.others k (mt (hgone k).mpr hk)
  · intro name
    rw [Tree.release, Tree.watching_foldl_drop, ← h.watching name]
    apply List.filter_congr
    intro k _
    simp [hgone]

namespace Tree

/-- A node is unread, what hung below it is gone, and nothing else has changed. -/
structure TakenBack (t : Tree) (id : NodeId) (node : Node) (t' : Tree) : Prop where
  values : t'.vars.values = t.vars.values
  node : t'.node? id = some { node with parsed? := none }
  below : ∀ h, t.Below (.node id) h → ¬ t'.Live h
  created : ∀ h, t'.Issued h → ¬ t.Issued h →
    ¬ t'.Live h ∧ ∀ name, h ∉ t'.vars.watching name
  others : ∀ h, h ≠ .node id → ¬ t.Below (.node id) h → t'.entity? h = t.entity? h
  watching : ∃ gone : List Handle, (∀ h, h ∈ gone ↔ t.Below (.node id) h) ∧
    ∀ name, t'.vars.watching name = (t.vars.watching name).filter (· ∉ gone)

theorem Rising.takenBack_unread {t t' : Tree} (hr : t.Rising) (hc : t.Coherent) {id : NodeId}
    {node : Node} (hn : t.node? id = some node) (ha : (t.unread id).Alike t') :
    t.TakenBack id node t' := by
  obtain ⟨gone, hgone, heq⟩ := hr.unread_eq hn
  have hentity : ∀ h, t'.entity? h =
      if h ∈ gone then none
      else if h = .node id then (t.entity? h).map (·.read none) else t.entity? h := by
    intro h
    rw [ha.entity, heq, entity?_foldl_drop, entity?_setParsed]
  have hwatching : ∀ name, t'.vars.watching name = (t.vars.watching name).filter (· ∉ gone) := by
    intro name
    rw [ha.watching, heq, watching_foldl_drop]
    rfl
  constructor
  · exact ha.values.trans (Coherent.values_unread id)
  · rw [← entity?_eq_node, ha.entity, entity?_node, hr.node?_unread hn]
    rfl
  · rintro h hb ⟨e, he⟩
    rw [hentity, if_pos ((hgone h).mpr hb)] at he
    cases he
  · intro h _ hnew
    have hnone := entity?_of_not_issued hnew
    constructor
    · rintro ⟨e, he⟩
      rw [hentity, hnone] at he
      split at he
      · cases he
      · split at he <;> cases he
    · intro name hm
      rw [hwatching] at hm
      obtain ⟨e, he, -⟩ := (hc.watching name h).mp (List.mem_filter.mp hm).1
      cases hnone.symm.trans he
  · intro h hne hb
    rw [hentity, if_neg (mt (hgone h).mp hb), if_neg hne]
  · exact ⟨gone, hgone, hwatching⟩

theorem populate_of_refusal? {t : Tree} (hr : t.Rising) (hc : t.Coherent)
    {environment : Environment} {id : NodeId} {node : Node} (hn : t.node? id = some node)
    (file : Path) {schema : Schema} {e : Error}
    (h : schema.findSome? (Intake.refusal? environment) = some e) :
    ∃ t', t.populate environment id node file schema = (.error e, t') ∧
      t.TakenBack id node t' := by
  let start : Intake := { tree := t.unread id, contents := .empty, imported := [] }
  let base := file.parent?.getD ⟨""⟩
  have hadded : (start.takeAll environment base node.known schema).2.Added (t.unread id) :=
    (Intake.Added.start (hc.unread id)).takeAll environment base node.known schema
  have hrising := Rising.takeAll (i := start) (hr.unread id) environment base node.known schema
  have hfailed := Intake.takeAll_fst environment base node.known start schema
  rw [h] at hfailed
  have htaken : start.takeAll environment base node.known schema =
      (.error e, (start.takeAll environment base node.known schema).2) :=
    Prod.ext hfailed rfl
  refine ⟨_, ?_, hr.takenBack_unread hc hn (hadded.release hrising)⟩
  simp only [populate]
  rw [htaken]

/-! ## An example -/

namespace Nested

def faultyText : String :=
  "\x7b\"A\":\x7b\"type\":\"bool\"\x7d," ++
  "\"B\":\x7b\"type\":\"int\",\"range\":[1]\x7d\x7d"

def faulty : Surroundings where
  files := ⟨⟨"/"⟩, [(["config.json"], .file faultyText.toUTF8 false)]⟩
  environment := ⟨[], .checked⟩

def failed : Tree := (tree.parse faulty root).2

def refuses : Bool :=
  (tree.node? root).any fun node =>
    match Schema.load faulty.files node.path.path with
    | .error _ => false
    | .ok schema => (schema.findSome? (Intake.refusal? faulty.environment)).isSome

end Nested

/-! ## Failed readings -/

/-- A reading without a node, a file or a schema changes nothing. One that is refused an entry,
wherever that stands, leaves the node unread and nothing of its own behind. -/
theorem failed_parse {t : Tree} (h : t.Reachable) (around : Surroundings) (id : NodeId) :
    (t.node? id = none → t.parse around id = (.error (.stale (.node id)), t)) ∧
    ∀ node, t.node? id = some node →
      (∀ e, Schema.load around.files node.path.path = .error e →
        t.parse around id = (.error e, t)) ∧
      ∀ schema, Schema.load around.files node.path.path = .ok schema →
        ∀ e, schema.findSome? (Intake.refusal? around.environment) = some e →
          ∃ t', t.parse around id = (.error e, t') ∧ t.TakenBack id node t' := by
  refine ⟨fun hn => ?_, fun node hn => ⟨fun e hl => ?_, fun schema hl e he => ?_⟩⟩
  · simp only [parse, hn]
  · simp only [parse, hn, hl]
  · simp only [parse, hn, hl]
    exact populate_of_refusal? h.rising h.coherent hn _ he

/-- The first entry came in and left again, and what was read before is gone. -/
theorem failed_parse_nested :
    Nested.tree.Reachable ∧ ∃ node, Nested.tree.node? root = some node ∧
      Nested.tree.TakenBack root node Nested.failed ∧
      Nested.failed.Issued (.item ⟨3⟩) ∧ ¬ Nested.failed.Live (.item ⟨3⟩) := by
  have hrefuses : Nested.refuses = true := by decide +kernel
  obtain ⟨node, hn, hread⟩ := Option.any_eq_true _ _ |>.mp hrefuses
  refine ⟨Nested.reachable_tree, node, hn, ?_⟩
  have hissued : Nested.failed.Issued (.item ⟨3⟩) := by
    change 3 < Nested.failed.arena.items.next
    decide +kernel
  have hnew : ¬ Nested.tree.Issued (.item ⟨3⟩) := by
    change ¬ 3 < Nested.tree.arena.items.next
    decide +kernel
  split at hread
  · cases hread
  · next schema hl =>
    obtain ⟨e, he⟩ := Option.isSome_iff_exists.mp hread
    obtain ⟨t', hp, hback⟩ :=
      ((failed_parse Nested.reachable_tree Nested.faulty root).2 node hn).2 schema hl e he
    obtain rfl : Nested.failed = t' := congrArg Prod.snd hp
    exact ⟨hback, hissued, (hback.created _ hissued hnew).1⟩

end Tree

end MakeConfig
