import MakeConfig.Proofs.Tree.Frame

/-! # What handles go on to stand for

Until a tree is started again, a handle stands for what it was given out for or for nothing. What
an entity is, it is from its schema: values, visibility and contents come and go.
-/

namespace MakeConfig

namespace Entity

/-- What there is to an entity from the time when it came in. -/
def core : Entity → Entity
  | item i => item { i.bare with user? := none }
  | node n => node { n.bare with parsed? := none }
  | recipe r => recipe r.bare
  | repo r => repo r.bare

@[simp] theorem core_bare (e : Entity) : e.bare.core = e.core := by
  cases e <;> rfl

@[simp] theorem core_read (parsed? : Option Parsed) (e : Entity) :
    (e.read parsed?).core = e.core := by
  cases e <;> rfl

end Entity

namespace Tree

/-- Handles stay given out, and each of them stands for what it stood for or for nothing. -/
structure Keeps (t t' : Tree) : Prop where
  issued : ∀ h, t.Issued h → t'.Issued h
  core : ∀ h, t.Issued h → t'.entity? h = none ∨
    (t'.entity? h).map Entity.core = (t.entity? h).map Entity.core

namespace Keeps

variable {t t' t'' : Tree}

theorem refl (t : Tree) : t.Keeps t := ⟨fun _ h => h, fun _ _ => .inr rfl⟩

theorem trans (h : t.Keeps t') (h' : t'.Keeps t'') : t.Keeps t'' := by
  refine ⟨fun k hk => h'.issued k (h.issued k hk), fun k hk => ?_⟩
  rcases h'.core k (h.issued k hk) with hn | he'
  · exact .inl hn
  rcases h.core k hk with hn | he
  · rw [hn] at he'
    exact .inl (Option.map_eq_none_iff.mp he')
  · exact .inr (he'.trans he)

theorem of_spares {P : Handle → Prop} (hs : t.Spares P t')
    (hp : ∀ h, P h → t'.entity? h = none ∨
      (t'.entity? h).map Entity.core = (t.entity? h).map Entity.core) : t.Keeps t' := by
  refine ⟨hs.issued, fun h hi => ?_⟩
  by_cases hh : P h
  · exact hp h hh
  · have hb := congrArg (Option.map Entity.core) (hs.bare h hi hh)
    exact .inr (by simpa [Function.comp_def] using hb)

/-- A handle that stands for nothing any more never stands for anything again. -/
theorem stale (h : t.Keeps t') {k : Handle} (hk : t.Issued k) (hn : t.entity? k = none) :
    t'.entity? k = none := by
  rcases h.core k hk with he | he
  · exact he
  · rw [hn] at he
    exact Option.map_eq_none_iff.mp he

theorem entity (h : t.Keeps t') {k : Handle} {e e' : Entity} (he : t.entity? k = some e)
    (he' : t'.entity? k = some e') : e'.core = e.core := by
  rcases h.core k (issued_of_entity? he) with hn | hcore
  · cases hn.symm.trans he'
  · rw [he, he'] at hcore
    exact Option.some.inj hcore

theorem fresh (h : t.Keeps t') {k : Handle} {e' : Entity} (he' : t'.entity? k = some e')
    (hn : t.entity? k = none) : ¬ t.Issued k := by
  intro hk
  cases (h.stale hk hn).symm.trans he'

end Keeps

variable {t : Tree}

theorem keeps_publish (hc : t.Coherent) (name value : String) : t.Keeps (t.publish name value) :=
  .of_spares (spares_publish hc name value) fun _ => False.elim

theorem keeps_add (e : Entity) : t.Keeps (t.add e) :=
  .of_spares (spares_add e) fun _ => False.elim

theorem keeps_foldl_drop (hs : List Handle) : t.Keeps (hs.foldl drop t) := by
  refine .of_spares (spares_foldl_drop hs) fun h hh => .inl ?_
  rw [entity?_foldl_drop, if_pos hh]

theorem keeps_setParsed (id : NodeId) (parsed? : Option Parsed) :
    t.Keeps (t.setParsed id parsed?) := by
  refine .of_spares (spares_setParsed id parsed?) fun h hh => .inr ?_
  rw [entity?_setParsed, if_pos hh]
  simp [Function.comp_def]

theorem keeps_setUser {id : ItemId} {item : Item} (hi : t.item? id = some item)
    (user? : Option String) : t.Keeps (t.setItem id { item with user? }) := by
  refine .of_spares (spares_setItem id _) fun h hh => .inr ?_
  rw [entity?_setItem, if_pos hh, hh, entity?_item, hi]
  rfl

theorem keeps_assign (hc : t.Coherent) (id : ItemId) (raw : String) :
    t.Keeps (t.assign id raw).2 := by
  cases hi : t.item? id with
  | none =>
    simp only [assign, hi]
    exact .refl t
  | some item =>
    rw [assign_of_item hi]
    split
    · exact .refl t
    · next value _ =>
      exact (keeps_setUser hi (some value)).trans
        (keeps_publish (hc.setUser hi (some value)) item.name value)

theorem keeps_assignAll (hc : t.Coherent) (values : List (ItemId × String)) :
    t.Keeps (t.assignAll values).2 := by
  have hboth := assignAll_invariant (P := fun t' => t'.Coherent ∧ t.Keeps t')
    (fun _ id raw h => ⟨h.1.assign id raw, h.2.trans (keeps_assign h.1 id raw)⟩)
    ⟨hc, .refl t⟩ values
  exact hboth.2

theorem keeps_unread (id : NodeId) : t.Keeps (t.unread id) := by
  unfold unread
  split
  · exact .refl t
  · exact (keeps_setParsed id none).trans (keeps_foldl_drop _)

theorem keeps_populate (hc : t.Coherent) (environment : Environment) {id : NodeId} {node : Node}
    (hn : t.node? id = some node) (file : Path) (schema : Schema) :
    t.Keeps (t.populate environment id node file schema).2 := by
  let start : Intake := { tree := t.unread id, contents := .empty, imported := [] }
  have hcoherent := (hc.unread id).takeAll (i := start) environment (file.parent?.getD ⟨""⟩)
    (hc.known_unread hn) schema
  have htaken := Intake.takeAll_invariant environment (file.parent?.getD ⟨""⟩) node.known
    (P := fun i => t.Keeps i.tree) (i := start)
    (fun i _ e _ hi _ => hi.trans (keeps_add e)) (keeps_unread id) schema
  unfold populate
  dsimp only
  split
  · next heq =>
    rw [heq] at htaken
    exact htaken.trans (keeps_foldl_drop _)
  · next heq =>
    rw [heq] at htaken hcoherent
    exact (htaken.trans (keeps_setParsed id _)).trans
      (keeps_assignAll (hcoherent.setParsed id _) _)

theorem keeps_parse (hc : t.Coherent) (around : Surroundings) (id : NodeId) :
    t.Keeps (t.parse around id).2 := by
  unfold parse
  split
  · exact .refl t
  · next node hn =>
    dsimp only
    split
    · exact .refl t
    · exact keeps_populate hc around.environment hn _ _

/-- Calls on a tree in any order, as long as it is not started again. -/
inductive Onward (t : Tree) : Tree → Prop where
  | refl : t.Onward t
  | parse {m : Tree} (around : Surroundings) (id : NodeId) :
      t.Onward m → t.Onward (m.parse around id).2
  | configure {m m' : Tree} {σ : Type} (around : Surroundings) (d : Dialog σ) (steps : Nat)
      (id : NodeId) {start finish : σ} {r : Except Error Unit} :
      Session.configure around d steps id ⟨m, start⟩ = some (r, ⟨m', finish⟩) →
      t.Onward m → t.Onward m'
  | setVariable {m : Tree} (name value : String) : t.Onward m → t.Onward (m.publish name value)
  | setUserValue {m : Tree} (id : ItemId) (raw : String) :
      t.Onward m → t.Onward (m.assign id raw).2
  | adoptDefault {m : Tree} (id : ItemId) : t.Onward m → t.Onward (m.adoptDefault id).2

theorem Onward.keeps {t' : Tree} (h : t.Onward t') (hc : t.Coherent) : t.Keeps t' := by
  let R : Tree → Tree → Prop := fun m m' => m.Coherent → m'.Coherent ∧ m.Keeps m'
  have refl : ∀ m, R m m := fun m hm => ⟨hm, .refl m⟩
  have trans : ∀ a b c, R a b → R b c → R a c := fun a b c hab hbc ha =>
    ⟨(hbc (hab ha).1).1, (hab ha).2.trans (hbc (hab ha).1).2⟩
  have hassign : ∀ m id raw, R m (Tree.assign m id raw).2 := fun m id raw hm =>
    ⟨hm.assign id raw, keeps_assign hm id raw⟩
  have hparse : ∀ around m id, R m (Tree.parse around m id).2 := fun around m id hm =>
    ⟨hm.parse around id, keeps_parse hm around id⟩
  suffices hall : R t t' from (hall hc).2
  induction h with
  | refl => exact refl t
  | parse around id _ ih => exact trans _ _ _ ih (hparse around _ id)
  | configure around d steps id hs _ ih =>
    exact trans _ _ _ ih
      (Session.configure_within refl trans hassign around (hparse around) d steps id _ _ _ hs)
  | setVariable name value _ ih =>
    exact trans _ _ _ ih fun hm => ⟨hm.publish name value, keeps_publish hm name value⟩
  | setUserValue id raw _ ih => exact trans _ _ _ ih (hassign _ id raw)
  | adoptDefault id _ ih =>
    exact trans _ _ _ ih (Session.adoptDefault_within refl hassign _ id)

end Tree

end MakeConfig
