import Mathlib.Data.List.Nodup
import MakeConfig.Proofs.Tree.Coherent
import MakeConfig.Proofs.Tree.Identity

/-! # What entities remember

An entity remembers each variable for itself. A change of one of them has no effect on what is
remembered of the others, and what it has on this one does not depend on the others either. As long
as an entity is up to date, what it remembers and what it came in with are all there is to it.
-/

namespace MakeConfig

namespace OrderedMap

variable {α : Type} {m n : OrderedMap α}

theorem eq_of_get? (hk : m.keys = n.keys) (hg : ∀ k, m.get? k = n.get? k) : m = n := by
  apply ext_entries
  have hvalues : ∀ e ∈ m.entries, ∀ e' ∈ n.entries, e.1 = e'.1 → e = e' := by
    rintro ⟨k, v⟩ he ⟨k', v'⟩ he' (rfl : k = k')
    rw [mem_entries_iff] at he he'
    rw [hg, he'] at he
    rw [Option.some.inj he]
  apply List.ext_getElem
  · simpa [keys] using congrArg List.length hk
  · intro i h h'
    have hname : m.entries[i].1 = n.entries[i].1 := by
      have hi := congrArg (·[i]?) hk
      simpa [keys, h, h'] using hi
    exact hvalues _ (List.getElem_mem h) _ (List.getElem_mem h') hname

theorem perm_entries (hg : ∀ k, m.get? k = n.get? k) : m.entries.Perm n.entries := by
  have nodup : ∀ m : OrderedMap α, m.entries.Nodup := fun m => List.Nodup.of_map Prod.fst m.nodup
  rw [List.perm_ext_iff_of_nodup (nodup m) (nodup n)]
  rintro ⟨k, v⟩
  rw [mem_entries_iff, mem_entries_iff, hg]

end OrderedMap

theorem Binding.names_of_bare {b b' : Binding} (h : b.bare = b'.bare) : b.names = b'.names := by
  rw [b.names_eq, b'.names_eq]
  change Template.names b.bare.raw = Template.names b'.bare.raw
  rw [h]

theorem Binding.eq_of_bare {b b' : Binding} (hb : b.bare = b'.bare)
    (hv : ∀ name ∈ b.names, b.value? name = b'.value? name) : b = b' := by
  have hraw : b.raw = b'.raw := by
    change b.bare.raw = b'.bare.raw
    rw [hb]
  have horigin : b.origin = b'.origin := by
    change b.bare.origin = b'.bare.origin
    rw [hb]
  have hnames : b.known.keys = b'.known.keys := names_of_bare hb
  have hknown : b.known = b'.known := by
    refine OrderedMap.eq_of_get? hnames fun k => ?_
    by_cases hk : k ∈ b.known.keys
    · obtain ⟨v, hget⟩ := Option.isSome_iff_exists.mp ((b.known.isSome_get? k).mpr hk)
      obtain ⟨v', hget'⟩ := Option.isSome_iff_exists.mp ((b'.known.isSome_get? k).mpr (hnames ▸ hk))
      have hvalue := hv k hk
      simp only [value?, hget, hget', Option.join_some] at hvalue
      rw [hget, hget', hvalue]
    · rw [(b.known.get?_eq_none_iff k).mpr hk, (b'.known.get?_eq_none_iff k).mpr (hnames ▸ hk)]
  obtain ⟨raw, origin, known, _⟩ := b
  cases b'
  cases hraw
  cases horigin
  cases hknown
  rfl

/-! ## Single variables -/

namespace Entity

/-- What an entity remembers of a variable. -/
def recalls (name : String) : Entity → List (Option String)
  | item i => [i.observed.get? name]
  | node n => [n.known.get? name]
  | recipe r => [r.path.value? name]
  | repo r => [r.directory.value? name, r.out.value? name]

/-- An item with another value. Other entities have none. -/
def given (value : String) : Entity → Entity
  | item i => item { i with user? := some value }
  | e => e

variable {κ : Type} {s s' : Variables κ} {name value other : String} {e e' : Entity}

@[simp] theorem core_given (value : String) (e : Entity) : (e.given value).core = e.core := by
  cases e <;> rfl

@[simp] theorem recalls_given (value : String) (e : Entity) (name : String) :
    (e.given value).recalls name = e.recalls name := by
  cases e <;> rfl

theorem bare_given (value : String) (e : Entity) :
    (e.given value).bare = e.bare.given value := by
  cases e <;> rfl

theorem watched_core (e : Entity) : e.core.watched = e.watched := by
  have hnames : ∀ b : Binding, b.bare.names = b.names := fun b => Binding.names_of_bare rfl
  cases e with
  | item i => rfl
  | node n => simp only [core, watched, Node.watched, Node.bare, hnames]
  | recipe r => simp only [core, watched, Recipe.watched, Recipe.bare, hnames]
  | repo r => simp only [core, watched, Repo.watched, Repo.bare, hnames]

theorem watched_of_core (h : e'.core = e.core) : e'.watched = e.watched := by
  rw [← watched_core, h, watched_core]

theorem recalls_notice_of_ne (h : other ≠ name) (e : Entity) :
    (e.notice name value s).recalls other = e.recalls other := by
  have hvalue : ∀ b : Binding, (b.learn name value).value? other = b.value? other := fun b => by
    rw [Binding.value?_learn, if_neg fun hb => h hb.1]
  cases e with
  | item i =>
    simp only [notice, recalls, Item.notice_eq]
    split
    · rw [OrderedMap.get?_insert, if_neg h]
    · rfl
  | node n =>
    simp only [notice, recalls, Node.notice_eq, Node.learn_eq]
    split
    · rw [OrderedMap.get?_insert, if_neg h]
    · rw [OrderedMap.get?_modify, if_neg h]
  | recipe r => simp only [notice, recalls, Recipe.notice, hvalue]
  | repo r => simp only [notice, recalls, Repo.notice, hvalue]

/-- What is remembered of a change depends on nothing but what was remembered of the variable. The
store may be another one, since it has a say in visibility alone. -/
theorem recalls_notice_congr (hc : e'.core = e.core) (hr : e'.recalls name = e.recalls name) :
    (e'.notice name value s').recalls name = (e.notice name value s).recalls name := by
  have hvalue : ∀ b b' : Binding, b'.bare = b.bare → b'.value? name = b.value? name →
      (b'.learn name value).value? name = (b.learn name value).value? name := by
    intro b b' hb hv
    rw [Binding.value?_learn, Binding.value?_learn, Binding.names_of_bare hb, hv]
  cases e with
  | item i =>
    cases e' with
    | item i' =>
      have hdepends : i'.depends = i.depends := by
        have hcore := congrArg Item.depends (Entity.item.inj hc)
        exact hcore
      have hobserved : i'.observed.get? name = i.observed.get? name := (List.cons.inj hr).1
      simp only [notice, recalls, Item.notice_eq, hdepends]
      split
      · simp only [OrderedMap.get?_insert, if_true]
      · rw [hobserved]
    | _ => cases hc
  | node n =>
    cases e' with
    | node n' =>
      have hpath : n'.path.bare = n.path.bare := congrArg Node.path (Entity.node.inj hc)
      have hknown : n'.known.get? name = n.known.get? name := (List.cons.inj hr).1
      have huses : n'.path.uses name = n.path.uses name := by
        rw [Bool.eq_iff_iff, Binding.uses_iff, Binding.uses_iff, Binding.names_of_bare hpath]
      simp only [notice, recalls, Node.notice_eq, Node.learn_eq, huses]
      split
      · simp only [OrderedMap.get?_insert, if_true]
      · rw [OrderedMap.get?_modify, OrderedMap.get?_modify, hknown]
    | _ => cases hc
  | recipe r =>
    cases e' with
    | recipe r' =>
      have hpath : r'.path.bare = r.path.bare := congrArg Recipe.path (Entity.recipe.inj hc)
      exact congrArg (· :: []) (hvalue _ _ hpath (List.cons.inj hr).1)
    | _ => cases hc
  | repo r =>
    cases e' with
    | repo r' =>
      have hdirectory : r'.directory.bare = r.directory.bare :=
        congrArg Repo.directory (Entity.repo.inj hc)
      have hout : r'.out.bare = r.out.bare := congrArg Repo.out (Entity.repo.inj hc)
      obtain ⟨hd, ho⟩ := List.cons.inj hr
      simp only [notice, recalls, Repo.notice, hvalue _ _ hdirectory hd,
        hvalue _ _ hout (List.cons.inj ho).1]
    | _ => cases hc

/-! ## The same entity -/

/-- The same entity, but for the order in which it has come to know variables. -/
def Agrees : Entity → Entity → Prop
  | item i, item j =>
    j = { i with observed := j.observed } ∧ i.observed.entries.Perm j.observed.entries
  | node m, node n => n = { m with known := n.known } ∧ m.known.entries.Perm n.known.entries
  | recipe r, recipe r' => r' = r
  | repo r, repo r' => r' = r
  | _, _ => False

/-- What an entity is and what it remembers tell it, as long as it is up to date. -/
theorem agrees_of_recalls {s₁ s₂ : Variables κ} {e₁ e₂ : Entity} (hb : e₂.bare = e₁.bare)
    (hr : ∀ name, e₁.recalls name = e₂.recalls name) (h₁ : e₁.Current s₁) (h₂ : e₂.Current s₂)
    (hs : ∀ name, s₁.get? name = s₂.get? name) : e₁.Agrees e₂ := by
  have hmeets : ∀ required, s₂.meetsAll required = s₁.meetsAll required := fun required =>
    Variables.meetsAll_congr fun name _ => (hs name).symm
  cases e₁ with
  | item i =>
    cases e₂ with
    | item j =>
      have hbare : j.bare = i.bare := Entity.item.inj hb
      have hdepends : j.depends = i.depends := Item.depends_of_bare hbare
      have hvisible : j.visible = i.visible := by
        rw [h₂.visible, h₁.visible, hdepends, hmeets]
      refine ⟨?_, OrderedMap.perm_entries fun name => (List.cons.inj (hr name)).1⟩
      calc j = { j.bare with visible := j.visible, observed := j.observed } := rfl
        _ = { i.bare with visible := i.visible, observed := j.observed } := by
          rw [hbare, hvisible]
    | _ => cases hb
  | node m =>
    cases e₂ with
    | node n =>
      have hbare : n.bare = m.bare := Entity.node.inj hb
      have hdepends : n.depends = m.depends := Node.depends_of_bare hbare
      have hvisible : n.visible = m.visible := by
        rw [h₂.visible, h₁.visible, hdepends, hmeets]
      have hpathBare : n.path.bare = m.path.bare := congrArg Node.path hbare
      have hpath : n.path = m.path := by
        refine Binding.eq_of_bare hpathBare fun name hn => ?_
        have hm : name ∈ m.path.names := Binding.names_of_bare hpathBare ▸ hn
        rw [h₂.path name hn, h₁.path name hm, hs]
      refine ⟨?_, OrderedMap.perm_entries fun name => (List.cons.inj (hr name)).1⟩
      calc n = { n.bare with path := n.path, known := n.known, visible := n.visible } := rfl
        _ = { m.bare with path := m.path, known := n.known, visible := m.visible } := by
          rw [hbare, hpath, hvisible]
    | _ => cases hb
  | recipe r =>
    cases e₂ with
    | recipe r' =>
      have hbare : r'.bare = r.bare := Entity.recipe.inj hb
      have hpath : r'.path = r.path :=
        Binding.eq_of_bare (congrArg Recipe.path hbare) fun name _ =>
          (List.cons.inj (hr name)).1.symm
      calc r' = { r'.bare with path := r'.path } := rfl
        _ = { r.bare with path := r.path } := by rw [hbare, hpath]
    | _ => cases hb
  | repo r =>
    cases e₂ with
    | repo r' =>
      have hbare : r'.bare = r.bare := Entity.repo.inj hb
      have hdirectory : r'.directory = r.directory :=
        Binding.eq_of_bare (congrArg Repo.directory hbare) fun name _ =>
          (List.cons.inj (hr name)).1.symm
      have hout : r'.out = r.out :=
        Binding.eq_of_bare (congrArg Repo.out hbare) fun name _ =>
          (List.cons.inj (List.cons.inj (hr name)).2).1.symm
      calc r' = { r'.bare with directory := r'.directory, out := r'.out } := rfl
        _ = { r.bare with directory := r.directory, out := r.out } := by
          rw [hbare, hdirectory, hout]
    | _ => cases hb

end Entity

end MakeConfig
