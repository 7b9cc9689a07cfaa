import MakeConfig.Proofs.Tree.Agreement
import MakeConfig.Proofs.Tree.Assignment
import MakeConfig.Proofs.Tree.Memory

/-! # Assignments to different variables

What an entity remembers is kept variable by variable, and visibility and paths follow from the
variables. So a tree after some assignments is told by the tree before them and by what they wrote,
in any order. Only the order in which new names came up is left open.
-/

namespace MakeConfig

/-! ## What is written -/

/-- A value under a name, which may come from an item. -/
structure Write where
  name : String
  value : String
  target? : Option ItemId

/-- A value comes from an item that has the name. -/
def Write.Targets (w : Write) (h : Handle) : Prop := w.target?.map Handle.item = some h

instance (w : Write) (h : Handle) : Decidable (w.Targets h) := inferInstanceAs (Decidable (_ = _))

theorem Write.some_or_none (ws : List Write) (p : Write → Prop) :
    (∃ w ∈ ws, p w) ∨ ∀ w ∈ ws, ¬ p w :=
  (Classical.em _).imp_right fun hn w hw hp => hn ⟨w, hw, hp⟩

namespace Entity

variable {κ : Type} {s s' : Variables κ} {w : Write} {h : Handle} {e e' : Entity}

/-- What comes of an entity when a value is written. -/
def put (s : Variables κ) (w : Write) (h : Handle) (e : Entity) : Entity :=
  let e := if w.Targets h then e.given w.value else e
  if s.changes w.name w.value = true ∧ w.name ∈ e.watched then
    e.notice w.name w.value (s.write w.name w.value)
  else e

theorem bare_put (s : Variables κ) (w : Write) (h : Handle) (e : Entity) :
    (e.put s w h).bare = if w.Targets h then (e.given w.value).bare else e.bare := by
  unfold put
  dsimp only
  split <;> split <;> simp

theorem core_put (s : Variables κ) (w : Write) (h : Handle) (e : Entity) :
    (e.put s w h).core = e.core := by
  rw [← core_bare, bare_put]
  split <;> simp

theorem recalls_put_of_ne {name : String} (hn : name ≠ w.name) (s : Variables κ) (h : Handle)
    (e : Entity) : (e.put s w h).recalls name = e.recalls name := by
  unfold put
  dsimp only
  split <;> split <;> simp [recalls_notice_of_ne hn]

theorem recalls_put (s : Variables κ) (w : Write) (h : Handle) (e : Entity) :
    (e.put s w h).recalls w.name =
      if s.changes w.name w.value = true ∧ w.name ∈ e.watched then
        (e.notice w.name w.value s).recalls w.name
      else e.recalls w.name := by
  have hcore : (if w.Targets h then e.given w.value else e).core = e.core := by
    split <;> simp
  have hrecalls : (if w.Targets h then e.given w.value else e).recalls w.name =
      e.recalls w.name := by
    split <;> simp
  unfold put
  dsimp only
  rw [watched_of_core hcore]
  split
  · exact recalls_notice_congr hcore hrecalls
  · exact hrecalls

/-- What an entity is after values of different names were written, in whatever order. -/
structure Overlaid (s : Variables κ) (ws : List Write) (h : Handle) (e e' : Entity) : Prop where
  core : e'.core = e.core
  given : ∀ w ∈ ws, w.Targets h → e'.bare = (e.given w.value).bare
  kept : (∀ w ∈ ws, ¬ w.Targets h) → e'.bare = e.bare
  others : ∀ name, (∀ w ∈ ws, w.name ≠ name) → e'.recalls name = e.recalls name
  told : ∀ w ∈ ws, e'.recalls w.name =
    if s.changes w.name w.value = true ∧ w.name ∈ e.watched then
      (e.notice w.name w.value s).recalls w.name
    else e.recalls w.name

theorem Overlaid.refl (s : Variables κ) (h : Handle) (e : Entity) : Overlaid s [] h e e where
  core := rfl
  given := by rintro w ⟨⟩
  kept _ := rfl
  others _ _ := rfl
  told := by rintro w ⟨⟩

theorem Overlaid.perm {ws ws' : List Write} (ho : Overlaid s ws h e e') (hp : ws.Perm ws') :
    Overlaid s ws' h e e' where
  core := ho.core
  given w hw := ho.given w (hp.mem_iff.mpr hw)
  kept hk := ho.kept fun w hw => hk w (hp.mem_iff.mp hw)
  others name hn := ho.others name fun w hw => hn w (hp.mem_iff.mp hw)
  told w hw := ho.told w (hp.mem_iff.mpr hw)

/-- The key step: one more value is written, under a name of its own. -/
theorem Overlaid.put {ws : List Write} (ho : Overlaid s ws h e e')
    (hfresh : ∀ v ∈ ws, v.name ≠ w.name) (hapart : ∀ v ∈ ws, v.Targets h → ¬ w.Targets h)
    (hs : s'.get? w.name = s.get? w.name) : Overlaid s (w :: ws) h e (e'.put s' w h) := by
  have hchanges : s'.changes w.name w.value = s.changes w.name w.value := by
    simp only [Variables.changes, hs]
  constructor
  case core => rw [core_put, ho.core]
  case given =>
    intro v hv ht
    rw [bare_put]
    rcases List.mem_cons.mp hv with rfl | hv
    · have hkept : e'.bare = e.bare := ho.kept fun u hu hut => hapart u hu hut ht
      rw [if_pos ht, bare_given, hkept, ← bare_given]
    · rw [if_neg (hapart v hv ht), ho.given v hv ht]
  case kept =>
    intro hk
    rw [bare_put, if_neg (hk w List.mem_cons_self)]
    exact ho.kept fun v hv => hk v (List.mem_cons_of_mem w hv)
  case others =>
    intro name hn
    rw [recalls_put_of_ne (hn w List.mem_cons_self).symm]
    exact ho.others name fun v hv => hn v (List.mem_cons_of_mem w hv)
  case told =>
    intro v hv
    rcases List.mem_cons.mp hv with rfl | hv
    · have hrecalls := ho.others v.name hfresh
      rw [recalls_put, hchanges, watched_of_core ho.core, recalls_notice_congr ho.core hrecalls,
        hrecalls]
    · rw [recalls_put_of_ne (hfresh v hv)]
      exact ho.told v hv

theorem Overlaid.agrees {ws : List Write} {s₁ s₂ : Variables κ} {e₁ e₂ : Entity}
    (ho₁ : Overlaid s ws h e e₁) (ho₂ : Overlaid s ws h e e₂) (h₁ : e₁.Current s₁)
    (h₂ : e₂.Current s₂) (hs : ∀ name, s₁.get? name = s₂.get? name) : e₁.Agrees e₂ := by
  refine agrees_of_recalls ?_ (fun name => ?_) h₁ h₂ hs
  · rcases Write.some_or_none ws (·.Targets h) with ⟨w, hw, ht⟩ | hk
    · rw [ho₂.given w hw ht, ho₁.given w hw ht]
    · rw [ho₂.kept hk, ho₁.kept hk]
  · rcases Write.some_or_none ws (·.name = name) with ⟨w, hw, rfl⟩ | hk
    · rw [ho₁.told w hw, ho₂.told w hw]
    · rw [ho₁.others name hk, ho₂.others name hk]

end Entity

namespace Tree

/-! ## Writing in a tree -/

def mark (t : Tree) (w : Write) : Tree :=
  match w.target? with
  | none => t
  | some id =>
    match t.item? id with
    | none => t
    | some item => t.setItem id { item with user? := some w.value }

/-- A value is noted where it comes from and published. -/
def put (t : Tree) (w : Write) : Tree := (t.mark w).publish w.name w.value

variable {t t' : Tree}

theorem mark_cases (t : Tree) (w : Write) :
    (t.mark w = t ∧ ∀ h e, t.entity? h = some e → ¬ w.Targets h) ∨
      ∃ id item, w.target? = some id ∧ t.item? id = some item ∧
        t.mark w = t.setItem id { item with user? := some w.value } := by
  unfold mark
  split
  · next hw => exact .inl ⟨rfl, fun h e _ ht => by simp [Write.Targets, hw] at ht⟩
  · next id hw =>
    split
    · next hi =>
      refine .inl ⟨rfl, fun h e he ht => ?_⟩
      obtain rfl : .item id = h := by simpa [Write.Targets, hw] using ht
      simp [hi] at he
    · next item hi => exact .inr ⟨id, item, hw, hi, rfl⟩

theorem put_of_item {id : ItemId} {item : Item} (hi : t.item? id = some item) (value : String) :
    t.put ⟨item.name, value, some id⟩ = t.give id item value := by
  rw [Tree.put, Tree.mark]
  simp only [hi]
  rfl

theorem Coherent.mark (hc : t.Coherent) (w : Write) : (t.mark w).Coherent := by
  rcases t.mark_cases w with ⟨heq, -⟩ | ⟨id, item, -, hi, heq⟩
  · rwa [heq]
  · rw [heq]
    exact hc.setUser hi (some w.value)

theorem entity?_mark (t : Tree) (w : Write) (h : Handle) :
    (t.mark w).entity? h =
      (t.entity? h).map fun e => if w.Targets h then e.given w.value else e := by
  rcases t.mark_cases w with ⟨heq, hnone⟩ | ⟨id, item, hw, hi, heq⟩
  · rw [heq]
    cases he : t.entity? h with
    | none => rfl
    | some e => rw [Option.map_some, if_neg (hnone h e he)]
  · rw [heq, entity?_setItem]
    by_cases hh : h = .item id
    · subst hh
      simp [Write.Targets, hw, hi, Entity.given]
    · have ht : ¬ w.Targets h := by simpa [Write.Targets, hw] using fun he => hh he.symm
      simp [hh, ht]

theorem same_mark (t : Tree) (w : Write) :
    (t.mark w).vars = t.vars ∧ (t.mark w).arena.next = t.arena.next ∧
      (t.mark w).rootPath = t.rootPath ∧ (t.mark w).origin = t.origin := by
  rcases t.mark_cases w with ⟨heq, -⟩ | ⟨id, item, -, -, heq⟩
  · rw [heq]
    exact ⟨rfl, rfl, rfl, rfl⟩
  · rw [heq]
    exact ⟨rfl, next_setItem .., rfl, rfl⟩

theorem entity?_put (hc : t.Coherent) (w : Write) (h : Handle) :
    (t.put w).entity? h = (t.entity? h).map (Entity.put t.vars w h) := by
  have hmarked := hc.mark w
  have hvars := (t.same_mark w).1
  rw [put, entity?_publish _ _ _ (hmarked.nodup w.name), hvars]
  cases he : t.entity? h with
  | none => simp [entity?_mark, he]
  | some e =>
    have hm : (t.mark w).entity? h = some (if w.Targets h then e.given w.value else e) := by
      rw [entity?_mark, he, Option.map_some]
    have hw := hmarked.mem_watching hm w.name
    rw [hvars] at hw
    rw [hm, Option.map_some, Option.map_some, Entity.put]
    simp only [hw]
    exact (apply_ite some _ _ _).symm

/-- What a tree is after values of different names were written, in whatever order. -/
structure Overlaid (t : Tree) (ws : List Write) (t' : Tree) : Prop where
  coherent : t'.Coherent
  entities : ∀ h, Option.Rel (Entity.Overlaid t.vars ws h) (t.entity? h) (t'.entity? h)
  written : ∀ w ∈ ws, t'.vars.get? w.name = some w.value
  others : ∀ name, (∀ w ∈ ws, w.name ≠ name) → t'.vars.get? name = t.vars.get? name
  order : ∃ new, t'.vars.values.keys = t.vars.values.keys ++ new ∧
    new.Perm ((ws.map Write.name).filter (· ∉ t.vars.values.keys))
  watchers : t'.vars.watchers = t.vars.watchers
  next : t'.arena.next = t.arena.next
  place : t'.rootPath = t.rootPath ∧ t'.origin = t.origin

theorem rel_cases {α β : Type} {r : α → β → Prop} {o : Option α} {o' : Option β}
    (h : Option.Rel r o o') :
    (o = none ∧ o' = none) ∨ ∃ a b, o = some a ∧ o' = some b ∧ r a b := by
  cases h with
  | none => exact .inl ⟨rfl, rfl⟩
  | some h => exact .inr ⟨_, _, rfl, rfl, h⟩

theorem Overlaid.refl (hc : t.Coherent) : t.Overlaid [] t where
  coherent := hc
  entities h := by
    cases t.entity? h with
    | none => exact .none
    | some e => exact .some (.refl _ h e)
  written := by rintro w ⟨⟩
  others _ _ := rfl
  order := ⟨[], (List.append_nil _).symm, .nil⟩
  watchers := rfl
  next := rfl
  place := ⟨rfl, rfl⟩

theorem Overlaid.perm {ws ws' : List Write} (ho : t.Overlaid ws t') (hp : ws.Perm ws') :
    t.Overlaid ws' t' where
  coherent := ho.coherent
  entities h := by
    rcases rel_cases (ho.entities h) with ⟨he, he'⟩ | ⟨e, e', he, he', hover⟩
    · rw [he, he']
      exact .none
    · rw [he, he']
      exact .some (hover.perm hp)
  written w hw := ho.written w (hp.mem_iff.mpr hw)
  others name hn := ho.others name fun w hw => hn w (hp.mem_iff.mp hw)
  order := by
    obtain ⟨new, hkeys, hnew⟩ := ho.order
    exact ⟨new, hkeys, hnew.trans ((hp.map Write.name).filter _)⟩
  watchers := ho.watchers
  next := ho.next
  place := ho.place

/-- A value that comes from an item has its name. -/
def Names (t : Tree) (w : Write) : Prop :=
  ∀ id, w.target? = some id → ∃ item, t.item? id = some item ∧ item.name = w.name

theorem Names.apart {v w : Write} (hv : t.Names v) (hw : t.Names w) (hne : v.name ≠ w.name)
    {h : Handle} (ht : v.Targets h) : ¬ w.Targets h := by
  intro ht'
  obtain ⟨id, hid, rfl⟩ := Option.map_eq_some_iff.mp ht
  obtain ⟨id', hid', he⟩ := Option.map_eq_some_iff.mp ht'
  cases he
  obtain ⟨item, hi, hname⟩ := hv id hid
  obtain ⟨item', hi', hname'⟩ := hw id hid'
  cases hi.symm.trans hi'
  exact hne (hname.symm.trans hname')

theorem Overlaid.put {ws : List Write} {w : Write} (ho : t.Overlaid ws t')
    (hnames : ∀ v ∈ w :: ws, t.Names v) (hfresh : ∀ v ∈ ws, v.name ≠ w.name) :
    t.Overlaid (w :: ws) (t'.put w) := by
  obtain ⟨hvars, hnext, hroot, horigin⟩ := t'.same_mark w
  have hget : ∀ name, (t'.put w).vars.get? name =
      if name = w.name then some w.value else t'.vars.get? name := by
    intro name
    rw [Variables.get?, Tree.put, values_publish, OrderedMap.get?_insert, hvars]
    rfl
  constructor
  case coherent => exact (ho.coherent.mark w).publish w.name w.value
  case entities =>
    intro h
    rw [entity?_put ho.coherent]
    rcases rel_cases (ho.entities h) with ⟨he, he'⟩ | ⟨e, e', he, he', hover⟩
    · rw [he, he']
      exact .none
    · have hw := hnames w List.mem_cons_self
      have hapart : ∀ v ∈ ws, v.Targets h → ¬ w.Targets h := fun v hv =>
        (hnames v (List.mem_cons_of_mem w hv)).apart hw (hfresh v hv)
      rw [he, he']
      exact .some (hover.put hfresh hapart (ho.others w.name hfresh))
  case written =>
    intro v hv
    rw [hget]
    rcases List.mem_cons.mp hv with rfl | hv
    · exact if_pos rfl
    · rw [if_neg (hfresh v hv), ho.written v hv]
  case others =>
    intro name hn
    rw [hget, if_neg (hn w List.mem_cons_self).symm]
    exact ho.others name fun v hv => hn v (List.mem_cons_of_mem w hv)
  case order =>
    obtain ⟨new, hkeys, hnew⟩ := ho.order
    have hnot : w.name ∉ new := by
      intro hm
      obtain ⟨v, hv, hname⟩ := List.mem_map.mp (List.mem_filter.mp (hnew.mem_iff.mp hm)).1
      exact hfresh v hv hname
    rw [Tree.put, values_publish, OrderedMap.keys_insert, hvars, hkeys]
    by_cases hm : w.name ∈ t.vars.values.keys
    · refine ⟨new, if_pos (List.mem_append_left new hm), ?_⟩
      simpa [hm] using hnew
    · refine ⟨new ++ [w.name], ?_, ?_⟩
      · rw [if_neg (by simp [hm, hnot]), List.append_assoc]
      · rw [List.map_cons, List.filter_cons_of_pos (by simpa using hm)]
        exact (List.perm_append_singleton w.name new).trans (hnew.cons w.name)
  case watchers => rw [Tree.put, watchers_publish, hvars, ho.watchers]
  case next => rw [Tree.put, next_publish, hnext, ho.next]
  case place => exact ⟨hroot.trans ho.place.1, horigin.trans ho.place.2⟩

theorem Overlaid.item {ws : List Write} (ho : t.Overlaid ws t') {id : ItemId} {item : Item}
    (hi : t.item? id = some item) :
    ∃ item', t'.item? id = some item' ∧ item'.name = item.name ∧ item'.kind = item.kind := by
  have he := entity?_eq_item.mpr hi
  rcases rel_cases (ho.entities (.item id)) with ⟨hnone, -⟩ | ⟨e, e', he', hsome, hover⟩
  · cases he.symm.trans hnone
  · cases he.symm.trans he'
    obtain ⟨item', hi', rfl⟩ := Option.map_eq_some_iff.mp hsome
    have hcore := Entity.item.inj hover.core
    have hname := congrArg Item.name hcore
    have hkind := congrArg Item.kind hcore
    exact ⟨item', hi', hname, hkind⟩

/-- The same tree, but for the order in which names came up since another tree. -/
structure Agrees (t t₁ t₂ : Tree) : Prop where
  values : t₁.vars.values.entries.Perm t₂.vars.values.entries
  order : ∃ new₁ new₂, t₁.vars.values.keys = t.vars.values.keys ++ new₁ ∧
    t₂.vars.values.keys = t.vars.values.keys ++ new₂ ∧ new₁.Perm new₂
  watchers : t₁.vars.watchers = t₂.vars.watchers
  entities : ∀ h, Option.Rel Entity.Agrees (t₁.entity? h) (t₂.entity? h)
  paths : ∀ b : Binding, b.pathIn t₁.vars = b.pathIn t₂.vars
  next : t₁.arena.next = t₂.arena.next
  place : t₁.rootPath = t₂.rootPath ∧ t₁.origin = t₂.origin

theorem Overlaid.get?_eq {ws : List Write} {t₁ t₂ : Tree} (h₁ : t.Overlaid ws t₁)
    (h₂ : t.Overlaid ws t₂) (name : String) : t₁.vars.get? name = t₂.vars.get? name := by
  rcases Write.some_or_none ws (·.name = name) with ⟨w, hw, rfl⟩ | hk
  · rw [h₁.written w hw, h₂.written w hw]
  · rw [h₁.others name hk, h₂.others name hk]

/-- What was written tells the tree, up to the order. -/
theorem Overlaid.agrees {ws : List Write} {t₁ t₂ : Tree} (h₁ : t.Overlaid ws t₁)
    (h₂ : t.Overlaid ws t₂) : t.Agrees t₁ t₂ := by
  have hget := h₁.get?_eq h₂
  constructor
  case values => exact OrderedMap.perm_entries hget
  case order =>
    obtain ⟨new₁, hkeys₁, hnew₁⟩ := h₁.order
    obtain ⟨new₂, hkeys₂, hnew₂⟩ := h₂.order
    exact ⟨new₁, new₂, hkeys₁, hkeys₂, hnew₁.trans hnew₂.symm⟩
  case watchers => rw [h₁.watchers, h₂.watchers]
  case entities =>
    intro h
    rcases rel_cases (h₁.entities h) with ⟨he, he₁⟩ | ⟨e, e₁, he, he₁, hover₁⟩ <;>
      rcases rel_cases (h₂.entities h) with ⟨he', he₂⟩ | ⟨e', e₂, he', he₂, hover₂⟩ <;>
      cases he.symm.trans he'
    · rw [he₁, he₂]
      exact .none
    · have hcurrent₁ := h₁.coherent.current h e₁ he₁
      have hcurrent₂ := h₂.coherent.current h e₂ he₂
      rw [he₁, he₂]
      exact .some (hover₁.agrees hover₂ hcurrent₁ hcurrent₂ hget)
  case paths =>
    intro b
    simp only [Binding.pathIn, hget]
  case next => rw [h₁.next, h₂.next]
  case place => exact ⟨h₁.place.1.trans h₂.place.1.symm, h₁.place.2.trans h₂.place.2.symm⟩

end Tree

/-! ## Assignments -/

/-- A variable is set, or an item is given a value. -/
inductive Assignment where
  | direct (name value : String)
  | answer (id : ItemId) (raw : String)

namespace Assignment

def run (t : Tree) : Assignment → Tree
  | direct name value => t.publish name value
  | answer id raw => (t.assign id raw).2

/-- What an assignment writes, if it is accepted. -/
def write? (t : Tree) : Assignment → Option Write
  | direct name value => some ⟨name, value, none⟩
  | answer id raw => do
    let item ← t.item? id
    let value ← (item.validate raw).toOption
    some ⟨item.name, value, some id⟩

variable {t t' : Tree} {w : Write}

theorem write?_answer {id : ItemId} {raw : String} (h : (answer id raw).write? t = some w) :
    ∃ item value, t.item? id = some item ∧ item.kind.accept raw = .ok value ∧
      w = ⟨item.name, value, some id⟩ := by
  obtain ⟨item, hi, h⟩ := Option.bind_eq_some_iff.mp h
  rw [Item.validate] at h
  cases ha : item.kind.accept raw with
  | error reason => simp [ha, Except.toOption] at h
  | ok value =>
    simp only [ha, Except.toOption, Option.bind_eq_bind, Option.bind_some, Option.some.injEq] at h
    exact ⟨item, value, hi, ha, h.symm⟩

theorem names_of_write? {a : Assignment} (h : a.write? t = some w) : t.Names w := by
  cases a with
  | direct name value =>
    obtain rfl := Option.some.inj h
    rintro id ⟨⟩
  | answer id raw =>
    obtain ⟨item, value, hi, -, rfl⟩ := write?_answer h
    rintro _ ⟨⟩
    exact ⟨item, hi, rfl⟩

theorem run_of_write? {ws : List Write} (ho : t.Overlaid ws t') {a : Assignment}
    (h : a.write? t = some w) : a.run t' = t'.put w := by
  cases a with
  | direct name value =>
    obtain rfl := Option.some.inj h
    rfl
  | answer id raw =>
    obtain ⟨item, value, hi, ha, rfl⟩ := write?_answer h
    obtain ⟨item', hi', hname, hkind⟩ := ho.item hi
    rw [← hkind] at ha
    rw [run, Tree.assign_of_accepted hi' ha, ← hname, Tree.put_of_item hi']

end Assignment

namespace Tree

variable {t t' : Tree}

def perform (t : Tree) (as : List Assignment) : Tree := as.foldl Assignment.run t

/-- Whatever was written before, accepted assignments write what they would write at the start. -/
theorem overlaid_perform {as : List Assignment} {ws : List Write} (ho : t.Overlaid ws t')
    (hnames : ∀ v ∈ ws, t.Names v) (haccepted : ∀ a ∈ as, (a.write? t).isSome = true)
    (hdistinct : ((as.filterMap (·.write? t) ++ ws).map Write.name).Nodup) :
    t.Overlaid (as.filterMap (·.write? t) ++ ws) (t'.perform as) := by
  induction as generalizing ws t' with
  | nil => exact ho
  | cons a as ih =>
    obtain ⟨w, hw⟩ := Option.isSome_iff_exists.mp (haccepted a List.mem_cons_self)
    rw [List.filterMap_cons_some hw, List.cons_append] at hdistinct ⊢
    have hmiddle : (as.filterMap (·.write? t) ++ w :: ws).Perm
        (w :: (as.filterMap (·.write? t) ++ ws)) := List.perm_middle
    have hfresh : ∀ v ∈ ws, v.name ≠ w.name := by
      intro v hv heq
      refine (List.nodup_cons.mp hdistinct).1 ?_
      exact List.mem_map.mpr ⟨v, List.mem_append_right _ hv, heq⟩
    have hnamed : ∀ v ∈ w :: ws, t.Names v :=
      List.forall_mem_cons.mpr ⟨Assignment.names_of_write? hw, hnames⟩
    have hput : t.Overlaid (w :: ws) (a.run t') := by
      rw [Assignment.run_of_write? ho hw]
      exact ho.put hnamed hfresh
    have hrest := ih hput hnamed (fun b hb => haccepted b (List.mem_cons_of_mem a hb))
      ((hmiddle.map Write.name).nodup_iff.mpr hdistinct)
    exact hrest.perm hmiddle

/-- Assignments that are accepted and write different names may come in any order. -/
theorem assignments_commute {t : Tree} (h : t.Reachable) {as bs : List Assignment}
    (hp : as.Perm bs) (haccepted : ∀ a ∈ as, (a.write? t).isSome = true)
    (hdistinct : ((as.filterMap (·.write? t)).map Write.name).Nodup) :
    t.Agrees (t.perform as) (t.perform bs) := by
  have overlaid : ∀ cs : List Assignment, cs.Perm as →
      t.Overlaid (cs.filterMap (·.write? t)) (t.perform cs) := by
    intro cs hcs
    have hnodup := ((hcs.filterMap (·.write? t)).map Write.name).nodup_iff.mpr hdistinct
    have hover := overlaid_perform (.refl h.coherent) (by rintro v ⟨⟩)
      (fun c hc => haccepted c (hcs.mem_iff.mp hc)) (by simpa using hnodup)
    simpa using hover
  have hwrites := hp.filterMap (·.write? t)
  exact (overlaid as (.refl as)).agrees ((overlaid bs hp.symm).perm hwrites.symm)

namespace Sample

def fresh : Tree := (planted.parse around root).2

theorem reachable_fresh : fresh.Reachable := .call (.plant _ _) (.parse around planted root)

def answers : List Assignment := [.direct "A" "y", .answer ⟨0⟩ "n", .direct "B" "z"]

end Sample

/-- The child's path depends on two of the variables, and the item is given its value before or
after it becomes visible. The names come up in the order in which they are written. -/
theorem assignments_commute_sample :
    Sample.fresh.Reachable ∧
      Sample.fresh.Agrees (Sample.fresh.perform Sample.answers)
        (Sample.fresh.perform Sample.answers.reverse) ∧
      (Sample.fresh.perform Sample.answers).vars.values.entries =
        [("A", "y"), ("F", "n"), ("B", "z")] ∧
      (Sample.fresh.perform Sample.answers.reverse).vars.values.entries =
        [("B", "z"), ("F", "n"), ("A", "y")] := by
  have hwrites : (∀ a ∈ Sample.answers, (a.write? Sample.fresh).isSome = true) ∧
      ((Sample.answers.filterMap (·.write? Sample.fresh)).map Write.name).Nodup := by
    decide +kernel
  refine ⟨Sample.reachable_fresh, ?_, by decide +kernel, by decide +kernel⟩
  exact assignments_commute Sample.reachable_fresh Sample.answers.reverse_perm.symm
    hwrites.1 hwrites.2

end Tree

end MakeConfig
