import MakeConfig.Proofs.Tree.Entity

/-! # Reading step by step

What comes of one entry of a schema, and how a schema is taken in entry by entry. An entity is
let in under the next handle of its kind, which goes to the contents of the node that is read.
-/

namespace MakeConfig

theorem Item.ofSpec_cases {build : Build} {name typeName : String} {spec : ItemSpec} {item : Item}
    (h : ofSpec build name typeName spec = .ok item) :
    ∃ kind generates, kindOf build typeName spec = .ok kind ∧
      (spec.forced && isBlankDefault (spec.default?.bind defaultText?)) = false ∧
      derivations spec.generates = .ok generates ∧
      item = {
        name, kind, generates
        default? := spec.default?.bind defaultText?
        user? := none
        prompt := spec.prompt?.getD (usualPrompt name kind)
        help := spec.help?.getD usualHelp
        depends := spec.depends
        observed := ∅
        visible := spec.depends.isEmpty
        forced := spec.forced
        imports := spec.imports } := by
  unfold ofSpec define at h
  cases hk : kindOf build typeName spec with
  | error flaw => simp [hk, bind, Except.bind] at h
  | ok kind =>
    cases hf : spec.forced && isBlankDefault (spec.default?.bind defaultText?) with
    | true => simp [hk, hf, bind, Except.bind, throw, throwThe, MonadExceptOf.throw] at h
    | false =>
      cases hg : derivations spec.generates with
      | error flaw => simp [hk, hf, hg, bind, Except.bind] at h
      | ok generates =>
        simp only [hk, hf, hg, bind, Except.bind, pure, Except.pure, Bool.false_eq_true,
          if_false, Except.ok.injEq] at h
        exact ⟨kind, generates, rfl, rfl, rfl, h.symm⟩

namespace Contents

def handles (c : Contents) : List Handle :=
  c.items.map .item ++ c.children.map .node ++ c.recipes.map .recipe ++ c.repos.map .repo

def add (c : Contents) : Handle → Contents
  | .item id => { c with items := c.items ++ [id] }
  | .node id => { c with children := c.children ++ [id] }
  | .recipe id => { c with recipes := c.recipes ++ [id] }
  | .repo id => { c with repos := c.repos ++ [id] }

theorem handles_add (c : Contents) (h : Handle) : (c.add h).handles.Perm (h :: c.handles) := by
  rw [List.perm_iff_count]
  intro k
  cases h <;>
    simp only [add, handles, List.map_append, List.map_cons, List.map_nil, List.count_append,
      List.count_cons, List.count_nil] <;>
    omega

theorem items_sublist_handles (c : Contents) : (c.items.map Handle.item).Sublist c.handles := by
  simp only [handles, List.append_assoc]
  exact List.sublist_append_left _ _

theorem children_sublist_handles (c : Contents) :
    (c.children.map Handle.node).Sublist c.handles := by
  simp only [handles, List.append_assoc]
  exact (List.sublist_append_left _ _).trans (List.sublist_append_right _ _)

theorem nodup_items {c : Contents} (h : c.handles.Nodup) : (c.items.map Handle.item).Nodup :=
  h.sublist c.items_sublist_handles

theorem nodup_children {c : Contents} (h : c.handles.Nodup) :
    (c.children.map Handle.node).Nodup :=
  h.sublist c.children_sublist_handles

end Contents

namespace Intake

variable (environment : Environment) (base : Path) (known : OrderedMap String)

/-- The entity that comes of an entry, with the value that the environment has for it. -/
def arriving (s : Variables Handle) : String × Entry → Except Error (Entity × Option String)
  | (name, .item typeName spec) =>
    match Item.ofSpec environment.build name typeName spec with
    | .error e => .error e
    | .ok item =>
      match importedValue? environment item with
      | .error r => .error (.rejected r)
      | .ok value? => .ok (.item (item.refresh s), value?)
  | (name, .child spec) => .ok (.node (Node.construct name spec.path base spec.depends s), none)
  | (name, .recipe spec) => .ok (.recipe ⟨name, Binding.bind spec.path base known⟩, none)
  | (name, .repo spec) => .ok (.repo (Repo.ofSpec name spec base known), none)

/-- A value goes with the item that it was found for. -/
def found : Handle → Option String → List (ItemId × String)
  | .item id, some value => [(id, value)]
  | _, _ => []

@[simp] theorem found_none (h : Handle) : found h none = [] := by
  cases h <;> rfl

def receive (i : Intake) (e : Entity) (value? : Option String) : Intake where
  tree := i.tree.add e
  contents := i.contents.add (i.tree.handleFor e)
  imported := i.imported ++ found (i.tree.handleFor e) value?

theorem importedValue?_refresh {κ : Type} (item : Item) (s : Variables κ) :
    importedValue? environment (item.refresh s) = importedValue? environment item := rfl

theorem take_eq (i : Intake) (entry : String × Entry) :
    i.take environment base known entry =
      (arriving environment base known i.tree.vars entry).map fun p => i.receive p.1 p.2 := by
  obtain ⟨name, entry⟩ := entry
  cases entry with
  | item typeName spec =>
    simp only [take, takeItem, arriving, importedValue?_refresh]
    cases Item.ofSpec environment.build name typeName spec with
    | error e => rfl
    | ok item =>
      simp only
      cases importedValue? environment item with
      | error r => rfl
      | ok value? => cases value? <;> rfl
  | child spec =>
    simp only [take, arriving, Except.map, receive, found_none, List.append_nil]
    rfl
  | recipe spec =>
    simp only [take, arriving, Except.map, receive, found_none, List.append_nil]
    rfl
  | repo spec =>
    simp only [take, arriving, Except.map, receive, found_none, List.append_nil]
    rfl

/-- What holds before and is kept whenever an entity is let in holds where taking in ends. -/
theorem takeAll_invariant {P : Intake → Prop}
    (hr : ∀ i entry e value?, P i →
      arriving environment base known i.tree.vars entry = .ok (e, value?) → P (i.receive e value?))
    {i : Intake} (hi : P i) (schema : Schema) :
    P (i.takeAll environment base known schema).2 := by
  induction schema generalizing i with
  | nil => exact hi
  | cons entry schema ih =>
    rw [takeAll, take_eq]
    cases ha : arriving environment base known i.tree.vars entry with
    | error e => exact hi
    | ok p => exact ih (hr i entry p.1 p.2 hi ha)

end Intake

end MakeConfig
