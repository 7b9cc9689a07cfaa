import MakeConfig.Proofs.Plain.Visits

/-! # Reading in step

A node that is not read yet is read as its site is: the same file is found, and the contents of the
node are new handles that show the sheet, or both fail alike and nothing is touched.
-/

namespace MakeConfig

open Plain

namespace Plain.Sheet.Shown

variable {sheet : Sheet} {t t' : Tree} {c : Contents} {P : Handle → Prop}

theorem spares (h : sheet.Shown t c) (hs : t.Spares P t') (hp : ∀ k ∈ c.handles, ¬ P k) :
    sheet.Shown t' c := by
  have hi : ∀ id ∈ c.items, ¬ P (.item id) := fun id hm => hp _ (by simp [Contents.handles, hm])
  have hn : ∀ id ∈ c.children, ¬ P (.node id) := fun id hm =>
    hp _ (by simp [Contents.handles, hm])
  have hr : ∀ id ∈ c.recipes, ¬ P (.recipe id) := fun id hm =>
    hp _ (by simp [Contents.handles, hm])
  have ho : ∀ id ∈ c.repos, ¬ P (.repo id) := fun id hm => hp _ (by simp [Contents.handles, hm])
  constructor
  · have hm := (List.forall₂_and_left _ _).mpr ⟨hi, h.settings⟩
    exact hm.imp fun id x hx => hs.part? hx.2 hx.1
  · have hm := (List.forall₂_and_left _ _).mpr ⟨hn, h.sites⟩
    exact hm.imp fun id x hx => hs.awaits hx.2 hx.1
  · have hm := (List.forall₂_and_left _ _).mpr ⟨hr, h.makefiles⟩
    exact hm.imp fun id x hx => hs.part? hx.2 hx.1
  · have hm := (List.forall₂_and_left _ _).mpr ⟨ho, h.checkouts⟩
    exact hm.imp fun id x hx => hs.part? hx.2 hx.1

theorem receive {i : Intake} (h : sheet.Shown i.tree i.contents) {e : Entity}
    (value? : Option String) (hu : ∀ node, e = .node node → node.parsed? = none) :
    (sheet.add e.part).Shown (i.receive e value?).tree (i.receive e value?).contents := by
  have hkeep := h.spares (Tree.spares_add e) fun _ _ => not_false
  have he : (i.tree.add e).entity? (i.tree.handleFor e) = some e := by
    rw [Tree.entity?_add, if_pos rfl]
  have hp : (i.tree.add e).part? (i.tree.handleFor e) = some e.part := by
    rw [Tree.part?, he]
    rfl
  obtain ⟨hsettings, hsites, hmakefiles, hcheckouts⟩ := hkeep
  cases e with
  | item item =>
    exact ⟨List.rel_append hsettings (.cons hp .nil), hsites, hmakefiles, hcheckouts⟩
  | node node =>
    have hawaits : (i.tree.add (.node node)).Awaits _ node.site :=
      ⟨node, Tree.entity?_eq_node.mp he, rfl, hu node rfl⟩
    exact ⟨hsettings, List.rel_append hsites (.cons hawaits .nil), hmakefiles, hcheckouts⟩
  | recipe recipe =>
    exact ⟨hsettings, hsites, List.rel_append hmakefiles (.cons hp .nil), hcheckouts⟩
  | repo repo =>
    exact ⟨hsettings, hsites, hmakefiles, List.rel_append hcheckouts (.cons hp .nil)⟩

end Plain.Sheet.Shown

namespace Intake

variable {environment : Environment} {base : Path} {known : OrderedMap String}

theorem finding_of_arriving {s : Variables Handle} {entry : String × Entry} {item : Item}
    {value? : Option String}
    (h : arriving environment base known s entry = .ok (.item item, value?)) :
    item.plain.finding? environment = value? := by
  obtain ⟨name, entry⟩ := entry
  cases entry with
  | item typeName spec =>
    simp only [arriving] at h
    split at h
    · cases h
    · next accepted _ =>
      split at h
      · cases h
      · next hv =>
        cases h
        rw [← importedValue?_refresh environment accepted s] at hv
        rw [Setting.finding?, Item.found?_plain, hv]
        rfl
  | child spec => cases h
  | recipe spec => cases h
  | repo spec => cases h

/-- A schema that is being taken in, and the sheet that it is read into. -/
structure Follows (environment : Environment) (t : Tree) (i : Intake) (sheet : Sheet) : Prop
    extends i.Grown t where
  coherent : i.tree.Coherent
  values : i.tree.vars.values = t.vars.values
  shown : sheet.Shown i.tree i.contents
  imported : i.imported = findings environment (i.contents.items.zip sheet.settings)

theorem Follows.start {t : Tree} (hc : t.Coherent) :
    (Intake.mk t .empty []).Follows environment t Sheet.empty where
  toGrown := .start t
  coherent := hc
  values := rfl
  shown := ⟨.nil, .nil, .nil, .nil⟩
  imported := rfl

theorem Follows.receive {t : Tree} {i : Intake} {sheet : Sheet}
    (h : i.Follows environment t sheet) (hk : ∀ name ∈ known.keys, name ∈ t.vars.values.keys)
    {entry : String × Entry} {e : Entity} {value? : Option String}
    (ha : arriving environment base known i.tree.vars entry = .ok (e, value?)) :
    (i.receive e value?).Follows environment t (sheet.add e.part) := by
  have hcur := current_of_arriving (h.values ▸ hk) ha
  have hu : ∀ node, e = .node node → node.parsed? = none := by
    rintro node rfl
    exact unread_of_arriving ha
  refine {
    toGrown := h.toGrown.receive e value?
    coherent := h.coherent.add hcur
    values := (i.tree.vars.values_watchAll _ _).trans h.values
    shown := h.shown.receive value? hu
    imported := ?_ }
  cases e with
  | item item =>
    have hlength := h.shown.settings.length_eq
    have hfound := finding_of_arriving ha
    change i.imported ++ found (.item _) value? =
      findings environment ((i.contents.items ++ [_]).zip (sheet.settings ++ [item.plain]))
    rw [List.zip_append hlength, findings, List.filterMap_append, ← findings, ← h.imported]
    cases value? <;> simp [found, hfound]
  | node node => cases value? <;> exact (List.append_nil _).trans h.imported
  | recipe recipe => cases value? <;> exact (List.append_nil _).trans h.imported
  | repo repo => cases value? <;> exact (List.append_nil _).trans h.imported

/-- Schemas are taken in as sheets are filled, up to the same entry. -/
theorem takeAll_follows (base : Path) {t : Tree} {i : Intake} {sheet : Sheet}
    (h : i.Follows environment t sheet) (hk : ∀ name ∈ known.keys, name ∈ t.vars.values.keys)
    (schema : Schema) : ∃ i' sheet', i'.Follows environment t sheet' ∧
      ((∃ e, i.takeAll environment base known schema = (.error e, i') ∧
        sheet.addAll environment base schema = .error e) ∨
      (i.takeAll environment base known schema = (.ok (), i') ∧
        sheet.addAll environment base schema = .ok sheet')) := by
  induction schema generalizing i sheet with
  | nil => exact ⟨i, sheet, h, .inr ⟨rfl, rfl⟩⟩
  | cons entry schema ih =>
    rw [takeAll, take_eq, Sheet.addAll, ← part_arriving environment base known i.tree.vars]
    cases ha : arriving environment base known i.tree.vars entry with
    | error e => exact ⟨i, sheet, h, .inl ⟨e, rfl, rfl⟩⟩
    | ok p => exact ih (h.receive hk ha)

end Intake

namespace Tree

variable {t : Tree} {id : NodeId} {x : Site}

theorem mem_handlesOf {c : Contents}
    (hu : ∀ id ∈ c.children, ∃ node, t.node? id = some node ∧ node.parsed? = none) {depth : Nat}
    {h : Handle} (hm : h ∈ t.handlesOf depth c) : h ∈ c.handles := by
  have hempty : ∀ depth, t.handlesOf depth .empty = [] := by
    intro depth
    cases depth <;> rfl
  cases depth with
  | zero => cases hm
  | succ depth =>
    simp only [handlesOf, List.mem_append, List.mem_flatMap, List.mem_cons] at hm
    simp only [Contents.handles, List.mem_append]
    rcases hm with ((hm | hm) | hm) | ⟨id, hid, rfl | hm⟩
    · exact .inl (.inl (.inl hm))
    · exact .inl (.inr hm)
    · exact .inr hm
    · exact .inl (.inl (.inr (List.mem_map_of_mem hid)))
    · obtain ⟨node, hn, hp⟩ := hu id hid
      simp [hn, Node.contents, hp, hempty] at hm

theorem unread_of_awaits (hx : t.Awaits id x) : t.unread id = t := by
  obtain ⟨node, hn, -, hu⟩ := hx
  have hnode : { node with parsed? := none } = node := by
    rw [← hu]
  have hset : t.setParsed id none = t := by
    unfold setParsed
    rw [Slots.modify_of_get? hn hnode]
  have hcontents : node.contents = .empty := by simp [Node.contents, hu]
  simp only [unread, hn, hcontents]
  exact hset

/-- A node whose schema has just been taken in. -/
structure Opened (t : Tree) (id : NodeId) (x : Site) (file : Path) (sheet : Sheet) (t' : Tree)
    (c : Contents) : Prop where
  coherent : t'.Coherent
  values : t'.vars.values = t.vars.values
  spares : t.Spares (· = .node id) t'
  node : ∃ node, t'.node? id = some node ∧ node.site = x ∧ node.parsed? = some ⟨file, c⟩
  shown : sheet.Shown t' c
  fresh : ∀ h ∈ c.handles, ¬ t.Issued h
  nodup : c.handles.Nodup

theorem populate_cases (hc : t.Coherent) (hx : t.Awaits id x) {node : Node}
    (hn : t.node? id = some node) (environment : Environment) (file : Path) (schema : Schema) :
    (∃ e t', t.populate environment id node file schema = (.error e, t') ∧
      Sheet.empty.addAll environment (file.parent?.getD ⟨""⟩) schema = .error e ∧
      t'.Coherent ∧ t'.vars.values = t.vars.values ∧ t.Spares (fun _ => False) t') ∨
    ∃ sheet t' c, Sheet.empty.addAll environment (file.parent?.getD ⟨""⟩) schema = .ok sheet ∧
      t.Opened id x file sheet t' c ∧
      t.populate environment id node file schema =
        t'.assignAll (findings environment (c.items.zip sheet.settings)) := by
  have hcur := hc.node hn
  have hstart : (Intake.mk (t.unread id) .empty []).Follows environment t Sheet.empty := by
    rw [unread_of_awaits hx]
    exact .start hc
  obtain ⟨i, sheet, hi, ⟨e, hr, hs⟩ | ⟨hr, hs⟩⟩ := Intake.takeAll_follows
    (file.parent?.getD ⟨""⟩) hstart hcur.known schema
  · refine .inl ⟨e, i.tree.release i.contents, ?_, hs, hi.coherent.release _, ?_, ?_⟩
    · simp only [populate, hr]
    · exact (values_foldl_drop _ _).trans hi.values
    · have hunread : ∀ id ∈ i.contents.children, ∃ node, i.tree.node? id = some node ∧
          node.parsed? = none := by
        refine forall_of_forall₂ (hi.shown.sites.imp ?_)
        rintro id y ⟨node, hn, -, hu⟩
        exact ⟨node, hn, hu⟩
      have hdropped := spares_foldl_drop (t := i.tree)
        (i.tree.handlesOf (i.tree.arena.nodes.next + 1) i.contents)
      refine ((hi.spares.mono fun _ _ => False.elim).trans hdropped).mono fun k hk hm => ?_
      exact hi.fresh k (mem_handlesOf hunread hm) hk
  · refine .inr ⟨sheet, i.tree.setParsed id (some ⟨file, i.contents⟩), i.contents, hs, ?_, ?_⟩
    · obtain ⟨node₀, hn₀, hsite, -⟩ := hx
      obtain rfl : node₀ = node := Option.some.inj (hn₀.symm.trans hn)
      have hid := issued_of_node hn
      obtain ⟨node', hn', hb⟩ := hi.spares.node hn not_false
      have hset := spares_setParsed (t := i.tree) id (some ⟨file, i.contents⟩)
      exact {
        coherent := hi.coherent.setParsed id _
        values := hi.values
        spares := (hi.spares.mono fun _ _ => False.elim).trans hset
        node := ⟨_, node?_setParsed hn' _, (Node.site_of_bare hb).trans hsite, rfl⟩
        shown := hi.shown.spares hset fun k hk he => hi.fresh k hk (he ▸ hid)
        fresh := hi.fresh
        nodup := hi.nodup }
    · simp only [populate, hr, hi.imported]

/-- Reading a node and reading its site fail alike, or both give the same. -/
theorem parse_cases (hc : t.Coherent) (hx : t.Awaits id x) (around : Surroundings) :
    (∃ e t', t.parse around id = (.error e, t') ∧ x.read around t.vars.values = .error e ∧
      t'.Coherent ∧ t'.vars.values = t.vars.values ∧ t.Spares (fun _ => False) t') ∨
    ∃ file sheet t' c, x.read around t.vars.values = .ok (file, sheet) ∧
      t.Opened id x file sheet t' c ∧
      t.parse around id =
        t'.assignAll (findings around.environment (c.items.zip sheet.settings)) := by
  have hx' := hx
  obtain ⟨node, hn, hsite, -⟩ := hx'
  have hfile : x.path.file t.vars.values = node.path.path := by
    rw [← hsite]
    exact (hc.node hn).path.path_eq.symm
  unfold Tree.parse Site.read
  rw [hn, hfile]
  dsimp only
  cases Schema.load around.files node.path.path with
  | error e => exact .inl ⟨e, t, rfl, rfl, hc, rfl, .refl _ t⟩
  | ok schema =>
    rcases populate_cases hc hx hn around.environment node.path.path schema with
      ⟨e, t', hp, hs, hrest⟩ | ⟨sheet, t', c, hs, hrest⟩
    · exact .inl ⟨e, t', hp, congrArg (Except.map (node.path.path, ·)) hs, hrest⟩
    · exact .inr ⟨_, sheet, t', c, congrArg (Except.map (node.path.path, ·)) hs, hrest⟩

end Tree

end MakeConfig
