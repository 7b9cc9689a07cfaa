import MakeConfig.Proofs.Plain.Reading
import MakeConfig.Proofs.Tree.Ownership

/-! # Reading a node again

What was read at a node is forgotten before its schema is taken in. So a node that was read before
is read as if it had not been, and nothing is touched but the node and what hung below it.
-/

namespace MakeConfig

open Plain

/-! ## Failures -/

/-- A failure that is not for want of what a handle should stand for. -/
def Error.Sound (e : Error) : Prop := ∀ k, e ≠ .stale k

theorem Flaw.sound_error (item : String) (flaw : Flaw) : (flaw.error item).Sound := by
  cases flaw <;> rintro k ⟨⟩

theorem Schema.sound_of_ofFields {origin : Path} {fields : List (String × Json)} {e : Error}
    (h : ofFields origin fields = .error e) : e.Sound := by
  induction fields with
  | nil => cases h
  | cons field fields ih =>
    unfold ofFields at h
    split at h
    · cases h
      rintro k ⟨⟩
    · exact ih h
    · cases hrest : ofFields origin fields with
      | error d =>
        simp only [hrest, bind, Except.bind] at h
        exact ih (hrest.trans h)
      | ok rest => simp [hrest, bind, Except.bind, pure, Except.pure] at h

theorem Schema.sound_of_load {files : FileSystem} {path : Path} {e : Error}
    (h : load files path = .error e) : e.Sound := by
  unfold load FileSystem.read at h
  split at h
  · split at h
    · cases h
      rintro k ⟨⟩
    · simp only [bind, Except.bind, ofText] at h
      split at h
      · cases h
        rintro k ⟨⟩
      · exact sound_of_ofFields h
  · cases h
    rintro k ⟨⟩

theorem Plain.Sheet.sound_of_addAll {environment : Environment} {base : Path} {sheet : Sheet}
    {schema : Schema} {e : Error} (h : sheet.addAll environment base schema = .error e) :
    e.Sound := by
  induction schema generalizing sheet with
  | nil => cases h
  | cons entry schema ih =>
    unfold addAll at h
    split at h
    · next d hd =>
      obtain rfl : d = e := Except.error.inj h
      obtain ⟨name, entry⟩ := entry
      cases entry with
      | item typeName spec =>
        simp only [Part.ofEntry] at hd
        split at hd
        · next hspec =>
          cases hd
          unfold Item.ofSpec at hspec
          split at hspec
          · cases hspec
          · cases hspec
            exact Flaw.sound_error _ _
        · split at hd
          · cases hd
            rintro k ⟨⟩
          · cases hd
      | child spec => cases hd
      | recipe spec => cases hd
      | repo spec => cases hd
    · exact ih h

theorem Plain.Site.sound_of_read {around : Surroundings} {values : OrderedMap String} {x : Site}
    {e : Error} (h : x.read around values = .error e) : e.Sound := by
  unfold read at h
  dsimp only at h
  split at h
  · next hl =>
    cases h
    exact Schema.sound_of_load hl
  · next schema _ =>
    cases hs : Sheet.empty.addAll around.environment
        ((x.path.file values).parent?.getD ⟨""⟩) schema with
    | error d =>
      rw [hs] at h
      cases h
      exact Sheet.sound_of_addAll hs
    | ok sheet =>
      rw [hs] at h
      cases h

namespace Tree

variable {t t' : Tree} {id : NodeId}

theorem live_item {i : ItemId} : t.Live (.item i) ↔ ∃ item, t.item? i = some item := by
  simp [Live, entity?_item, Option.map_eq_some_iff]

theorem sound_of_assignAll (hc : t.Coherent) {values : List (ItemId × String)}
    (hlive : ∀ p ∈ values, t.Live (.item p.1)) {e : Error}
    (h : (t.assignAll values).1 = .error e) : e.Sound := by
  induction values generalizing t with
  | nil => cases h
  | cons value values ih =>
    obtain ⟨item, hi⟩ := live_item.mp (hlive value List.mem_cons_self)
    have hcoherent := hc.assign value.1 value.2
    have hparts := parts?_assign hc value.1 value.2
    unfold assignAll at h
    split at h
    · next t' heq =>
      rw [heq] at hcoherent hparts
      exact ih hcoherent (fun p hp => (live_congr hparts).mpr
        (hlive p (List.mem_cons_of_mem value hp))) h
    · rw [assign_of_item hi] at h
      split at h
      · cases h
        rintro k ⟨⟩
      · cases h

/-! ## Contents -/

theorem mem_of_mem_findings {environment : Environment} {ids : List ItemId} {xs : List Setting}
    {p : ItemId × String} (h : p ∈ findings environment (ids.zip xs)) : p.1 ∈ ids := by
  obtain ⟨q, hq, hp⟩ := List.mem_filterMap.mp h
  obtain ⟨value, -, rfl⟩ := Option.map_eq_some_iff.mp hp
  exact (List.of_mem_zip hq).1

/-- What came of reading a node: contents that are new, with nothing read below them. -/
structure Came (t : Tree) (id : NodeId) (t' : Tree) (c : Contents) : Prop where
  node : ∃ node file, t'.node? id = some node ∧ node.parsed? = some ⟨file, c⟩
  fresh : ∀ h ∈ c.handles, ¬ t.Issued h
  items : (c.items.map Handle.item).Nodup ∧ ∀ i ∈ c.items, t'.Live (.item i)
  children : (c.children.map Handle.node).Nodup ∧ ∀ k ∈ c.children, ∃ x, t'.Awaits k x

theorem Opened.live {x : Site} {file : Path} {sheet : Sheet} {c : Contents}
    (ho : t.Opened id x file sheet t' c) : ∀ i ∈ c.items, t'.Live (.item i) := by
  intro i hi
  obtain ⟨y, -, hy⟩ := exists_of_forall₂ ho.shown.settings hi
  obtain ⟨item, hitem, -⟩ := (t'.part?_item i y).mp hy
  exact live_item.mpr ⟨item, hitem⟩

theorem Opened.came {x : Site} {file : Path} {sheet : Sheet} {c : Contents}
    (ho : t.Opened id x file sheet t' c) (values : List (ItemId × String)) :
    t.Came id (t'.assignAll values).2 c := by
  have hs := spares_assignAll ho.coherent values
  have hparts := parts?_assignAll ho.coherent values
  obtain ⟨node, hn, -, hp⟩ := ho.node
  obtain ⟨node', hn', hb⟩ := hs.node hn (by simp)
  refine ⟨⟨node', file, hn', (Node.parsed?_of_bare hb).trans hp⟩, ho.fresh,
    ⟨Contents.nodup_items ho.nodup, fun i hi => ?_⟩,
    ⟨Contents.nodup_children ho.nodup, fun k hk => ?_⟩⟩
  · exact (live_congr hparts).mpr (ho.live i hi)
  · obtain ⟨y, -, hy⟩ := exists_of_forall₂ ho.shown.sites hk
    exact ⟨y, hs.awaits hy (by simp)⟩

/-! ## Nodes that were read before -/

theorem Rising.spares_unread (hr : t.Rising) {node : Node} (hn : t.node? id = some node) :
    t.Spares (t.From (.node id)) (t.unread id) := by
  obtain ⟨gone, hgone, heq⟩ := hr.unread_eq hn
  rw [heq]
  refine ((spares_setParsed id none).mono ?_).trans ((spares_foldl_drop gone).mono ?_)
  · rintro k - rfl
    exact .refl
  · intro k _ hk
    exact ((hgone k).mp hk).to_reflTransGen

theorem Rising.parse_unread (hr : t.Rising) {node : Node} (hn : t.node? id = some node)
    {around : Surroundings} {schema : Schema}
    (hl : Schema.load around.files node.path.path = .ok schema) :
    t.parse around id = (t.unread id).parse around id := by
  have hn' := hr.node?_unread hn
  have hagain : (t.unread id).unread id = t.unread id := unread_of_awaits ⟨_, hn', rfl, rfl⟩
  simp only [Tree.parse, hn, hn', hl, Tree.populate, hagain]

/-- A reading touches what hangs below its node, and where it succeeds there are new contents. -/
theorem Reachable.reads (h : t.Reachable) {node : Node} (hn : t.node? id = some node)
    {around : Surroundings} {r : Except Error Unit} (hp : t.parse around id = (r, t')) :
    t.Spares (t.From (.node id)) t' ∧ (∀ e, r = .error e → e.Sound) ∧
      (r = .ok () → ∃ c, t.Came id t' c) := by
  cases hl : Schema.load around.files node.path.path with
  | error e =>
    simp only [Tree.parse, hn, hl] at hp
    cases hp
    refine ⟨.refl _ t, ?_, by rintro ⟨⟩⟩
    rintro _ ⟨rfl⟩
    exact Schema.sound_of_load hl
  | ok schema =>
    have hspares := h.rising.spares_unread hn
    have hx : (t.unread id).Awaits id _ := ⟨_, h.rising.node?_unread hn, rfl, rfl⟩
    rw [h.rising.parse_unread hn hl] at hp
    rcases parse_cases (h.coherent.unread id) hx around with
      ⟨e, t'', hfailed, hread, -, -, hs⟩ | ⟨file, sheet, opened, c, -, ho, hopened⟩
    · cases hfailed.symm.trans hp
      refine ⟨hspares.trans (hs.mono fun _ _ => False.elim), ?_, by rintro ⟨⟩⟩
      rintro _ ⟨rfl⟩
      exact Site.sound_of_read hread
    · rw [hopened] at hp
      have hitems : ∀ p ∈ findings around.environment (c.items.zip sheet.settings),
          p.1 ∈ c.items := fun p => mem_of_mem_findings
      generalize findings around.environment (c.items.zip sheet.settings) = values at hp hitems
      have hs := spares_assignAll ho.coherent values
      have hcame := ho.came values
      have hsound : ∀ e, (opened.assignAll values).1 = .error e → e.Sound := fun _ he =>
        sound_of_assignAll ho.coherent (fun p hm => ho.live _ (hitems p hm)) he
      rw [hp] at hs hcame hsound
      refine ⟨?_, hsound, fun _ => ⟨c, hcame.node, fun k hk => ?_, hcame.items,
        hcame.children⟩⟩
      · refine (hspares.trans (ho.spares.mono ?_)).after hs ?_
        · rintro k - rfl
          exact .refl
        · rintro k hk ⟨p, hm, rfl⟩
          have hfresh := ho.fresh (.item p.1) (by simp [Contents.handles, hitems p hm])
          exact absurd ((issued_unread t id _).mpr hk) hfresh
      · exact fun hi => hcame.fresh k hk ((issued_unread t id k).mpr hi)

end Tree

end MakeConfig
