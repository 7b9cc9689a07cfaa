import MakeConfig.Proofs.Plain.Refinement
import MakeConfig.Proofs.Plain.Rereading
import MakeConfig.Proofs.Session.Repeats
import MakeConfig.Proofs.Tree.Order

/-! # Replays

A run that ended well is repeated from the values that it left, by a dialog that gives each item its
saved value. The items are told apart by their names, so no two of them may have the same.
-/

namespace MakeConfig

universe u

open Plain

namespace Tree

/-- What came of reading a node that was not read yet. -/
structure Entered (t : Tree) (id : NodeId) (t' : Tree) (c : Contents) : Prop where
  leads : t.Leads (· = .node id) t'
  ready : t'.Ready
  node : ∃ node file, t'.node? id = some node ∧ node.parsed? = some ⟨file, c⟩
  fresh : ∀ h ∈ c.handles, ¬ t.Issued h
  items : (c.items.map Handle.item).Nodup ∧ ∀ i ∈ c.items, t'.Issued (.item i)
  children : (c.children.map Handle.node).Nodup ∧ ∀ k ∈ c.children, ∃ x, t'.Awaits k x

theorem Ready.parse {t t' : Tree} {id : NodeId} {x : Site} (hr : t.Ready) (hx : t.Awaits id x)
    {around : Surroundings} (h : t.parse around id = (.ok (), t')) :
    ∃ c, t.Entered id t' c := by
  have hreach : t'.Reachable := by
    have hcall := Call.parse around t id
    rw [h] at hcall
    exact .call hr.reachable hcall
  rcases parse_cases hr.reachable.coherent hx around with
    ⟨e, _, hp, -⟩ | ⟨file, sheet, opened, c, -, ho, hp⟩
  · cases h.symm.trans hp
  have hopened : opened.Named := hr.named.of_spares ho.values ho.spares (by simp)
  obtain ⟨hleads, hnamed⟩ := leads_assignAll ho.coherent hopened
    (findings around.environment (c.items.zip sheet.settings))
  have hcame := ho.came (findings around.environment (c.items.zip sheet.settings))
  rw [← hp, h] at hleads hnamed hcame
  refine ⟨c, {
    leads := ?_
    ready := ⟨hreach, hnamed⟩
    node := hcame.node
    fresh := hcame.fresh
    items := ⟨hcame.items.1, fun i hi => ?_⟩
    children := hcame.children }⟩
  · have hstart : t.Leads (· = .node id) opened := ⟨ho.spares, fun _ hn => ho.values ▸ hn⟩
    refine hstart.after hleads ?_
    rintro k hk ⟨p, hm, rfl⟩
    exact absurd hk (ho.fresh _ (by simp [Contents.handles, mem_of_mem_findings hm]))
  · obtain ⟨e, he⟩ := hcame.items.2 i hi
    exact issued_of_entity? he

end Tree

namespace Session

open MakeConfig.Tree

variable {σ : Type u} (saved : OrderedMap String)

variable {saved} in
theorem Repeats.andThen {P Q R : Handle → Prop} {t t₁ t₂ : Tree}
    {first second : Step (Session Unit)} (h : Repeats saved P t t₁ (first ⟨t, ()⟩))
    (h' : Repeats saved Q t₁ t₂ (second ⟨t₁, ()⟩)) (hP : ∀ k, t.Issued k → P k → R k)
    (hQ : ∀ k, t.Issued k → Q k → R k) (hapart : ∀ k, t₁.Issued k → Q k → t.Issued k ∧ ¬ P k) :
    Repeats saved R t t₂ (first.andThen second ⟨t, ()⟩) := by
  refine ⟨(h.leads.mono hP).after h'.leads hQ, h'.ready, fun last hl hsettles => ?_⟩
  have hmiddle : t₁.Leads (fun k => t.Issued k ∧ ¬ P k) last := by
    refine (h'.leads.mono hapart).trans (hl.mono ?_)
    exact fun k _ hk => ⟨hk.1, mt (hP k hk.1) hk.2⟩
  have hend : t₂.Leads (fun k => t₁.Issued k ∧ ¬ Q k) last :=
    hl.mono fun k _ hk => ⟨h.leads.issued k hk.1, mt (hQ k hk.1) hk.2⟩
  rw [Step.andThen_of_ok (h.again last hmiddle hsettles)]
  exact h'.again last hend hsettles

theorem repeats_each {ι : Type} (handle : ι → Handle) {P : Tree → ι → Prop}
    (hissued : ∀ {t i}, P t i → t.Issued (handle i))
    (hspares : ∀ {t t' Q i}, t.Spares Q t' → ¬ Q (handle i) → P t i → P t' i)
    {f : ι → Step (Session σ)} {g : ι → Step (Session Unit)}
    (hf : ∀ {i t t' s s'}, t.Ready → P t i → f i ⟨t, s⟩ = some (.ok (), ⟨t', s'⟩) →
      Repeats saved (· = handle i) t t' (g i ⟨t, ()⟩))
    {is : List ι} (hn : (is.map handle).Nodup) {t t' : Tree} {s s' : σ} (hr : t.Ready)
    (hp : ∀ i ∈ is, P t i) (h : Step.each f is ⟨t, s⟩ = some (.ok (), ⟨t', s'⟩)) :
    Repeats saved (· ∈ is.map handle) t t' (Step.each g is ⟨t, ()⟩) := by
  induction is generalizing t s with
  | nil =>
    cases h
    exact ⟨.refl _ _, hr, fun _ _ _ => rfl⟩
  | cons i is ih =>
    obtain ⟨hnot, hn⟩ := List.nodup_cons.mp hn
    obtain ⟨⟨t₁, s₁⟩, hfirst, hrest⟩ := Step.ok_of_andThen h
    have hhead := hf hr (hp i List.mem_cons_self) hfirst
    have hne : ∀ j ∈ is, handle j ≠ handle i := fun j hj he =>
      hnot (he ▸ List.mem_map_of_mem hj)
    have hpre : ∀ j ∈ is, P t₁ j := fun j hj =>
      hspares hhead.leads.toSpares (hne j hj) (hp j (List.mem_cons_of_mem i hj))
    have htail := ih hn hhead.ready hpre hrest
    refine hhead.andThen htail ?_ (fun _ _ => List.mem_cons_of_mem _) ?_
    · rintro k - rfl
      exact List.mem_cons_self
    · intro k _ hk
      obtain ⟨j, hj, rfl⟩ := List.mem_map.mp hk
      exact ⟨hissued (hp j (List.mem_cons_of_mem i hj)), hne j hj⟩

/-- A run through a node that is not read yet is repeated, with the same steps. -/
theorem repeats_configure {around : Surroundings} {d : Dialog σ} {steps : Nat} {id : NodeId}
    {t t' : Tree} {s s' : σ} (hr : t.Ready) (hx : ∃ x, t.Awaits id x)
    (h : configure around d steps id ⟨t, s⟩ = some (.ok (), ⟨t', s'⟩)) :
    Repeats saved (· = .node id) t t'
      (configure around (Dialog.replay saved Dialog.defaults) steps id ⟨t, ()⟩) := by
  induction steps generalizing id t t' s s' with
  | zero => cases h
  | succ steps ih =>
    obtain ⟨x, node, hn, hsite, hunread⟩ := hx
    simp only [configure, hn] at h ⊢
    split
    · next hv =>
      rw [if_pos hv] at h
      cases h
      exact ⟨.refl _ _, hr, fun _ _ _ => rfl⟩
    next hv =>
    rw [if_neg hv] at h
    obtain ⟨⟨t₁, s₁⟩, hread, hwalk⟩ := Step.ok_of_andThen h
    have hparse : t.parse around id = (.ok (), t₁) := onTree_eq_some hread
    obtain ⟨c, he⟩ := hr.parse ⟨node, hn, hsite, hunread⟩ hparse
    obtain ⟨node₁, file, hn₁, hp₁⟩ := he.node
    rw [descend_of_node hn₁ hp₁] at hwalk
    obtain ⟨⟨t₂, s₂⟩, hitems, hchildren⟩ := Step.ok_of_andThen hwalk
    have hvisits := repeats_each saved Handle.item (P := fun t i => t.Issued (.item i))
      (fun h => h) (fun hs _ h => hs.issued _ h) (fun hr _ h => repeats_visit hr h)
      he.items.1 he.ready he.items.2 hitems
    have hawait : ∀ k ∈ c.children, ∃ x, t₂.Awaits k x := fun k hk => by
      obtain ⟨y, hy⟩ := he.children.2 k hk
      exact ⟨y, hvisits.leads.toSpares.awaits hy (by simp)⟩
    have hbelow := repeats_each saved Handle.node (P := fun t k => ∃ x, t.Awaits k x)
      (fun hx => hx.elim fun _ hy => hy.issued)
      (fun hs hp hx => hx.imp fun _ hy => hs.awaits hy hp) (fun hr hx h => ih hr hx h)
      he.children.1 hvisits.ready hawait hchildren
    have hwalked := hvisits.andThen (R := (· ∈ c.handles)) hbelow
      (fun _ _ hk => c.items_sublist_handles.subset hk)
      (fun _ _ hk => c.children_sublist_handles.subset hk)
      fun k _ hk => by
        obtain ⟨child, hchild, rfl⟩ := List.mem_map.mp hk
        obtain ⟨y, hy⟩ := he.children.2 child hchild
        exact ⟨hy.issued, by simp⟩
    refine ⟨?_, hwalked.ready, fun last hl hsettles => ?_⟩
    · exact he.leads.after hwalked.leads fun k hk hm => absurd hk (he.fresh k hm)
    · have hsame : onTree (σ := Unit) (fun t => t.parse around id) ⟨t, ()⟩ =
          some (.ok (), ⟨t₁, ()⟩) := by
        rw [onTree, hparse]
      rw [Step.andThen_of_ok hsame, descend_of_node hn₁ hp₁]
      refine hwalked.again last (hl.mono fun k _ hk => ?_) hsettles
      exact ⟨he.leads.issued k hk.1, fun hm => he.fresh k hm hk.1⟩

end Session

/-! ## The end of a run -/

namespace Tree

variable {t : Tree}

theorem Owned.eq_of_name (ho : t.Owned fun _ => False) (hr : t.Rising)
    (hn : (t.items.map Item.name).Nodup) {i j : ItemId} {item item' : Item}
    (hi : t.item? i = some item) (hj : t.item? j = some item') (he : item.name = item'.name) :
    i = j := by
  have hmem : ∀ {k : ItemId} {x : Item}, t.item? k = some x → k ∈ t.gather Contents.items :=
    fun hk => (mem_gather_iff ho hr lists_items).mpr ⟨_, entity?_eq_item.mpr hk⟩
  have horder := ho.items_in_order
  obtain ⟨m, hm, rfl⟩ := List.mem_iff_getElem.mp (hmem hi)
  obtain ⟨n, hn', rfl⟩ := List.mem_iff_getElem.mp (hmem hj)
  have hlength := horder.length_eq
  have hfirst := horder.get hm (hlength ▸ hm)
  have hsecond := horder.get hn' (hlength ▸ hn')
  simp only [List.get_eq_getElem] at hfirst hsecond
  have hitem := Option.some.inj (hi.symm.trans hfirst)
  have hitem' := Option.some.inj (hj.symm.trans hsecond)
  have hm' : m < (t.items.map Item.name).length := by simpa [← hlength] using hm
  have hn'' : n < (t.items.map Item.name).length := by simpa [← hlength] using hn'
  have hnames : (t.items.map Item.name)[m] = (t.items.map Item.name)[n] := by
    rw [List.getElem_map, List.getElem_map, ← hitem, ← hitem', he]
  obtain rfl : m = n := hn.getElem_inj_iff.mp hnames
  rfl

/-- What a run has left in the variables is what its items were given. -/
theorem Ready.settles (h : t.Ready) (hn : (t.items.map Item.name).Nodup) :
    t.Settles t.vars.values := by
  have hown : ∀ {id : ItemId} {item : Item} {value : String}, t.item? id = some item →
      t.vars.get? item.name = some value → item.user? = some value := by
    intro id item value hi hget
    obtain ⟨j, item', hj, hname, huser⟩ := h.named _ _ hget
    obtain rfl := h.reachable.owned.eq_of_name h.reachable.rising hn hi hj hname.symm
    cases hi.symm.trans hj
    exact huser
  refine ⟨fun _ hk => hk, fun id item value hi hu hk => ?_, fun id item hi hu => ?_⟩
  · obtain ⟨value', hget⟩ := Option.isSome_iff_exists.mp ((t.vars.values.isSome_get? _).mpr hk)
    cases hu.symm.trans (hown hi hget)
    exact hget
  · cases hget : t.vars.values.get? item.name with
    | none => rfl
    | some value => cases hu.symm.trans (hown hi hget)

theorem ready_plant (rootPath : String) (origin : Path) : (plant rootPath origin).Ready := by
  refine ⟨.plant rootPath origin, fun name value hget => ?_⟩
  rw [Variables.get?, values_plant] at hget
  cases hget

end Tree

/-! ## Generated entries -/

/-- A derivation that takes nothing from outside the configuration. -/
def Derivation.isFixed : Derivation → Bool
  | self => true
  | convert _ => true
  | random _ => false
  | now => false

theorem Item.generated_of_fixed {item : Item}
    (h : ∀ entry ∈ item.generates.entries, entry.2.isFixed = true) (build : Build)
    (ambient ambient' : Ambient) (place place' : Nat) :
    item.generated build ambient place = item.generated build ambient' place' := by
  unfold generated
  split
  · rfl
  · apply mapM_zipIdx_congr
    rintro ⟨key, derivation⟩ hentry i j
    have hfixed := h _ hentry
    cases derivation with
    | self => rfl
    | convert conversion => rfl
    | random bytes => cases hfixed
    | now => cases hfixed

theorem Tree.generatedFrom_of_fixed {items : List Item}
    (h : ∀ item ∈ items, ∀ entry ∈ item.generates.entries, entry.2.isFixed = true)
    (build : Build) (ambient ambient' : Ambient) (place place' : Nat) :
    generatedFrom build ambient place items = generatedFrom build ambient' place' items := by
  induction items generalizing place place' with
  | nil => rfl
  | cons item items ih =>
    have hrest := ih fun other ho => h other (List.mem_cons_of_mem item ho)
    rw [generatedFrom, generatedFrom,
      item.generated_of_fixed (h item List.mem_cons_self) build ambient ambient' place place']
    cases item.generated build ambient' place' with
    | error e => rfl
    | ok first => simp only [bind, Except.bind, hrest (place + first.length) (place' + first.length)]

/-! ## Replays -/

namespace Session

namespace Saved

def schemaText : String :=
  "\x7b\"M\":\x7b\"type\":\"enum\",\"enum\":[\"fast\",\"safe\"]\x7d," ++
  "\"N\":\x7b\"type\":\"int\",\"default\":7\x7d\x7d"

def around : Surroundings where
  files := ⟨⟨"/"⟩, [(["config.json"], .file schemaText.toUTF8 false)]⟩
  environment := ⟨[], .checked⟩

def script : Script := ⟨.ofList [("M", [some "x", some "1"])], [], true⟩

def run : Option (Except Error Unit × Session Script) :=
  configure around Script.dialog 3 Tree.root ⟨Tree.plant "config.json" ⟨"/"⟩, script⟩

end Saved

/-- A run that ended well, without two items of the same name, is repeated from the values that it
left: a replay ends in the very same tree. So both generate the same, unless that is random or takes
the time. -/
theorem replay_repeats {σ : Type u} (d : Dialog σ) (around : Surroundings) (steps : Nat)
    (rootPath : String) (origin : Path) {start finish : σ} {t : Tree}
    (h : configure around d steps Tree.root ⟨Tree.plant rootPath origin, start⟩ =
      some (.ok (), ⟨t, finish⟩))
    (hn : (t.items.map Item.name).Nodup) :
    configure around (Dialog.replay t.vars.values Dialog.defaults) steps Tree.root
        ⟨Tree.plant rootPath origin, ()⟩ = some (.ok (), ⟨t, ()⟩) ∧
      ((∀ item ∈ t.items, ∀ entry ∈ item.generates.entries, entry.2.isFixed = true) →
        ∀ build ambient ambient', t.generated build ambient = t.generated build ambient') := by
  constructor
  · have hrun := repeats_configure t.vars.values (Tree.ready_plant rootPath origin)
      ⟨_, Tree.awaits_plant rootPath origin⟩ h
    exact hrun.again t (.refl _ _) (hrun.ready.settles hn)
  · intro hfixed build ambient ambient'
    exact Tree.generatedFrom_of_fixed hfixed build ambient ambient' 0 0

theorem replay_repeats_saved :
    ∃ t finish, Saved.run = some (.ok (), ⟨t, finish⟩) ∧
      t.vars.values.entries = [("M", "safe"), ("N", "7")] ∧
      (t.items.map Item.name).Nodup ∧
      configure Saved.around (Dialog.replay t.vars.values Dialog.defaults) 3 Tree.root
        ⟨Tree.plant "config.json" ⟨"/"⟩, ()⟩ = some (.ok (), ⟨t, ()⟩) := by
  have hrun : endsIn (fun s => decide (s.tree.vars.values.entries = [("M", "safe"), ("N", "7")] ∧
      (s.tree.items.map Item.name).Nodup)) Saved.run = true := by
    decide +kernel
  obtain ⟨t, finish, hs, hend⟩ := endsIn_iff.mp hrun
  obtain ⟨hvalues, hnames⟩ := of_decide_eq_true hend
  obtain ⟨hreplay, -⟩ := replay_repeats _ _ _ _ _ hs hnames
  exact ⟨t, finish, hs, hvalues, hnames, hreplay⟩

end Session

end MakeConfig
