import MakeConfig.Proofs.Plain.Refinement
import MakeConfig.Proofs.Plain.Rereading
import MakeConfig.Proofs.Session.Repeats

/-! # Runs that stay below a node

A run from a node on touches what hangs below it, and nothing that it comes to is gone by then. Its
items and children are new, so what is done about one of them leaves the others alone.
-/

namespace MakeConfig

universe u

open Plain

namespace Session

open MakeConfig.Tree

variable {σ : Type u} {d : Dialog σ}

/-- A dialog fails for want of what a handle should stand for, about an item that is there. -/
def Disowns (d : Dialog σ) (k : Handle) (t : Tree) (dialog : σ) : Prop :=
  ∃ i item last before, t.item? i = some item ∧
    d.ask item last before = (.error (.stale k), dialog)

/-- A stretch of a run leaves alone what it is not meant to touch. If something was gone, it is the
dialog that says so. -/
structure Confined (d : Dialog σ) (touched : Handle → Prop) (t : Tree) (r : Except Error Unit)
    (t' : Tree) (dialog : σ) : Prop where
  reachable : t'.Reachable
  spares : t.Spares touched t'
  stale : ∀ k, r = .error (.stale k) → Disowns d k t' dialog

namespace Confined

variable {P Q R : Handle → Prop} {t t₁ t' : Tree} {r r₁ : Except Error Unit} {s s₁ s' : σ}

theorem unchanged (hr : t.Reachable) (hs : ∀ k, r = .error (.stale k) → Disowns d k t s) :
    Confined d P t r t s :=
  ⟨hr, .refl P t, hs⟩

theorem mono (h : Confined d P t r t' s') (hPQ : ∀ k, t.Issued k → P k → Q k) :
    Confined d Q t r t' s' :=
  ⟨h.reachable, h.spares.mono hPQ, h.stale⟩

theorem after (hs : t.Spares R t₁) (h : Confined d Q t₁ r t' s')
    (hQR : ∀ k, t.Issued k → Q k → R k) : Confined d R t r t' s' :=
  ⟨h.reachable, hs.after h.spares hQR, h.stale⟩

theorem andThen {first second : Step (Session σ)}
    (h : first.andThen second ⟨t, s⟩ = some (r, ⟨t', s'⟩))
    (hfirst : ∀ {r t' s'}, first ⟨t, s⟩ = some (r, ⟨t', s'⟩) → Confined d P t r t' s')
    (hsecond : ∀ {t₁ s₁ r t' s'}, first ⟨t, s⟩ = some (.ok (), ⟨t₁, s₁⟩) →
      second ⟨t₁, s₁⟩ = some (r, ⟨t', s'⟩) → Confined d Q t₁ r t' s')
    (hPR : ∀ k, t.Issued k → P k → R k) (hQR : ∀ k, t.Issued k → Q k → R k) :
    Confined d R t r t' s' := by
  unfold Step.andThen at h
  split at h
  · next m hm =>
    exact .after ((hfirst hm).spares.mono hPR) (hsecond hm h) hQR
  · exact (hfirst h).mono hPR

end Confined

/-! ## Items -/

section Items

variable {i : ItemId} {item : Item} {t t' : Tree} {r : Except Error Unit} {s s' : σ}

theorem confined_assign (hr : t.Reachable) (hi : t.item? i = some item) (raw : String) (s : σ) :
    Confined d (· = .item i) t (t.assign i raw).1 (t.assign i raw).2 s := by
  refine ⟨.call hr (.setUserValue t i raw), spares_assign hr.coherent i raw, fun k hk => ?_⟩
  rw [assign_of_item hi] at hk
  split at hk
  · cases hk
  · cases hk

theorem confined_adoptDefault (hr : t.Reachable) (hi : t.item? i = some item) (s : σ) :
    Confined d (· = .item i) t (t.adoptDefault i).1 (t.adoptDefault i).2 s := by
  simp only [adoptDefault, hi]
  cases item.default? with
  | none => exact .unchanged hr (by rintro k ⟨⟩)
  | some raw => exact confined_assign hr hi raw s

theorem confined_ask {steps : Nat} {last : Option Rejection} (hr : t.Reachable)
    (hi : t.item? i = some item) (h : ask d i steps last ⟨t, s⟩ = some (r, ⟨t', s'⟩)) :
    Confined d (· = .item i) t r t' s' := by
  induction steps generalizing last s with
  | zero => cases h
  | succ steps ih =>
    simp only [ask, hi] at h
    split at h
    · next e dialog hasked =>
      cases h
      refine .unchanged hr ?_
      rintro k ⟨rfl⟩
      exact ⟨i, item, last, s, hi, hasked⟩
    · next answer? dialog _ =>
      split at h
      · cases h
        exact .unchanged hr (by rintro k ⟨⟩)
      · next raw _ =>
        have hassign := confined_assign (d := d) hr hi raw dialog
        rw [assign_of_item hi] at h hassign
        cases ha : item.kind.accept raw with
        | error reason =>
          simp only [ha] at h
          split at h
          · exact ih h
          · cases h
            exact .unchanged hr (by rintro k ⟨⟩)
        | ok value =>
          simp only [ha] at h hassign
          cases h
          exact hassign

theorem confined_visit {steps : Nat} (hr : t.Reachable) (hlive : t.Live (.item i))
    (h : visit d steps i ⟨t, s⟩ = some (r, ⟨t', s'⟩)) : Confined d (· = .item i) t r t' s' := by
  obtain ⟨item, hi⟩ := live_item.mp hlive
  simp only [visit, hi] at h
  split at h
  · cases h
    exact .unchanged hr (by rintro k ⟨⟩)
  split at h
  · cases h
    exact confined_adoptDefault hr hi s
  · exact confined_ask hr hi h

end Items

/-! ## Nodes -/

theorem confined_each {ι : Type} (handle : ι → Handle) {P : Tree → ι → Prop}
    (hspares : ∀ {t t' Q i}, t.Spares Q t' → ¬ Q (handle i) → P t i → P t' i)
    {f : ι → Step (Session σ)}
    (hf : ∀ {i t t' s s' r}, t.Reachable → P t i → f i ⟨t, s⟩ = some (r, ⟨t', s'⟩) →
      Confined d (· = handle i) t r t' s')
    {is : List ι} (hn : (is.map handle).Nodup) {t t' : Tree} {s s' : σ} {r : Except Error Unit}
    (hr : t.Reachable) (hp : ∀ i ∈ is, P t i) (h : Step.each f is ⟨t, s⟩ = some (r, ⟨t', s'⟩)) :
    Confined d (· ∈ is.map handle) t r t' s' := by
  induction is generalizing t t' s s' r with
  | nil =>
    cases h
    exact .unchanged hr (by rintro k ⟨⟩)
  | cons i is ih =>
    obtain ⟨hnot, hn⟩ := List.nodup_cons.mp hn
    refine .andThen h (hf hr (hp i List.mem_cons_self)) (fun hhead hrest => ?_) ?_
      fun _ _ => List.mem_cons_of_mem _
    · have hfirst := hf hr (hp i List.mem_cons_self) hhead
      refine ih hn hfirst.reachable (fun j hj => ?_) hrest
      have hne : handle j ≠ handle i := fun he => hnot (he ▸ List.mem_map_of_mem hj)
      exact hspares hfirst.spares hne (hp j (List.mem_cons_of_mem i hj))
    · rintro k - rfl
      exact List.mem_cons_self

theorem from_awaits {t : Tree} {id : NodeId} {x : Site} (hx : t.Awaits id x) {k : Handle}
    (hk : t.From (.node id) k) : k = .node id := by
  obtain ⟨node, hn, -, hu⟩ := hx
  rcases Relation.ReflTransGen.cases_head hk with rfl | ⟨j, hj, -⟩
  · rfl
  · have hmem := (holds_node_iff hn).mp hj
    simp [Node.contents, hu, Contents.handles, Contents.empty] at hmem

theorem live_of_spares {t t' : Tree} {P : Handle → Prop} (hs : t.Spares P t') {h : Handle}
    (hp : ¬ P h) (hl : t.Live h) : t'.Live h := by
  obtain ⟨e, he⟩ := hl
  have hparts := parts?_of_spares hs (issued_of_entity? he) hp
  rw [live_iff, hparts, ← live_iff]
  exact ⟨e, he⟩

theorem confined_parse {around : Surroundings} {id : NodeId} {node : Node} {t t' : Tree}
    {r : Except Error Unit} {s s' : σ} (hr : t.Reachable) (hn : t.node? id = some node)
    (h : onTree (fun t => t.parse around id) ⟨t, s⟩ = some (r, ⟨t', s'⟩)) :
    Confined d (t.From (.node id)) t r t' s' := by
  have hparse : t.parse around id = (r, t') := onTree_eq_some h
  obtain ⟨hspares, hsound, -⟩ := hr.reads hn hparse
  exact ⟨calls_parse around id _ _ _ h hr, hspares, fun k hk => absurd rfl (hsound _ hk k)⟩

theorem confined_walk {steps : Nat} {children : NodeId → Step (Session σ)} {id : NodeId}
    {c : Contents} {t₀ t t' : Tree} {r : Except Error Unit} {s s' : σ} (hr : t.Reachable)
    (hc : t₀.Came id t c)
    (hbelow : ∀ {k t t' s s' r}, t.Reachable → (∃ x, t.Awaits k x) →
      children k ⟨t, s⟩ = some (r, ⟨t', s'⟩) → Confined d (· = .node k) t r t' s')
    (h : (Step.each (visit d steps) c.items).andThen (Step.each children c.children) ⟨t, s⟩ =
      some (r, ⟨t', s'⟩)) : Confined d (· ∈ c.handles) t r t' s' := by
  have hitems : ∀ {r t' s'}, Step.each (visit d steps) c.items ⟨t, s⟩ = some (r, ⟨t', s'⟩) →
      Confined d (· ∈ c.items.map Handle.item) t r t' s' :=
    confined_each Handle.item (P := fun t i => t.Live (.item i))
      (fun hs hp hl => live_of_spares hs hp hl) confined_visit hc.items.1 hr hc.items.2
  refine .andThen (Q := (· ∈ c.children.map Handle.node)) h hitems (fun hvisited hrest => ?_)
    (fun _ _ hk => c.items_sublist_handles.subset hk)
    fun _ _ hk => c.children_sublist_handles.subset hk
  have hvisits := hitems hvisited
  refine confined_each Handle.node (P := fun t k => ∃ x, t.Awaits k x)
    (fun hs hp hx => hx.imp fun _ hx => hs.awaits hx hp) hbelow hc.children.1 hvisits.reachable
    (fun k hk => ?_) hrest
  obtain ⟨x, hx⟩ := hc.children.2 k hk
  exact ⟨x, hvisits.spares.awaits hx (by simp)⟩

/-- A run touches what hangs below the node that it starts at. -/
theorem confined_configure {around : Surroundings} {steps : Nat} {id : NodeId} {node : Node}
    {t t' : Tree} {r : Except Error Unit} {s s' : σ} (hr : t.Reachable)
    (hn : t.node? id = some node)
    (h : configure around d steps id ⟨t, s⟩ = some (r, ⟨t', s'⟩)) :
    Confined d (t.From (.node id)) t r t' s' := by
  induction steps generalizing id node t t' r s s' with
  | zero => cases h
  | succ steps ih =>
    simp only [configure, hn] at h
    split at h
    · cases h
      exact .unchanged hr (by rintro k ⟨⟩)
    refine .andThen (Q := fun k => ¬ t.Issued k) h (confined_parse hr hn) (fun hread hwalk => ?_)
      (fun _ _ hk => hk) fun _ hi hk => absurd hi hk
    obtain ⟨-, -, hcame⟩ := hr.reads hn (onTree_eq_some hread)
    obtain ⟨c, hc⟩ := hcame rfl
    obtain ⟨node₁, file, hn₁, hp₁⟩ := hc.node
    rw [descend_of_node hn₁ hp₁] at hwalk
    have hwalked := confined_walk (calls_parse around id _ _ _ hread hr) hc
      (fun {k t t' s s' r} hr hx h => ?_) hwalk
    · exact hwalked.mono fun k _ hk => hc.fresh k hk
    · obtain ⟨x, child, hchild, hrest⟩ := hx
      exact (ih hr hchild h).mono fun _ _ hk => from_awaits ⟨child, hchild, hrest⟩ hk

/-! ## An example -/

namespace Below

def rootText : String :=
  "\x7b\"F\":\x7b\"type\":\"bool\",\"depend\":\x7b\"A\":\"y\"\x7d\x7d," ++
  "\"d\":\x7b\"type\":\"config\",\"path\":\"d.json\"\x7d\x7d"

def childText : String := "\x7b\"A\":\x7b\"type\":\"bool\"\x7d\x7d"

def around : Surroundings where
  files := ⟨⟨"/"⟩, [(["config.json"], .file rootText.toUTF8 false),
    (["d.json"], .file childText.toUTF8 false)]⟩
  environment := ⟨[], .checked⟩

def once : Tree := ((Tree.plant "config.json" ⟨"/"⟩).parse around Tree.root).2

def tree : Tree := (once.parse around ⟨1⟩).2

theorem reachable_tree : tree.Reachable :=
  .call (.call (.plant _ _) (.parse around _ Tree.root)) (.parse around once ⟨1⟩)

def script : Script := ⟨.ofList [("A", [some "y"])], [], false⟩

def run : Option (Except Error Unit × Session Script) :=
  configure around Script.dialog 2 ⟨1⟩ ⟨tree, script⟩

end Below

/-! ## Whole runs -/

/-- Wherever a run ends that started at a node of a reachable tree: only the dialog itself can have
said that something was gone, all that does not hang below the node is as it was, apart from what it
has seen of variables, and if the node is invisible nothing has happened. -/
theorem configure_confined {around : Surroundings} {steps : Nat} {id : NodeId} {node : Node}
    {t t' : Tree} {r : Except Error Unit} {s s' : σ} (hr : t.Reachable)
    (hn : t.node? id = some node)
    (h : configure around d steps id ⟨t, s⟩ = some (r, ⟨t', s'⟩)) :
    (∀ k, r = .error (.stale k) → ∃ i item last before, t'.item? i = some item ∧
      d.ask item last before = (.error (.stale k), s')) ∧
    (∀ k e, t.entity? k = some e → ¬ t.From (.node id) k →
      ∃ e', t'.entity? k = some e' ∧ e'.bare = e.bare) ∧
    (node.visible = false → r = .ok () ∧ t' = t ∧ s' = s) := by
  have hc := confined_configure hr hn h
  refine ⟨hc.stale, fun k e he hk => ?_, fun hv => ?_⟩
  · have hb := hc.spares.bare k (issued_of_entity? he) hk
    rw [he] at hb
    exact Option.map_eq_some_iff.mp hb
  · cases steps with
    | zero => cases h
    | succ steps =>
      simp only [configure, hn, hv, Bool.not_false, if_true] at h
      cases h
      exact ⟨rfl, rfl, rfl⟩

theorem configure_confined_below :
    Below.tree.Reachable ∧ ¬ Below.tree.From (.node ⟨1⟩) (.item ⟨0⟩) ∧
      ∃ t' s', Below.run = some (.ok (), ⟨t', s'⟩) ∧ t'.vars.get? "A" = some "y" ∧
        ∃ item item', Below.tree.item? ⟨0⟩ = some item ∧ t'.item? ⟨0⟩ = some item' ∧
          item'.bare = item.bare ∧ item.visible = false ∧ item'.visible = true := by
  have hnode : (Below.tree.node? ⟨1⟩).any (fun node => decide (.item ⟨0⟩ ∉
      Below.tree.handlesOf (Below.tree.arena.nodes.next + 1) node.contents)) = true := by
    decide +kernel
  obtain ⟨node, hn, hnot⟩ := Option.any_eq_true _ _ |>.mp hnode
  have hout : ¬ Below.tree.From (.node ⟨1⟩) (.item ⟨0⟩) := by
    rw [Below.reachable_tree.rising.from_node_iff hn]
    simpa using hnot
  have hitem : (Below.tree.item? ⟨0⟩).any (fun item => !item.visible) = true := by
    decide +kernel
  obtain ⟨item, hi, hinvisible⟩ := Option.any_eq_true _ _ |>.mp hitem
  have hrun : endsIn (fun s => decide (s.tree.vars.get? "A" = some "y") &&
      (s.tree.item? ⟨0⟩).any fun item => item.visible) Below.run = true := by
    decide +kernel
  obtain ⟨t', s', hs, hend⟩ := endsIn_iff.mp hrun
  obtain ⟨hvalue, hvisible⟩ := Bool.and_eq_true_iff.mp hend
  obtain ⟨item', hi', hvisible⟩ := Option.any_eq_true _ _ |>.mp hvisible
  obtain ⟨-, hothers, -⟩ := configure_confined Below.reachable_tree hn hs
  obtain ⟨e, he, hb⟩ := hothers (.item ⟨0⟩) (.item item) (entity?_eq_item.mpr hi) hout
  cases (entity?_eq_item.mpr hi').symm.trans he
  exact ⟨Below.reachable_tree, hout, t', s', hs, of_decide_eq_true hvalue, item, item', hi, hi',
    Entity.item.inj hb, by simpa using hinvisible, hvisible⟩

end Session

end MakeConfig
