import MakeConfig.Proofs.Session.Answers
import MakeConfig.Proofs.Session.Repeats
import MakeConfig.Proofs.Tree.Valued

/-! # Questions that are left unanswered

An item that was given a value and gets no answer is given its value once more, as if it had been
the answer. That keeps the value wherever the item accepts its own value as it stands.
-/

namespace MakeConfig

universe u

open Numeral

namespace Session

variable {σ : Type u} {around : Surroundings} {d : Dialog σ}

/-- A visible node is read, and this is what it gave. -/
structure Enters (around : Surroundings) (id : NodeId) (s s' : Session σ) (c : Contents) : Prop where
  visible : ∃ node, s.tree.node? id = some node ∧ node.visible = true
  read : onTree (fun t => t.parse around id) s = some (.ok (), s')
  contents : ∃ node, s'.tree.node? id = some node ∧ node.contents = c

theorem Enters.configure {id : NodeId} {s s' : Session σ} {c : Contents}
    (h : Enters around id s s' c) (d : Dialog σ) (steps : Nat) :
    configure around d (steps + 1) id s =
      (Step.each (visit d steps) c.items).andThen
        (Step.each (Session.configure around d steps) c.children) s' := by
  obtain ⟨node, hn, hv⟩ := h.visible
  obtain ⟨node', hn', rfl⟩ := h.contents
  simp only [Session.configure, hn, hv, Bool.not_true, Bool.false_eq_true, if_false]
  rw [Step.andThen_of_ok h.read]
  simp only [descend, hn']

/-- A run through a node comes to an item, in the session that it has led to by then and with the
steps that it has left. -/
inductive ComesTo (around : Surroundings) (d : Dialog σ) :
    Nat → NodeId → Session σ → Nat → ItemId → Session σ → Prop where
  | item {steps : Nat} {id : NodeId} {s s' m : Session σ} {c : Contents} {before after : List ItemId}
      {i : ItemId} : Enters around id s s' c → c.items = before ++ i :: after →
      Step.each (visit d steps) before s' = some (.ok (), m) →
      ComesTo around d (steps + 1) id s steps i m
  | child {steps n : Nat} {id : NodeId} {s s' m₁ m₂ m : Session σ} {c : Contents}
      {before after : List NodeId} {child : NodeId} {i : ItemId} : Enters around id s s' c →
      Step.each (visit d steps) c.items s' = some (.ok (), m₁) →
      c.children = before ++ child :: after →
      Step.each (configure around d steps) before m₁ = some (.ok (), m₂) →
      ComesTo around d steps child m₂ n i m → ComesTo around d (steps + 1) id s n i m

namespace ComesTo

variable {steps n : Nat} {id : NodeId} {i : ItemId} {s m : Session σ}

theorem ends (h : ComesTo around d steps id s n i m)
    (hv : ∀ m', visit d n i m ≠ some (.ok (), m')) :
    configure around d steps id s = visit d n i m := by
  induction h with
  | item he hitems hbefore =>
    have hpass := Step.each_of_not_ok hbefore hv
    rw [he.configure, Step.andThen_of_not_ok, hitems, hpass]
    rw [hitems, hpass]
    exact hv
  | child he hitems hchildren hbefore _ ih =>
    have hbelow := ih hv
    rw [he.configure, Step.andThen_of_ok hitems, hchildren,
      Step.each_of_not_ok hbefore (by rwa [hbelow]), hbelow]

theorem reachable (h : ComesTo around d steps id s n i m) (hr : s.tree.Reachable) :
    m.tree.Reachable := by
  induction h with
  | item he _ hbefore =>
    have hread := calls_parse around _ _ _ _ he.read hr
    exact Calls.each (calls_visit d _) _ _ _ _ hbefore hread
  | child he hitems _ hbefore _ ih =>
    have hread := calls_parse around _ _ _ _ he.read hr
    have hvisited := Calls.each (calls_visit d _) _ _ _ _ hitems hread
    exact ih (Calls.each (calls_configure around d _) _ _ _ _ hbefore hvisited)

end ComesTo

/-- An item is asked for when it has a value, and there is no answer. -/
structure LeftUnanswered (d : Dialog σ) (i : ItemId) (m : Session σ) (item : Item) (value : String)
    (dialog : σ) : Prop where
  live : m.tree.item? i = some item
  visible : item.visible = true
  notForced : item.forced = false
  given : item.user? = some value
  silent : d.ask item none m.dialog = (.ok none, dialog)

theorem LeftUnanswered.visit_eq {i : ItemId} {m : Session σ} {item : Item} {value : String}
    {dialog : σ} (h : LeftUnanswered d i m item value dialog) (n : Nat) :
    visit d (n + 1) i m =
      match item.kind.accept value with
      | .ok again => some (.ok (), ⟨m.tree.give i item again, dialog⟩)
      | .error reason =>
        if d.retries dialog then ask d i n (some ⟨item.name, reason⟩) ⟨m.tree, dialog⟩
        else some (.error (.rejected ⟨item.name, reason⟩), ⟨m.tree, dialog⟩) := by
  have hoffers : d.Offers item none m.dialog value dialog := by
    refine ⟨none, h.silent, ?_⟩
    rw [Item.unanswered?, h.given]
    rfl
  have hasked : visit d (n + 1) i m = ask d i (n + 1) none m := by
    simp only [visit, h.live, h.visible, h.notForced, Bool.not_true, Bool.false_eq_true, if_false]
  rw [hasked, ask_of_offers h.live hoffers, Item.validate]
  cases ha : item.kind.accept value with
  | error reason => rfl
  | ok again => simp only [Tree.assign_of_accepted h.live ha]

/-! ## Examples -/

namespace Silent

def numberText : String :=
  "\x7b\"N\":\x7b\"type\":\"int\",\"default\":3,\"import\":true\x7d\x7d"

def number : Surroundings where
  files := ⟨⟨"/"⟩, [(["config.json"], .file numberText.toUTF8 false)]⟩
  environment := ⟨[("N", " 7 ")], .checked⟩

def choiceText : String :=
  "\x7b\"M\":\x7b\"type\":\"enum\",\"enum\":[\"a\",\"0\"],\"import\":true\x7d\x7d"

/-- The environment names the second option by its index, and this option is the index of the
first. -/
def choice : Surroundings where
  files := ⟨⟨"/"⟩, [(["config.json"], .file choiceText.toUTF8 false)]⟩
  environment := ⟨[("M", "1")], .checked⟩

def planted : Session Unit := ⟨.plant "config.json" ⟨"/"⟩, ()⟩

def opened (around : Surroundings) : Session Unit := ⟨(planted.tree.parse around Tree.root).2, ()⟩

def opens (around : Surroundings) (check : Item → Bool) : Bool :=
  (planted.tree.node? Tree.root).any (fun node => node.visible) &&
  (planted.tree.parse around Tree.root).1.isOk &&
  ((opened around).tree.node? Tree.root).any (fun node => node.contents == ⟨[⟨0⟩], [], [], []⟩) &&
  ((opened around).tree.item? ⟨0⟩).any fun item =>
    item.visible && !item.forced && check item

theorem leftUnanswered_of_opens (around : Surroundings) (check : Item → Bool)
    (h : opens around check = true) :
    ComesTo around Dialog.defaults 2 Tree.root planted 1 ⟨0⟩ (opened around) ∧
      ∃ item, check item = true ∧ ∀ value, item.user? = some value →
        LeftUnanswered Dialog.defaults ⟨0⟩ (opened around) item value () := by
  simp only [opens, Bool.and_eq_true] at h
  obtain ⟨⟨⟨hroot, hok⟩, hnode⟩, hitem⟩ := h
  obtain ⟨node, hn, hv⟩ := Option.any_eq_true _ _ |>.mp hroot
  obtain ⟨node', hn', hc⟩ := Option.any_eq_true _ _ |>.mp hnode
  obtain ⟨item, hi, hitem⟩ := Option.any_eq_true _ _ |>.mp hitem
  simp only [Bool.and_eq_true, Bool.not_eq_true'] at hitem
  obtain ⟨⟨hvisible, hforced⟩, hcheck⟩ := hitem
  have hitems : (⟨[⟨0⟩], [], [], []⟩ : Contents).items = [] ++ ⟨0⟩ :: [] := rfl
  refine ⟨.item ⟨⟨node, hn, hv⟩, ?_, ⟨node', hn', beq_iff_eq.mp hc⟩⟩ hitems rfl, item, hcheck,
    fun value hu => ⟨hi, hvisible, hforced, hu, rfl⟩⟩
  cases hp : (planted.tree.parse around Tree.root).1 with
  | error e => simp [hp, Except.isOk, Except.toBool] at hok
  | ok _ =>
    change some ((planted.tree.parse around Tree.root).1, opened around) = _
    rw [hp]

end Silent

/-! ## Items that keep their values -/

/-- An item that is asked in vain is given what comes of its value, and so is its variable. For all
kinds but choices this is the value itself. An option is kept exactly if it is the index of its own
place, and where it is no index at all it is refused, which ends the run unless the dialog retries. -/
theorem unanswered_kept {steps n : Nat} {id : NodeId} {i : ItemId} {s m : Session σ} {item : Item}
    {value : String} {dialog : σ} (hr : s.tree.Reachable)
    (hcomes : ComesTo around d steps id s (n + 1) i m)
    (h : LeftUnanswered d i m item value dialog) :
    (∀ again, item.kind.accept value = .ok again →
      ∃ t', visit d (n + 1) i m = some (.ok (), ⟨t', dialog⟩) ∧
        (∃ item', t'.item? i = some item' ∧ item'.name = item.name ∧
          item'.user? = some again) ∧
        t'.vars.get? item.name = some again) ∧
    (∀ reason, item.kind.accept value = .error reason →
      (d.retries dialog = true →
        visit d (n + 1) i m = ask d i n (some ⟨item.name, reason⟩) ⟨m.tree, dialog⟩) ∧
      (d.retries dialog = false →
        configure around d steps id s =
          some (.error (.rejected ⟨item.name, reason⟩), ⟨m.tree, dialog⟩))) ∧
    ((∀ options, item.kind ≠ .choice options) → item.kind.accept value = .ok value) ∧
    ∀ options, item.kind = .choice options → value ∈ options ∧
      (item.kind.accept value = .ok value ↔
        ∃ j, natural? wordBound 10 (Text.trim value.toList) = some j ∧
          options[j]? = some value) := by
  have hm := hcomes.reachable hr
  have hvisit := h.visit_eq n
  obtain ⟨typed, hspells⟩ := hm.typed h.live value h.given
  refine ⟨fun again ha => ?_, fun reason ha => ⟨fun hretries => ?_, fun hretries => ?_⟩,
    hspells.accept, fun options hk => ⟨?_, ?_⟩⟩
  · refine ⟨_, hvisit.trans (by rw [ha]), ?_, ?_⟩
    · exact Tree.item?_give hm.coherent h.live again
    · rw [Tree.get?_give, if_pos rfl]
  · simp only [ha, hretries, if_true] at hvisit
    exact hvisit
  · simp only [ha, hretries, Bool.false_eq_true, if_false] at hvisit
    rw [hcomes.ends (by simp [hvisit]), hvisit]
  · rw [hk] at hspells
    cases hspells with
    | choice hoption _ => exact List.mem_of_getElem? hoption
  · rw [hk]
    exact Kind.acceptIndex_eq_ok_iff

theorem unanswered_kept_number :
    Silent.planted.tree.Reachable ∧
      ComesTo Silent.number Dialog.defaults 2 Tree.root Silent.planted 1 ⟨0⟩
        (Silent.opened Silent.number) ∧
      ∃ item, LeftUnanswered Dialog.defaults ⟨0⟩ (Silent.opened Silent.number) item "7" () ∧
        item.default? = some "3" ∧
        ∃ t', visit Dialog.defaults 1 ⟨0⟩ (Silent.opened Silent.number) =
          some (.ok (), ⟨t', ()⟩) ∧ t'.vars.get? "N" = some "7" := by
  obtain ⟨hcomes, item, hcheck, hleft⟩ := Silent.leftUnanswered_of_opens Silent.number
    (fun item => decide (item.name = "N" ∧ item.kind = .integer none ∧
      item.user? = some "7" ∧ item.default? = some "3")) (by decide +kernel)
  obtain ⟨hname, hkind, huser, hdefault⟩ := of_decide_eq_true hcheck
  have hr : Silent.planted.tree.Reachable := .plant _ _
  obtain ⟨hkept, -, hsame, -⟩ := unanswered_kept hr hcomes (hleft "7" huser)
  obtain ⟨t', hvisit, -, hvalue⟩ := hkept "7" (hsame (by simp [hkind]))
  rw [hname] at hvalue
  exact ⟨hr, hcomes, item, hleft "7" huser, hdefault, t', hvisit, hvalue⟩

/-- An option that is no index is refused when it takes the place of an answer. -/
theorem unanswered_lost_choice :
    Silent.planted.tree.Reachable ∧
      ComesTo Silent.choice Dialog.defaults 2 Tree.root Silent.planted 1 ⟨0⟩
        (Silent.opened Silent.choice) ∧
      ∃ item, LeftUnanswered Dialog.defaults ⟨0⟩ (Silent.opened Silent.choice) item "a" () ∧
        visit Dialog.defaults 1 ⟨0⟩ (Silent.opened Silent.choice) =
          some (.error (.rejected ⟨"M", .notIndex 1⟩), Silent.opened Silent.choice) := by
  obtain ⟨hcomes, item, hcheck, hleft⟩ := Silent.leftUnanswered_of_opens Silent.choice
    (fun item => decide (item.name = "M" ∧ item.kind = .choice ["a", "0"] ∧
      item.user? = some "a")) (by decide +kernel)
  obtain ⟨hname, hkind, huser⟩ := of_decide_eq_true hcheck
  refine ⟨.plant _ _, hcomes, item, hleft "a" huser, ?_⟩
  have hrefused : Kind.accept "a" (.choice ["a", "0"]) = .error (.notIndex 1) := by rfl
  rw [(hleft "a" huser).visit_eq, hkind, hrefused, hname]
  rfl

end Session

end MakeConfig
