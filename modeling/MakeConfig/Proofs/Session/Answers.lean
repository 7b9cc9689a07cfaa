import MakeConfig.Proofs.Item.Canonical
import MakeConfig.Proofs.Plain.Visits
import MakeConfig.Proofs.Tree.Assignment

/-! # Answers until one is accepted

An item that refuses an answer is asked for again, with the reason of the refusal. A refusal leaves
no trace in the tree, so only the answer that is accepted counts.
-/

namespace MakeConfig

universe u

open Plain (Setting)

namespace Dialog

variable {σ : Type u} {d : Dialog σ} {item : Item} {last : Option Rejection} {s s' : σ}

/-- A dialog answers a question, or leaves it to what the item has. -/
def Offers (d : Dialog σ) (item : Item) (last : Option Rejection) (s : σ) (raw : String) (s' : σ) :
    Prop :=
  ∃ answer?, d.ask item last s = (.ok answer?, s') ∧ (answer? <|> item.unanswered?) = some raw

/-- Answers are refused one after the other, up to one that is accepted. -/
inductive Yields (d : Dialog σ) (item : Item) :
    Option Rejection → σ → List (String × Rejection) → String → σ → Prop where
  | accepted {last : Option Rejection} {s s' : σ} {raw value : String} :
      d.Offers item last s raw s' → item.validate raw = .ok value → Yields d item last s [] raw s'
  | refused {last : Option Rejection} {s s₁ s' : σ} {raw raw' : String} {r : Rejection}
      {more : List (String × Rejection)} :
      d.Offers item last s raw s₁ → item.validate raw = .error r → d.retries s₁ = true →
        Yields d item (some r) s₁ more raw' s' → Yields d item last s ((raw, r) :: more) raw' s'

theorem offers_of_answer {raw : String} (h : d.ask item last s = (.ok (some raw), s')) :
    d.Offers item last s raw s' := ⟨_, h, rfl⟩

theorem Offers.logged {raw : String} (h : d.Offers item last s raw s')
    (log : List (Setting × Option Rejection)) :
    d.logged.Offers item last (s, log) raw (s', log ++ [(item.plain, last)]) := by
  obtain ⟨answer?, ha, hraw⟩ := h
  refine ⟨answer?, ?_, hraw⟩
  simp only [Dialog.logged, ha]

/-- The questions that come to a dialog: the first with a given reason, and each further one with
that of the refusal before. -/
def questions (item : Item) (last : Option Rejection) (refused : List (String × Rejection)) :
    List (Setting × Option Rejection) :=
  (last :: refused.map fun p => some p.2).map fun last => (item.plain, last)

theorem Yields.logged {refused : List (String × Rejection)} {raw : String}
    (h : d.Yields item last s refused raw s') (log : List (Setting × Option Rejection)) :
    d.logged.Yields item last (s, log) refused raw (s', log ++ questions item last refused) := by
  induction h generalizing log with
  | accepted ho hv => exact .accepted (ho.logged log) hv
  | @refused last _ _ _ _ _ _ _ ho hv hr _ ih =>
    have hrest := ih (log ++ [(item.plain, last)])
    rw [List.append_assoc] at hrest
    exact .refused (ho.logged log) hv hr hrest

end Dialog

namespace Session

variable {σ : Type u} {d : Dialog σ} {t : Tree} {id : ItemId} {item : Item}
  {last : Option Rejection} {s s' : σ} {raw : String}

theorem ask_of_offers (hi : t.item? id = some item) (h : d.Offers item last s raw s') (n : Nat) :
    ask d id (n + 1) last ⟨t, s⟩ =
      match item.validate raw with
      | .ok _ => some (.ok (), ⟨(t.assign id raw).2, s'⟩)
      | .error r =>
        if d.retries s' then ask d id n (some r) ⟨t, s'⟩
        else some (.error (.rejected r), ⟨t, s'⟩) := by
  obtain ⟨answer?, ha, hraw⟩ := h
  simp only [ask, hi, ha, hraw]
  cases hk : item.kind.accept raw with
  | error reason => simp only [Tree.assign_of_item hi, Item.validate, hk]
  | ok value => simp only [Tree.assign_of_accepted hi hk, Item.validate, hk]

/-- What a dialog yields in the end is given to the item. -/
theorem assign_of_yields (hi : t.item? id = some item) {refused : List (String × Rejection)}
    (h : d.Yields item last s refused raw s') : (t.assign id raw).1 = .ok () := by
  induction h with
  | accepted _ hv => rw [Tree.assign_of_accepted hi (Item.validate_eq_ok_iff.mp hv)]
  | refused _ _ _ _ ih => exact ih

theorem ask_of_yields (hi : t.item? id = some item) {refused : List (String × Rejection)}
    (h : d.Yields item last s refused raw s') (more : Nat) :
    ask d id (refused.length + 1 + more) last ⟨t, s⟩ =
      some (.ok (), ⟨(t.assign id raw).2, s'⟩) := by
  induction h with
  | accepted ho hv =>
    rw [List.length_nil, Nat.zero_add, Nat.add_comm, ask_of_offers hi ho, hv]
  | @refused _ _ _ _ _ _ _ rest ho hv hr _ ih =>
    have hsteps : rest.length + 1 + 1 + more = (rest.length + 1 + more) + 1 := by omega
    rw [List.length_cons, hsteps, ask_of_offers hi ho, hv]
    simp only [hr, if_true]
    exact ih

theorem ask_once (hi : t.item? id = some item) (h : d.Offers item last s raw s')
    (hr : d.retries s' = false) (n : Nat) :
    ask d id (n + 1) last ⟨t, s⟩ = some ((t.assign id raw).1, ⟨(t.assign id raw).2, s'⟩) := by
  rw [ask_of_offers hi h]
  cases hv : item.validate raw with
  | ok value => rw [Tree.assign_of_accepted hi (Item.validate_eq_ok_iff.mp hv)]
  | error r =>
    simp only [hr, Bool.false_eq_true, if_false, Tree.assign, hi, Item.assign, hv]
    rfl

/-! ## Saved answers -/

/-- Dialogs that treat a question alike, and all that may come after it, lead to the same. -/
theorem ask_succ_congr {d d' : Dialog σ} {n : Nat} {s : Session σ}
    (hask : ∀ item, s.tree.item? id = some item →
      d.ask item last s.dialog = d'.ask item last s.dialog)
    (hretries : d.retries = d'.retries)
    (hrest : ∀ r, ask d id n (some r) = ask d' id n (some r)) :
    ask d id (n + 1) last s = ask d' id (n + 1) last s := by
  simp only [ask]
  cases hi : s.tree.item? id with
  | none => rfl
  | some item => simp only [hask item hi, hretries, hrest]

section Replay

variable {saved : OrderedMap String}

/-- Once an answer was refused, the saved one does not matter any more. -/
theorem ask_replay_of_refused (saved : OrderedMap String) (d : Dialog σ) (id : ItemId) (n : Nat)
    (r : Rejection) :
    ask (Dialog.replay saved d) id n (some r) = ask d id n (some r) := by
  induction n generalizing r with
  | zero => rfl
  | succ n ih =>
    funext s
    exact ask_succ_congr (fun _ _ => rfl) rfl ih

theorem ask_replay_of_no_answer (hi : t.item? id = some item)
    (h : Dialog.savedAnswer? saved item = none) (n : Nat) :
    ask (Dialog.replay saved d) id n none ⟨t, s⟩ = ask d id n none ⟨t, s⟩ := by
  cases n with
  | zero => rfl
  | succ n =>
    refine ask_succ_congr (fun item' hi' => ?_) rfl (ask_replay_of_refused saved d id n)
    obtain rfl : item = item' := Option.some.inj (hi.symm.trans hi')
    simp only [Dialog.replay, h]

theorem offers_replay (h : Dialog.savedAnswer? saved item = some raw) (d : Dialog σ) (s : σ) :
    (Dialog.replay saved d).Offers item none s raw s := by
  refine Dialog.offers_of_answer ?_
  simp only [Dialog.replay, h]

theorem ask_replay_of_answer (hi : t.item? id = some item)
    (h : Dialog.savedAnswer? saved item = some raw) (n : Nat) :
    ask (Dialog.replay saved d) id (n + 1) none ⟨t, s⟩ =
      match item.validate raw with
      | .ok _ => some (.ok (), ⟨(t.assign id raw).2, s⟩)
      | .error r =>
        if d.retries s then ask d id n (some r) ⟨t, s⟩
        else some (.error (.rejected r), ⟨t, s⟩) := by
  rw [ask_of_offers hi (offers_replay h d s)]
  simp only [ask_replay_of_refused]
  rfl

end Replay

/-- The first answer that is accepted ends the questions, as if it had been the only one. Each
question but the first comes with the reason for which the answer before was refused. Without
retries there is one question. A saved answer is given to the first question, and if it is refused
the other dialog answers from then on. -/
theorem ask_until_accepted (d : Dialog σ) (hi : t.item? id = some item) :
    (∀ s refused raw s', d.Yields item none s refused raw s' → (t.assign id raw).1 = .ok () ∧
      ∀ more, ask d id (refused.length + 1 + more) none ⟨t, s⟩ =
          some (.ok (), ⟨(t.assign id raw).2, s'⟩) ∧
        ∀ log, ask d.logged id (refused.length + 1 + more) none ⟨t, (s, log)⟩ =
          some (.ok (), ⟨(t.assign id raw).2, (s', log ++ Dialog.questions item none refused)⟩)) ∧
    (∀ s raw s', d.Offers item none s raw s' → d.retries s' = false → ∀ more,
      ask d id (more + 1) none ⟨t, s⟩ =
        some ((t.assign id raw).1, ⟨(t.assign id raw).2, s'⟩)) ∧
    ∀ saved,
      (∀ n r, ask (Dialog.replay saved d) id n (some r) = ask d id n (some r)) ∧
      (Dialog.savedAnswer? saved item = none → ∀ n s,
        ask (Dialog.replay saved d) id n none ⟨t, s⟩ = ask d id n none ⟨t, s⟩) ∧
      ∀ raw, Dialog.savedAnswer? saved item = some raw → ∀ n s,
        ask (Dialog.replay saved d) id (n + 1) none ⟨t, s⟩ =
          match item.validate raw with
          | .ok _ => some (.ok (), ⟨(t.assign id raw).2, s⟩)
          | .error r =>
            if d.retries s then ask d id n (some r) ⟨t, s⟩
            else some (.error (.rejected r), ⟨t, s⟩) := by
  refine ⟨fun s refused raw s' h => ⟨?_, fun more => ⟨?_, fun log => ?_⟩⟩,
    fun s raw s' h hr more => ?_, fun saved => ⟨?_, ?_, ?_⟩⟩
  · exact assign_of_yields hi h
  · exact ask_of_yields hi h more
  · exact ask_of_yields hi (h.logged log) more
  · exact ask_once hi h hr more
  · exact ask_replay_of_refused saved d id
  · intro h n s
    exact ask_replay_of_no_answer hi h n
  · intro raw h n s
    exact ask_replay_of_answer hi h n

namespace Turns

def script : Script where
  answers := OrderedMap.ofList [("G", [some "2", some "x", some "1"])]
  asked := []
  retry := true

def after : Script where
  answers := OrderedMap.ofList [("G", [])]
  asked := [("G", none), ("G", some (.indexOutside 1)), ("G", some (.notIndex 1))]
  retry := true

theorem yields_script {item : Item} (hname : item.name = "G")
    (hkind : item.kind = .choice ["off", "on"]) :
    Script.dialog.Yields item none script
      [("2", ⟨"G", .indexOutside 1⟩), ("x", ⟨"G", .notIndex 1⟩)] "1" after := by
  obtain ⟨name, kind⟩ := item
  dsimp only at hname hkind
  subst hname hkind
  refine .refused ⟨some "2", rfl, rfl⟩ rfl rfl (.refused ⟨some "x", rfl, rfl⟩ rfl rfl ?_)
  exact .accepted ⟨some "1", rfl, rfl⟩ (rfl : _ = Except.ok "on")

def saved : OrderedMap String := OrderedMap.ofList [("G", "off")]

theorem savedAnswer?_saved {item : Item} (hname : item.name = "G")
    (hkind : item.kind = .choice ["off", "on"]) :
    Dialog.savedAnswer? saved item = some "0" ∧ item.validate "0" = .ok "off" := by
  obtain ⟨name, kind⟩ := item
  dsimp only at hname hkind
  subst hname hkind
  exact ⟨rfl, rfl⟩

end Turns

open Turns in
theorem ask_until_accepted_gate :
    Tree.Gate.tree.Reachable ∧ ∃ item, Tree.Gate.tree.item? ⟨0⟩ = some item ∧
      (∃ t', Tree.Gate.tree.assign ⟨0⟩ "1" = (.ok (), t') ∧
        ask Script.dialog.logged ⟨0⟩ 3 none ⟨Tree.Gate.tree, (script, [])⟩ =
          some (.ok (), ⟨t', (after, [(item.plain, none),
            (item.plain, some ⟨"G", .indexOutside 1⟩),
            (item.plain, some ⟨"G", .notIndex 1⟩)])⟩)) ∧
      ask (Dialog.replay saved Script.dialog) ⟨0⟩ 1 none ⟨Tree.Gate.tree, script⟩ =
        some (.ok (), ⟨(Tree.Gate.tree.assign ⟨0⟩ "0").2, script⟩) := by
  obtain ⟨item, hi, hname, hkind⟩ := Tree.Gate.exists_choice
  obtain ⟨hyields, -, hreplay⟩ := ask_until_accepted Script.dialog hi
  obtain ⟨hok, hasked⟩ := hyields _ _ _ _ (yields_script hname hkind)
  obtain ⟨-, hlogged⟩ := hasked 0
  obtain ⟨-, -, hsaved⟩ := hreplay saved
  obtain ⟨hanswer, haccepted⟩ := savedAnswer?_saved hname hkind
  refine ⟨Tree.Gate.reachable_tree, item, hi, ⟨_, Prod.ext hok rfl, hlogged []⟩, ?_⟩
  have hfirst := hsaved "0" hanswer 0 script
  rw [haccepted] at hfirst
  exact hfirst

end Session

end MakeConfig
