import MakeConfig.Proofs.Plain.Lockstep

/-! # Items in step

Giving an item a value, asking for one and visiting an item do the same in a tree and on the plain
item, as long as the dialog does not look at what the item has seen of variables.
-/

namespace MakeConfig

universe u

open Plain

/-- Answers do not depend on what an item has seen of variables. -/
def Dialog.SeesPlain {σ : Type u} (d : Dialog σ) : Prop :=
  ∀ i j : Item, i.plain = j.plain → d.ask i = d.ask j

theorem Dialog.seesPlain_of_fields {σ : Type u} {d : Dialog σ}
    (h : ∀ i j : Item, i.name = j.name → i.kind = j.kind → i.default? = j.default? →
      i.user? = j.user? → d.ask i = d.ask j) : d.SeesPlain := by
  intro i j hij
  apply h
  · exact congrArg Setting.name hij
  · exact congrArg Setting.kind hij
  · exact congrArg Setting.default? hij
  · exact congrArg Setting.user? hij

/-- A dialog that writes down what it is asked. -/
def Dialog.logged {σ : Type u} (d : Dialog σ) :
    Dialog (σ × List (Setting × Option Rejection)) where
  ask item last s :=
    let (answer, dialog) := d.ask item last s.1
    (answer, (dialog, s.2 ++ [(item.plain, last)]))
  retries s := d.retries s.1

theorem Dialog.SeesPlain.logged {σ : Type u} {d : Dialog σ} (hd : d.SeesPlain) :
    d.logged.SeesPlain := by
  intro i j hij
  funext last s
  simp only [Dialog.logged, hd i j hij, hij]

namespace Plain

variable {σ : Type u}

def ShowsItem (t : Tree) (id : ItemId) (x : Setting) : Prop :=
  t.part? (.item id) = some (.setting x)

theorem awaited_items : Awaited Handle.item ShowsItem id where
  issued := Tree.issued_of_part?
  spares := fun hs hp hx => hs.part? hx hp

theorem part?_setUser {t : Tree} {id : ItemId} {item : Item} (hi : t.item? id = some item)
    (user? : Option String) :
    (t.setItem id { item with user? }).part? (.item id) =
      some (.setting { item.plain with user? }) := by
  unfold Tree.part?
  rw [Tree.entity?_setItem, if_pos rfl, Tree.entity?_item, hi]
  rfl

variable {s : Session σ} {id : ItemId} {x : Setting}

theorem ends_unchanged (hc : s.tree.Coherent) (hx : ShowsItem s.tree id x)
    (r : Except Error Unit) (dialog : σ) :
    Ends (· = .item id) (ShowsItem · id) s.tree (r, { s with dialog })
      (r, x, { s.desk with dialog }) :=
  ⟨rfl, rfl, hc, .refl _ _, fun _ ht => ht.part? hx fun hk => hk.2 rfl⟩

theorem ends_assign (hc : s.tree.Coherent) (hx : ShowsItem s.tree id x) (raw : String) :
    Ends (· = .item id) (ShowsItem · id) s.tree
      ((s.tree.assign id raw).1, { s with tree := (s.tree.assign id raw).2 })
      (x.assign raw s.desk) := by
  obtain ⟨item, hi, rfl⟩ := (s.tree.part?_item id x).mp hx
  have ha := Tree.assign_of_item hi raw
  have hcoherent := hc.assign id raw
  have hspares := Tree.spares_assign hc id raw
  unfold Setting.assign
  rw [Item.kind_plain]
  cases hk : item.kind.accept raw with
  | error reason =>
    simp only [hk] at ha
    rw [ha]
    exact ends_unchanged hc hx _ s.dialog
  | ok value =>
    simp only [hk] at ha
    rw [ha] at hcoherent hspares ⊢
    refine ⟨rfl, ?_, hcoherent, hspares, fun t' ht => ?_⟩
    · simp [Session.desk, Tree.setItem, Item.plain]
    · have hp := Tree.spares_publish (hc.setUser hi (some value)) item.name value
      exact ht.part? (hp.part? (part?_setUser hi (some value)) not_false) fun hk => hk.2 rfl

theorem ends_adoptDefault (hc : s.tree.Coherent) (hx : ShowsItem s.tree id x) :
    Ends (· = .item id) (ShowsItem · id) s.tree
      ((s.tree.adoptDefault id).1, { s with tree := (s.tree.adoptDefault id).2 })
      (x.adoptDefault s.desk) := by
  obtain ⟨item, hi, rfl⟩ := (s.tree.part?_item id x).mp hx
  simp only [Tree.adoptDefault, hi, Setting.adoptDefault, Item.default?_plain]
  cases item.default? with
  | none => exact ends_unchanged hc hx _ s.dialog
  | some raw => exact ends_assign hc hx raw

theorem lockstep_ask {d : Dialog σ} (hd : d.SeesPlain) (steps : Nat) (last : Option Rejection)
    (hc : s.tree.Coherent) (hx : ShowsItem s.tree id x) :
    Lockstep (· = .item id) (ShowsItem · id) s.tree (Session.ask d id steps last s)
      (x.ask d steps last s.desk) := by
  induction steps generalizing s x last with
  | zero => exact .none
  | succ steps ih =>
    obtain ⟨item, hi, rfl⟩ := (s.tree.part?_item id x).mp hx
    have hsame : d.ask item = d.ask item.plain.whole := hd item _ rfl
    have hunanswered : (item.plain.user? <|> item.plain.default?) = item.unanswered? := rfl
    simp only [Session.ask, Setting.ask, hi, hsame, hunanswered, Session.desk]
    rcases d.ask item.plain.whole last s.dialog with ⟨r, dialog⟩
    cases r with
    | error e => exact .some (ends_unchanged hc hx _ dialog)
    | ok answer? =>
      dsimp only
      cases answer? <|> item.unanswered? with
      | none => exact .some (ends_unchanged hc hx _ dialog)
      | some raw =>
        have he := ends_assign (s := { s with dialog }) hc hx raw
        simp only [Session.desk] at he ⊢
        rcases ha : s.tree.assign id raw with ⟨r, tree⟩
        rcases hp : item.plain.assign raw { values := s.tree.vars.values, dialog } with
          ⟨r', y, desk⟩
        rw [ha, hp] at he
        obtain rfl : r' = r := he.result
        obtain rfl : desk = ⟨tree.vars.values, dialog⟩ := he.desk
        cases r' with
        | ok _ => exact .some he
        | error e =>
          cases e with
          | rejected rejection =>
            dsimp only
            split
            · have hy := he.shows tree (.refl _ tree)
              have hagain := ih (s := ⟨tree, dialog⟩) (some rejection) he.coherent hy
              exact hagain.imp fun o p ho => ho.after he.spares fun _ _ hk => hk
            · exact .some he
          | _ => exact .some he

theorem lockstep_visit {d : Dialog σ} (hd : d.SeesPlain) (steps : Nat) (hc : s.tree.Coherent)
    (hx : ShowsItem s.tree id x) :
    Lockstep (· = .item id) (ShowsItem · id) s.tree (Session.visit d steps id s)
      (x.visit d steps s.desk) := by
  obtain ⟨item, hi, rfl⟩ := (s.tree.part?_item id x).mp hx
  have hv : meetsAll s.desk.values item.depends = item.visible := (hc.item hi).visible.symm
  simp only [Session.visit, Setting.visit, hi, Item.depends_plain, hv]
  split
  · exact .some (ends_unchanged hc hx _ s.dialog)
  change Lockstep _ _ _ (if item.forced then _ else _) (if item.forced then _ else _)
  split
  · exact .some (ends_adoptDefault hc hx)
  · exact lockstep_ask hd steps none hc hx

def adoptFound (environment : Environment) (id : ItemId) (x : Setting) : Step (Session σ) :=
  match x.finding? environment with
  | none => Step.done (.ok ())
  | some value => Session.onTree fun t => t.assign id value

theorem lockstep_adoptFound (environment : Environment) (hc : s.tree.Coherent)
    (hx : ShowsItem s.tree id x) :
    Lockstep (· = .item id) (ShowsItem · id) s.tree (adoptFound environment id x s)
      (x.adoptFound environment s.desk) := by
  unfold adoptFound Setting.adoptFound
  cases x.finding? environment with
  | none => exact .some (ends_unchanged hc hx _ s.dialog)
  | some value => exact .some (ends_assign hc hx value)

/-- The values that were found for items, as a reading gathers them. -/
def findings (environment : Environment) (ps : List (ItemId × Setting)) :
    List (ItemId × String) :=
  ps.filterMap fun p => (p.2.finding? environment).map (p.1, ·)

/-- Publishing what a reading has gathered goes through the items in turn. -/
theorem onTree_assignAll (environment : Environment) (ps : List (ItemId × Setting)) :
    Session.onTree (fun t => t.assignAll (findings environment ps)) =
      Step.each (fun p => adoptFound (σ := σ) environment p.1 p.2) ps := by
  induction ps with
  | nil => rfl
  | cons p ps ih =>
    funext s
    rw [Step.each, ← ih]
    unfold findings adoptFound Step.andThen
    rw [List.filterMap_cons]
    cases p.2.finding? environment with
    | none => rfl
    | some value =>
      simp only [Option.map_some, Session.onTree, Tree.assignAll]
      rcases s.tree.assign p.1 value with ⟨r, tree⟩
      cases r <;> rfl

end Plain

end MakeConfig
