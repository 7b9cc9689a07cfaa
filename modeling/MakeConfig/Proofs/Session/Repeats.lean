import MakeConfig.Proofs.Item.Canonical
import MakeConfig.Proofs.Plain.Reading
import MakeConfig.Proofs.Tree.Assignment

/-! # Stretches of a run that are repeated

A saved value takes the place of the answers that led to it, however many of them were refused. So a
stretch of a run is repeated without its dialog, as long as its items keep their values to the end.
-/

namespace MakeConfig

universe u

open Numeral

namespace Tree

variable {P Q : Handle → Prop} {t t' t'' : Tree}

/-- Apart from the handles that are touched, nothing is lost, and variables stay. -/
structure Leads (touched : Handle → Prop) (t t' : Tree) : Prop extends t.Spares touched t' where
  keys : ∀ name ∈ t.vars.values.keys, name ∈ t'.vars.values.keys

namespace Leads

theorem refl (P : Handle → Prop) (t : Tree) : t.Leads P t := ⟨.refl P t, fun _ h => h⟩

theorem mono (h : t.Leads P t') (hPQ : ∀ k, t.Issued k → P k → Q k) : t.Leads Q t' :=
  ⟨h.toSpares.mono hPQ, h.keys⟩

theorem after (hs : t.Leads Q t') (h : t'.Leads P t'') (hPQ : ∀ k, t.Issued k → P k → Q k) :
    t.Leads Q t'' :=
  ⟨hs.toSpares.after h.toSpares hPQ, fun name hn => h.keys name (hs.keys name hn)⟩

theorem trans (h : t.Leads P t') (h' : t'.Leads P t'') : t.Leads P t'' :=
  h.after h' fun _ _ hk => hk

end Leads

/-- Every variable has its value from an item. -/
def Named (t : Tree) : Prop :=
  ∀ name value, t.vars.get? name = some value →
    ∃ id item, t.item? id = some item ∧ item.name = name ∧ item.user? = some value

theorem Named.of_spares (hn : t.Named) (hv : t'.vars.values = t.vars.values)
    (hs : t.Spares P t') (hp : ∀ id, ¬ P (.item id)) : t'.Named := by
  intro name value hget
  obtain ⟨id, item, hi, hname, huser⟩ := hn name value (by rwa [Variables.get?, ← hv])
  obtain ⟨item', hi', hb⟩ := hs.item hi (hp id)
  exact ⟨id, item', hi', (Item.name_of_bare hb).trans hname, (Item.user?_of_bare hb).trans huser⟩

/-! ## Giving a value -/

/-- A tree in which a run may be, with no values but those of its items. -/
structure Ready (t : Tree) : Prop where
  reachable : t.Reachable
  named : t.Named

section Give

variable {id : ItemId} {item : Item} {value : String}

theorem leads_give (hc : t.Coherent) (hi : t.item? id = some item) (value : String) :
    t.Leads (· = .item id) (t.give id item value) := by
  constructor
  · exact (spares_setItem id _).trans
      ((spares_publish (hc.setUser hi (some value)) item.name value).mono fun _ _ => False.elim)
  · intro name hn
    rw [give, values_publish, OrderedMap.mem_keys_insert]
    exact .inr hn

theorem Named.give (hn : t.Named) (hc : t.Coherent) (hi : t.item? id = some item)
    (value : String) : (t.give id item value).Named := by
  intro name v hget
  obtain ⟨item', hi', hname', huser'⟩ := item?_give hc hi value
  rw [get?_give] at hget
  split at hget
  · next he =>
    cases hget
    exact ⟨id, item', hi', hname'.trans he.symm, huser'⟩
  · next he =>
    obtain ⟨j, item₀, hj, hname, huser⟩ := hn name v hget
    have hne : j ≠ id := by
      rintro rfl
      cases hj.symm.trans hi
      exact he hname.symm
    obtain ⟨item₁, hj', hb⟩ := (leads_give hc hi value).toSpares.item hj (by simpa using hne)
    exact ⟨j, item₁, hj', (Item.name_of_bare hb).trans hname,
      (Item.user?_of_bare hb).trans huser⟩

theorem Ready.give (h : t.Ready) (hi : t.item? id = some item) {raw : String}
    (ha : item.kind.accept raw = .ok value) : (t.give id item value).Ready := by
  have hcall := Call.setUserValue t id raw
  rw [assign_of_accepted hi ha] at hcall
  exact ⟨.call h.reachable hcall, h.named.give h.reachable.coherent hi value⟩

end Give

theorem leads_assignAll (hc : t.Coherent) (hn : t.Named) (values : List (ItemId × String)) :
    t.Leads (fun h => ∃ p ∈ values, h = .item p.1) (t.assignAll values).2 ∧
      (t.assignAll values).2.Named := by
  induction values generalizing t with
  | nil => exact ⟨.refl _ t, hn⟩
  | cons value values ih =>
    obtain ⟨id, raw⟩ := value
    have hac := hc.assign id raw
    cases hi : t.item? id with
    | none =>
      simp only [assignAll, assign, hi]
      exact ⟨.refl _ t, hn⟩
    | some item =>
      rw [assignAll]
      cases ha : item.kind.accept raw with
      | error reason =>
        simp only [assign_of_item hi, ha]
        exact ⟨.refl _ t, hn⟩
      | ok v =>
        rw [assign_of_accepted hi ha] at hac ⊢
        obtain ⟨hleads, hnamed⟩ := ih hac (hn.give hc hi v)
        refine ⟨((leads_give hc hi v).mono ?_).trans (hleads.mono ?_), hnamed⟩
        · rintro k - rfl
          exact ⟨_, List.mem_cons_self, rfl⟩
        · rintro k - ⟨p, hp, rfl⟩
          exact ⟨p, List.mem_cons_of_mem _ hp, rfl⟩

/-- Saved values agree with what the items of a tree were given, by name. -/
structure Settles (t : Tree) (saved : OrderedMap String) : Prop where
  keys : ∀ name ∈ t.vars.values.keys, name ∈ saved.keys
  given : ∀ id item value, t.item? id = some item → item.user? = some value →
    item.name ∈ saved.keys → saved.get? item.name = some value
  missing : ∀ id item, t.item? id = some item → item.user? = none → saved.get? item.name = none

end Tree

/-- The saved answer of an item gives it the value that was accepted before. -/
theorem Dialog.savedAnswer?_of_accepted {saved : OrderedMap String} {item : Item}
    {raw value : String} (ha : item.kind.accept raw = .ok value)
    (hs : saved.get? item.name = some value) :
    ∃ answer, savedAnswer? saved item = some answer ∧ item.kind.accept answer = .ok value := by
  unfold savedAnswer?
  rw [hs, Option.bind_some]
  split
  · next options hk =>
    rw [hk] at ha
    obtain ⟨i, hindex, hagain⟩ := Kind.acceptIndex_natText ha
    refine ⟨natText i, ?_, hk ▸ hagain⟩
    rw [Item.optionIndex?, hk]
    exact congrArg (Option.map natText) hindex
  · next hk => exact ⟨value, rfl, Kind.accept_of_accepted ha hk⟩

namespace Session

open MakeConfig.Tree

variable {σ : Type u}

/-- A stretch of a run is repeated with values that are saved at the end, if what it touched is left
alone until then. -/
structure Repeats (saved : OrderedMap String) (touched : Handle → Prop) (t t' : Tree)
    (again : Option (Except Error Unit × Session Unit)) : Prop where
  leads : t.Leads touched t'
  ready : t'.Ready
  again : ∀ last, t'.Leads (fun h => t.Issued h ∧ ¬ touched h) last → last.Settles saved →
    again = some (.ok (), ⟨t', ()⟩)

theorem onTree_eq_some {f : Tree → Except Error Unit × Tree} {t t' : Tree} {s s' : σ}
    {r : Except Error Unit} (h : onTree f ⟨t, s⟩ = some (r, ⟨t', s'⟩)) : f t = (r, t') := by
  cases h
  rfl

/-! ## Visits -/

theorem ask_ok {d : Dialog σ} {id : ItemId} {item : Item} {steps : Nat} {last : Option Rejection}
    {t t' : Tree} {s s' : σ} (hi : t.item? id = some item)
    (h : ask d id steps last ⟨t, s⟩ = some (.ok (), ⟨t', s'⟩)) :
    0 < steps ∧ ((t' = t ∧ item.unanswered? = none) ∨
      ∃ raw value, item.kind.accept raw = .ok value ∧ t' = t.give id item value) := by
  induction steps generalizing last s with
  | zero => cases h
  | succ steps ih =>
    refine ⟨Nat.succ_pos steps, ?_⟩
    simp only [ask, hi] at h
    split at h
    · cases h
    · next answer? dialog _ =>
      cases hanswer : answer? <|> item.unanswered? with
      | none =>
        simp only [hanswer] at h
        cases h
        have hnone : answer? = none ∧ item.unanswered? = none := by simpa using hanswer
        exact .inl ⟨rfl, hnone.2⟩
      | some raw =>
        simp only [hanswer, assign_of_item hi] at h
        cases ha : item.kind.accept raw with
        | ok value =>
          simp only [ha] at h
          cases h
          exact .inr ⟨raw, value, ha, rfl⟩
        | error reason =>
          simp only [ha] at h
          split at h
          · exact (ih h).2
          · cases h

theorem repeats_ask {saved : OrderedMap String} {d : Dialog σ} {id : ItemId} {item : Item}
    {steps : Nat} {t t' : Tree} {s s' : σ} (hr : t.Ready) (hi : t.item? id = some item)
    (h : ask d id steps none ⟨t, s⟩ = some (.ok (), ⟨t', s'⟩)) :
    Repeats saved (· = .item id) t t'
      (ask (Dialog.replay saved Dialog.defaults) id steps none ⟨t, ()⟩) := by
  obtain ⟨hpos, hend⟩ := ask_ok hi h
  obtain ⟨steps, rfl⟩ := Nat.exists_eq_succ_of_ne_zero (Nat.ne_zero_of_lt hpos)
  have huntouched : ∀ {m last : Tree} {i : Item}, m.item? id = some i →
      m.Leads (fun h => t.Issued h ∧ ¬ h = .item id) last →
      ∃ i', last.item? id = some i' ∧ i'.bare = i.bare := fun hm hl =>
    hl.toSpares.item hm fun hk => hk.2 rfl
  rcases hend with ⟨rfl, hunanswered⟩ | ⟨raw, value, ha, rfl⟩
  · refine ⟨.refl _ _, hr, fun last hl hsettles => ?_⟩
    have hnone : item.user? = none ∧ item.default? = none := by
      simpa [Item.unanswered?] using hunanswered
    obtain ⟨item', hi', hb⟩ := huntouched hi hl
    have hmissing := hsettles.missing id item' hi' ((Item.user?_of_bare hb).trans hnone.1)
    rw [Item.name_of_bare hb] at hmissing
    have hsaved : Dialog.savedAnswer? saved item = none := by
      rw [Dialog.savedAnswer?, hmissing, Option.bind_none]
    simp only [ask, hi, Dialog.replay, hsaved, Dialog.defaults, hunanswered]
    rfl
  · refine ⟨leads_give hr.reachable.coherent hi value, hr.give hi ha, fun last hl hsettles => ?_⟩
    obtain ⟨given, hgiven, hname, huser⟩ := item?_give hr.reachable.coherent hi value
    obtain ⟨item', hi', hb⟩ := huntouched hgiven hl
    have hname' : item'.name = item.name := (Item.name_of_bare hb).trans hname
    have hkey : item.name ∈ (t.give id item value).vars.values.keys := by
      apply OrderedMap.mem_keys_of_get? (v := value)
      exact (get?_give t id item value item.name).trans (if_pos rfl)
    have hsaved := hsettles.given id item' value hi' ((Item.user?_of_bare hb).trans huser)
      (hname' ▸ hsettles.keys _ (hl.keys _ hkey))
    rw [hname'] at hsaved
    obtain ⟨answer, hanswer, hagain⟩ := Dialog.savedAnswer?_of_accepted ha hsaved
    have hfirst : (some answer <|> item.unanswered?) = some answer := rfl
    simp only [ask, hi, Dialog.replay, hanswer, hfirst, assign_of_accepted hi hagain]

theorem repeats_adoptDefault {saved : OrderedMap String} {id : ItemId} {item : Item}
    {t t' : Tree} (hr : t.Ready) (hi : t.item? id = some item)
    (h : t.adoptDefault id = (.ok (), t')) :
    Repeats saved (· = .item id) t t' (onTree (fun t => t.adoptDefault id) ⟨t, ()⟩) := by
  have hagain : onTree (σ := Unit) (fun t => t.adoptDefault id) ⟨t, ()⟩ =
      some (.ok (), ⟨t', ()⟩) := by
    rw [onTree, h]
  simp only [Tree.adoptDefault, hi] at h
  cases hd : item.default? with
  | none => simp [hd] at h
  | some raw =>
    simp only [hd] at h
    cases ha : item.kind.accept raw with
    | error reason => simp [assign_of_item hi, ha] at h
    | ok value =>
      rw [assign_of_accepted hi ha] at h
      cases h
      exact ⟨leads_give hr.reachable.coherent hi value, hr.give hi ha, fun _ _ _ => hagain⟩

theorem repeats_visit {saved : OrderedMap String} {d : Dialog σ} {steps : Nat} {id : ItemId}
    {t t' : Tree} {s s' : σ} (hr : t.Ready)
    (h : visit d steps id ⟨t, s⟩ = some (.ok (), ⟨t', s'⟩)) :
    Repeats saved (· = .item id) t t'
      (visit (Dialog.replay saved Dialog.defaults) steps id ⟨t, ()⟩) := by
  cases hi : t.item? id with
  | none => simp [visit, hi] at h
  | some item =>
    simp only [visit, hi] at h ⊢
    split
    · next hv =>
      simp only [hv, if_true] at h
      cases h
      exact ⟨.refl _ _, hr, fun _ _ _ => rfl⟩
    · next hv =>
      simp only [hv, Bool.false_eq_true, if_false] at h
      split
      · next hf =>
        simp only [hf, if_true] at h
        exact repeats_adoptDefault hr hi (onTree_eq_some h)
      · next hf =>
        simp only [hf, Bool.false_eq_true, if_false] at h
        exact repeats_ask hr hi h

end Session

end MakeConfig
