import MakeConfig.Tree.Configure

/-! # Reachable trees

A tree comes about by planting it and then by calls in any order, whether they succeed or
fail. Configuring is made of readings and assignments, so what these two keep is kept by
every call.
-/

namespace MakeConfig

universe u

namespace Step

section Results

variable {S : Type u} {first second : Step S} {s s' : S}

theorem andThen_of_ok {m : S} (h : first s = some (.ok (), m)) :
    first.andThen second s = second m := by
  rw [andThen, h]

theorem andThen_of_not_ok (h : ∀ m, first s ≠ some (.ok (), m)) :
    first.andThen second s = first s := by
  unfold andThen
  split
  · next m hm => exact absurd hm (h m)
  · rfl

theorem ok_of_andThen (h : first.andThen second s = some (.ok (), s')) :
    ∃ m, first s = some (.ok (), m) ∧ second m = some (.ok (), s') := by
  unfold andThen at h
  split at h
  · next m hm => exact ⟨m, hm, h⟩
  · next hne => exact absurd h (hne s')

theorem each_of_not_ok {α : Type} {f : α → Step S} {before : List α} {x : α} {m : S}
    (hb : each f before s = some (.ok (), m)) (hx : ∀ m', f x m ≠ some (.ok (), m'))
    (after : List α) : each f (before ++ x :: after) s = f x m := by
  induction before generalizing s with
  | nil =>
    cases hb
    exact andThen_of_not_ok hx
  | cons y before ih =>
    obtain ⟨m₁, hy, hrest⟩ := ok_of_andThen hb
    rw [List.cons_append, each, andThen_of_ok hy]
    exact ih hrest

end Results

variable {S : Type u} {R : S → S → Prop}

/-- Wherever a step ends, it leads from its start to a related state. -/
def Within (R : S → S → Prop) (f : Step S) : Prop :=
  ∀ s r s', f s = some (r, s') → R s s'

theorem within_done (refl : ∀ s, R s s) (r : Except Error Unit) : (done r).Within R := by
  rintro s r' s' h
  cases h
  exact refl s

theorem Within.andThen (trans : ∀ a b c, R a b → R b c → R a c) {f g : Step S}
    (hf : f.Within R) (hg : g.Within R) : (f.andThen g).Within R := by
  intro s r s' h
  unfold Step.andThen at h
  split at h
  · next m hm => exact trans s m s' (hf s _ m hm) (hg m r s' h)
  · exact hf s r s' h

theorem within_each (refl : ∀ s, R s s) (trans : ∀ a b c, R a b → R b c → R a c) {α : Type}
    {f : α → Step S} (h : ∀ x, (f x).Within R) (xs : List α) : (each f xs).Within R := by
  induction xs with
  | nil => exact within_done refl _
  | cons x xs ih => exact (h x).andThen trans ih

end Step

namespace Session

variable {σ : Type u} {R : Tree → Tree → Prop}

/-- A relation of trees, seen at sessions. -/
def Trees (R : Tree → Tree → Prop) (s s' : Session σ) : Prop := R s.tree s'.tree

theorem within_onTree {f : Tree → Except Error Unit × Tree} (h : ∀ t, R t (f t).2) :
    (onTree (σ := σ) f).Within (Trees R) := by
  rintro s r s' hs
  cases hs
  exact h s.tree

section Walk

variable (refl : ∀ t, R t t) (trans : ∀ a b c, R a b → R b c → R a c)
  (hassign : ∀ t id raw, R t (Tree.assign t id raw).2)

include refl hassign

theorem adoptDefault_within (t : Tree) (id : ItemId) : R t (t.adoptDefault id).2 := by
  unfold Tree.adoptDefault
  split
  · exact refl t
  · split
    · exact refl t
    · exact hassign t id _

include trans

theorem ask_within (d : Dialog σ) (id : ItemId) (steps : Nat) (last : Option Rejection) :
    (ask d id steps last).Within (Trees R) := by
  induction steps generalizing last with
  | zero => rintro s r s' ⟨⟩
  | succ steps ih =>
    intro s r s' h
    simp only [ask] at h
    split at h
    · cases h
      exact refl s.tree
    split at h
    · cases h
      exact refl s.tree
    split at h
    · cases h
      exact refl s.tree
    · next raw _ =>
      have ha := hassign s.tree id raw
      split at h
      · next hr =>
        rw [hr] at ha
        split at h
        · exact trans _ _ _ ha (ih _ _ r s' h)
        · cases h
          exact ha
      · next hr =>
        rw [hr] at ha
        cases h
        exact ha

theorem visit_within (d : Dialog σ) (steps : Nat) (id : ItemId) :
    (visit d steps id).Within (Trees R) := by
  intro s r s' h
  unfold visit at h
  split at h
  · cases h
    exact refl s.tree
  split at h
  · cases h
    exact refl s.tree
  split at h
  · exact within_onTree (fun t => adoptDefault_within refl hassign t id) s r s' h
  · exact ask_within refl trans hassign d id steps none s r s' h

omit hassign in
theorem descend_within {items : ItemId → Step (Session σ)}
    {children : NodeId → Step (Session σ)} (hitems : ∀ id, (items id).Within (Trees R))
    (hchildren : ∀ id, (children id).Within (Trees R)) (id : NodeId) :
    (descend items children id).Within (Trees R) := by
  have hrefl : ∀ s : Session σ, Trees R s s := fun s => refl s.tree
  have htrans : ∀ a b c : Session σ, Trees R a b → Trees R b c → Trees R a c :=
    fun a b c => trans a.tree b.tree c.tree
  intro s r s' h
  unfold descend at h
  split at h
  · cases h
    exact hrefl s
  · exact (Step.within_each hrefl htrans hitems _).andThen htrans
      (Step.within_each hrefl htrans hchildren _) s r s' h

/-- A configuration is a run of readings and assignments. -/
theorem configure_within (around : Surroundings)
    (hparse : ∀ t id, R t (Tree.parse around t id).2) (d : Dialog σ) (steps : Nat)
    (id : NodeId) : (configure around d steps id).Within (Trees R) := by
  induction steps generalizing id with
  | zero => rintro s r s' ⟨⟩
  | succ steps ih =>
    intro s r s' h
    simp only [configure] at h
    split at h
    · cases h
      exact refl s.tree
    split at h
    · cases h
      exact refl s.tree
    · have hd := descend_within refl trans (visit_within refl trans hassign d steps) ih id
      exact (within_onTree fun t => hparse t id).andThen
        (fun a b c => trans a.tree b.tree c.tree) hd s r s' h

end Walk

end Session

namespace Tree

/-- A call on a tree. The files, the environment and the dialog may be others at each call. -/
inductive Call : Tree → Tree → Prop where
  | parse (around : Surroundings) (t : Tree) (id : NodeId) : Call t (t.parse around id).2
  | configure {σ : Type} (around : Surroundings) (d : Dialog σ) (steps : Nat) (id : NodeId)
      {t t' : Tree} {start finish : σ} {r : Except Error Unit} :
      Session.configure around d steps id ⟨t, start⟩ = some (r, ⟨t', finish⟩) → Call t t'
  | setVariable (t : Tree) (name value : String) : Call t (t.publish name value)
  | setUserValue (t : Tree) (id : ItemId) (raw : String) : Call t (t.assign id raw).2
  | adoptDefault (t : Tree) (id : ItemId) : Call t (t.adoptDefault id).2
  | reset (t : Tree) : Call t t.reset

inductive Reachable : Tree → Prop where
  | plant (rootPath : String) (origin : Path) : Reachable (plant rootPath origin)
  | call {t t' : Tree} : Reachable t → Call t t' → Reachable t'

/-- What holds of planted trees and is kept by publishing, assigning and reading holds of every
reachable tree. -/
theorem Reachable.invariant {P : Tree → Prop}
    (plant : ∀ rootPath origin, P (Tree.plant rootPath origin))
    (publish : ∀ t name value, P t → P (t.publish name value))
    (assign : ∀ t id raw, P t → P (t.assign id raw).2)
    (parse : ∀ around t id, P t → P (t.parse around id).2) {t : Tree} (h : Reachable t) :
    P t := by
  let R : Tree → Tree → Prop := fun t t' => P t → P t'
  have refl : ∀ t, R t t := fun _ ht => ht
  have trans : ∀ a b c, R a b → R b c → R a c := fun _ _ _ hab hbc ha => hbc (hab ha)
  induction h with
  | plant rootPath origin => exact plant rootPath origin
  | call _ hc ih =>
    cases hc with
    | parse around _ id => exact parse around _ id ih
    | configure around d steps id hs =>
      exact Session.configure_within refl trans assign around (parse around) d steps id _ _ _ hs ih
    | setVariable _ name value => exact publish _ name value ih
    | setUserValue _ id raw => exact assign _ id raw ih
    | adoptDefault _ id => exact Session.adoptDefault_within refl assign _ id ih
    | reset => exact plant _ _

end Tree

/-! ## Steps of a run -/

namespace Session

variable {σ : Type u}

/-- Whatever a step does to a tree, calls could have done. -/
def Calls (f : Step (Session σ)) : Prop :=
  f.Within (Trees fun t t' => t.Reachable → t'.Reachable)

theorem calls_parse (around : Surroundings) (id : NodeId) :
    Calls (σ := σ) (onTree fun t => t.parse around id) :=
  within_onTree fun t ht => .call ht (.parse around t id)

theorem calls_visit (d : Dialog σ) (steps : Nat) (id : ItemId) : Calls (visit d steps id) :=
  visit_within (fun _ ht => ht) (fun _ _ _ hab hbc ha => hbc (hab ha))
    (fun t id raw ht => .call ht (.setUserValue t id raw)) d steps id

theorem calls_configure (around : Surroundings) (d : Dialog σ) (steps : Nat) (id : NodeId) :
    Calls (configure around d steps id) :=
  configure_within (fun _ ht => ht) (fun _ _ _ hab hbc ha => hbc (hab ha))
    (fun t id raw ht => .call ht (.setUserValue t id raw)) around
    (fun t id ht => .call ht (.parse around t id)) d steps id

theorem Calls.each {α : Type} {f : α → Step (Session σ)} (h : ∀ x, Calls (f x)) (xs : List α) :
    Calls (Step.each f xs) :=
  Step.within_each (fun _ ht => ht) (fun _ _ _ hab hbc ha => hbc (hab ha)) h xs

def endsIn (check : Session σ → Bool) : Option (Except Error Unit × Session σ) → Bool
  | some (.ok (), s) => check s
  | _ => false

theorem endsIn_iff {check : Session σ → Bool} {run : Option (Except Error Unit × Session σ)} :
    endsIn check run = true ↔ ∃ t s, run = some (.ok (), ⟨t, s⟩) ∧ check ⟨t, s⟩ = true := by
  constructor
  · intro h
    unfold endsIn at h
    split at h
    · next s => exact ⟨s.tree, s.dialog, rfl, h⟩
    · cases h
  · rintro ⟨t, s, rfl, h⟩
    exact h

end Session

end MakeConfig
