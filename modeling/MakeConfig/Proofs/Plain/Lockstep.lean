import MakeConfig.Proofs.Plain.View

/-! # Walks in step

A run on a tree and a plain run that end in the same way, or both run out of steps. What the plain
run made of its subject is shown by the tree, and goes on to be shown as long as nothing is touched
but handles that were there before and were left alone.
-/

namespace MakeConfig

universe u

open Plain

def Session.desk {σ : Type u} (s : Session σ) : Desk σ := ⟨s.tree.vars.values, s.dialog⟩

namespace Plain

variable {σ : Type u} {α β γ δ : Type} {P Q : Handle → Prop} {t : Tree}

/-- Two runs end alike. Later changes elsewhere do not spoil what is shown. -/
structure Ends (touched : Handle → Prop) (Shows : Tree → γ → Prop) (t : Tree)
    (o : Except Error Unit × Session σ) (p : Except Error Unit × γ × Desk σ) : Prop where
  result : p.1 = o.1
  desk : p.2.2 = o.2.desk
  coherent : o.2.tree.Coherent
  spares : t.Spares touched o.2.tree
  shows : ∀ t', o.2.tree.Spares (fun h => t.Issued h ∧ ¬ touched h) t' → Shows t' p.2.1

/-- Two runs end alike if they end. -/
abbrev Lockstep (touched : Handle → Prop) (Shows : Tree → γ → Prop) (t : Tree) :
    Option (Except Error Unit × Session σ) → Outcome σ γ → Prop :=
  Option.Rel (Ends touched Shows t)

variable {Shows : Tree → γ → Prop} {Shows' : Tree → δ → Prop}

theorem Ends.after {t₁ : Tree} {o : Except Error Unit × Session σ}
    {p : Except Error Unit × γ × Desk σ} (h : Ends P Shows t₁ o p) (hs : t.Spares Q t₁)
    (hPQ : ∀ k, t.Issued k → P k → Q k) : Ends Q Shows t o p := by
  refine ⟨h.result, h.desk, h.coherent, hs.after h.spares hPQ, fun t' ht => ?_⟩
  apply h.shows t' (ht.mono fun k _ hk => ?_)
  exact ⟨hs.issued k hk.1, mt (hPQ k hk.1) hk.2⟩

namespace Lockstep

theorem imp {t' : Tree} {o : Option (Except Error Unit × Session σ)} {p : Outcome σ γ}
    {Shows' : Tree → γ → Prop} (h : Lockstep P Shows t o p)
    (himp : ∀ (o : Except Error Unit × Session σ) p, Ends P Shows t o p → Ends Q Shows' t' o p) :
    Lockstep Q Shows' t' o p := by
  cases h with
  | none => exact .none
  | some h => exact .some (himp _ _ h)

theorem map {t' : Tree} {o : Option (Except Error Unit × Session σ)} {p : Outcome σ γ}
    {f : γ → δ} (h : Lockstep P Shows t o p)
    (hf : ∀ (o : Except Error Unit × Session σ) r y s,
      Ends P Shows t o (r, y, s) → Ends Q Shows' t' o (r, f y, s)) :
    Lockstep Q Shows' t' o (p.map f) := by
  cases h with
  | none => exact .none
  | some h => exact .some (hf _ _ _ _ h)

theorem andThen {first second : Step (Session σ)} {s : Session σ} {first' : Outcome σ γ}
    {stop : γ → δ} {second' : γ → Desk σ → Outcome σ δ}
    (h : Lockstep P Shows t (first s) first')
    (hstop : ∀ e (s' : Session σ) y, Ends P Shows t (.error e, s') (.error e, y, s'.desk) →
      Ends Q Shows' t (.error e, s') (.error e, stop y, s'.desk))
    (hsecond : ∀ (s' : Session σ) y, Ends P Shows t (.ok (), s') (.ok (), y, s'.desk) →
      Lockstep Q Shows' t (second s') (second' y s'.desk)) :
    Lockstep Q Shows' t (first.andThen second s) (Plain.andThen first' stop second') := by
  unfold Step.andThen Plain.andThen
  generalize first s = o at h
  cases h with
  | none => exact .none
  | @some o p h =>
    obtain ⟨r, s'⟩ := o
    obtain ⟨r', y, desk⟩ := p
    obtain rfl : r' = r := h.result
    obtain rfl : desk = s'.desk := h.desk
    cases r' with
    | error e => exact .some (hstop e s' y h)
    | ok _ => exact hsecond s' y h

end Lockstep

/-! ## Lists -/

/-- What is shown of elements before they are come to depends on nothing but their handles. -/
structure Awaited {ι : Type} (handle : ι → Handle) (Shows : Tree → ι → β → Prop)
    (rest : α → β) : Prop where
  issued : ∀ {t i x}, Shows t i (rest x) → t.Issued (handle i)
  spares : ∀ {t t' P i x}, t.Spares P t' → ¬ P (handle i) → Shows t i (rest x) →
    Shows t' i (rest x)

theorem Awaited.all {ι : Type} {handle : ι → Handle} {Shows : Tree → ι → β → Prop}
    {rest : α → β} (ha : Awaited handle Shows rest) {t' : Tree} {is : List ι} {xs : List α}
    (h : List.Forall₂ (fun i x => Shows t i (rest x)) is xs) (hs : t.Spares P t')
    (hp : ∀ i ∈ is, ¬ P (handle i)) : List.Forall₂ (fun i x => Shows t' i (rest x)) is xs := by
  have hm := (List.forall₂_and_left is xs).mpr ⟨hp, h⟩
  exact hm.imp fun i x hx => ha.spares hs hx.1 hx.2

theorem Awaited.all_issued {ι : Type} {handle : ι → Handle} {Shows : Tree → ι → β → Prop}
    {rest : α → β} (ha : Awaited handle Shows rest) {is : List ι} {xs : List α}
    (h : List.Forall₂ (fun i x => Shows t i (rest x)) is xs) : ∀ i ∈ is, t.Issued (handle i) :=
  forall_of_forall₂ (h.imp fun _ _ hx => ha.issued hx)

/-- Runs through lists keep in step if they do so at every element. -/
theorem lockstep_sweep {ι : Type} {handle : ι → Handle} {Shows : Tree → ι → β → Prop}
    {rest : α → β} (ha : Awaited handle Shows rest) {F : ι → α → Step (Session σ)}
    {f : α → Desk σ → Outcome σ β}
    (hf : ∀ (s : Session σ) i x, s.tree.Coherent → Shows s.tree i (rest x) →
      Lockstep (· = handle i) (Shows · i) s.tree (F i x s) (f x s.desk))
    (s : Session σ) {is : List ι} {xs : List α} (hc : s.tree.Coherent)
    (hn : (is.map handle).Nodup)
    (hx : List.Forall₂ (fun i x => Shows s.tree i (rest x)) is xs) :
    Lockstep (· ∈ is.map handle) (fun t' => List.Forall₂ (Shows t') is) s.tree
      (Step.each (fun p => F p.1 p.2) (is.zip xs) s) (sweep rest f xs s.desk) := by
  induction is generalizing s xs with
  | nil =>
    cases hx
    exact .some ⟨rfl, rfl, hc, .refl _ _, fun _ _ => .nil⟩
  | cons i is ih =>
    obtain ⟨x, xs, hi, hrest, rfl⟩ := List.forall₂_cons_left_iff.mp hx
    obtain ⟨hnot, hn⟩ := List.nodup_cons.mp hn
    have hne : ∀ j ∈ is, ¬ handle j = handle i := fun j hj he =>
      hnot (he ▸ List.mem_map_of_mem hj)
    have hmem : ∀ j ∈ is, handle j ∈ (i :: is).map handle := fun j hj =>
      List.mem_map_of_mem (List.mem_cons_of_mem i hj)
    have hwiden : ∀ {t'}, s.tree.Spares (· = handle i) t' →
        s.tree.Spares (· ∈ (i :: is).map handle) t' := by
      intro t' h
      refine h.mono ?_
      rintro k - rfl
      exact List.mem_cons_self
    rw [List.zip_cons_cons]
    apply Lockstep.andThen (hf s i x hc hi)
    · intro e s' y he
      refine ⟨rfl, rfl, he.coherent, hwiden he.spares, fun t' ht => ?_⟩
      have hrest' := ha.all (ha.all hrest he.spares hne) ht fun j hj hk => hk.2 (hmem j hj)
      refine .cons (he.shows t' (ht.mono fun k _ hk => ⟨hk.1, fun hki => hk.2 ?_⟩)) ?_
      · exact hki ▸ List.mem_cons_self
      · exact List.forall₂_map_right_iff.mpr hrest'
    · intro s' y he
      have hissued := ha.all_issued hrest
      apply (ih s' he.coherent hn (ha.all hrest he.spares hne)).map
      intro o r ys desk ho
      have hfull := ho.after (hwiden he.spares) fun k _ hk => List.mem_cons_of_mem _ hk
      refine ⟨hfull.result, hfull.desk, hfull.coherent, hfull.spares, fun t' ht => ?_⟩
      refine .cons (he.shows t' ((ho.spares.mono ?_).trans (ht.mono ?_))) (hfull.shows t' ht)
      · intro k _ hk
        obtain ⟨j, hj, rfl⟩ := List.mem_map.mp hk
        exact ⟨hissued j hj, hne j hj⟩
      · intro k _ hk
        exact ⟨hk.1, fun hki => hk.2 (hki ▸ List.mem_cons_self)⟩

end Plain

end MakeConfig
