import Mathlib.Data.List.Basic
import Mathlib.Data.List.Forall2

/-! # Lists in step

Two lists whose elements are related place by place, and passes over a list that stop at the first
failure. A pass that succeeds relates each element to what came of it. A list without its repetitions
keeps the order of first appearance.
-/

namespace MakeConfig

universe u v w

variable {α : Type u} {β : Type v} {γ : Type w}

theorem forall_of_forall₂ {p : α → Prop} {as : List α} {bs : List β}
    (h : List.Forall₂ (fun a _ => p a) as bs) : ∀ a ∈ as, p a :=
  ((List.forall₂_and_left as bs).mp (h.imp fun _ _ ha => ⟨ha, trivial⟩)).1

theorem exists_of_forall₂ {R : α → β → Prop} {as : List α} {bs : List β}
    (h : List.Forall₂ R as bs) {a : α} (ha : a ∈ as) : ∃ b ∈ bs, R a b := by
  induction h with
  | nil => cases ha
  | @cons a' b _ bs hab _ ih =>
    rcases List.mem_cons.mp ha with rfl | ha
    · exact ⟨b, List.mem_cons_self, hab⟩
    · obtain ⟨c, hc, hac⟩ := ih ha
      exact ⟨c, List.mem_cons_of_mem b hc, hac⟩

theorem forall₂_filterMap {f : α → Option β} {l : List α} (h : ∀ x ∈ l, ∃ y, f x = some y) :
    List.Forall₂ (fun x y => f x = some y) l (l.filterMap f) := by
  induction l with
  | nil => exact .nil
  | cons x l ih =>
    obtain ⟨y, hy⟩ := h x List.mem_cons_self
    rw [List.filterMap_cons_some hy]
    exact .cons hy (ih fun z hz => h z (List.mem_cons_of_mem x hz))

theorem filterMap_of_forall₂ {f : α → Option β} {as : List α} {bs : List β}
    (h : List.Forall₂ (fun a b => f a = some b) as bs) : as.filterMap f = bs := by
  induction h with
  | nil => rfl
  | cons hab _ ih => rw [List.filterMap_cons, hab, ih]

theorem forall₂_flatMap {R : β → γ → Prop} {f : α → List β} {g : α → List γ} {l : List α}
    (h : ∀ x ∈ l, List.Forall₂ R (f x) (g x)) :
    List.Forall₂ R (l.flatMap f) (l.flatMap g) := by
  induction l with
  | nil => exact .nil
  | cons x l ih =>
    rw [List.flatMap_cons, List.flatMap_cons]
    exact List.rel_append (h x List.mem_cons_self)
      (ih fun z hz => h z (List.mem_cons_of_mem x hz))

theorem forall₂_modify {R : α → β → Prop} {as : List α} {bs : List β} {f : α → α} {g : β → β}
    (h : List.Forall₂ R as bs) (hfg : ∀ a b, R a b → R (f a) (g b)) (i : Nat) :
    List.Forall₂ R (as.modify i f) (bs.modify i g) := by
  induction h generalizing i with
  | nil => simp
  | cons hab h ih =>
    cases i with
    | zero => exact .cons (hfg _ _ hab) h
    | succ i => exact .cons hab (ih i)

theorem forall₂_getElem? {R : α → β → Prop} {as : List α} {bs : List β}
    (h : List.Forall₂ R as bs) (i : Nat) : List.Forall₂ R as[i]?.toList bs[i]?.toList := by
  induction h generalizing i with
  | nil => simp
  | cons hab h ih =>
    cases i with
    | zero => exact .cons hab .nil
    | succ i => simpa using ih i

theorem eq_of_replicate_append {x : α} {k : Nat} {l before after : List α} (hx : x ∉ l)
    (h : List.replicate k x ++ l = before ++ x :: after) : ∀ y ∈ before, y = x := by
  induction k generalizing before with
  | zero =>
    rw [List.replicate_zero, List.nil_append] at h
    exact absurd (h ▸ List.mem_append_right before List.mem_cons_self) hx
  | succ k ih =>
    cases before with
    | nil => simp
    | cons b before =>
      simp only [List.replicate_succ, List.cons_append, List.cons.injEq] at h
      obtain ⟨rfl, h⟩ := h
      rintro y (_ | ⟨_, hy⟩)
      · rfl
      · exact ih h y hy

/-! ## First appearances -/

section Firsts

variable [BEq α] [LawfulBEq α]

/-- The elements of a list, each once, in the order in which they first appear in it. -/
structure FirstsOf (as bs : List α) : Prop where
  nodup : bs.Nodup
  mem : ∀ a, a ∈ bs ↔ a ∈ as
  order : bs.Pairwise fun a b => as.idxOf a < as.idxOf b

theorem idxOf_lt_of_filter {p : α → Bool} {as : List α} {a b : α} (ha : p a = true)
    (hb : p b = true) (h : (as.filter p).idxOf a < (as.filter p).idxOf b) :
    as.idxOf a < as.idxOf b := by
  induction as with
  | nil => exact h
  | cons c as ih =>
    rw [List.filter_cons] at h
    grind

theorem pairwise_eraseDups (as : List α) :
    as.eraseDups.Pairwise fun a b => as.idxOf a < as.idxOf b := by
  induction hn : as.length using Nat.strongRecOn generalizing as with
  | ind n ih =>
    cases as with
    | nil => simp
    | cons a as =>
      have hle := List.length_filter_le (fun b => !b == a) as
      rw [List.length_cons] at hn
      have hne : ∀ b ∈ (as.filter fun b => !b == a).eraseDups, b ≠ a := by
        simp [List.mem_eraseDups]
      rw [List.eraseDups_cons, List.pairwise_cons]
      constructor
      · intro b hb
        have hb := hne b hb
        grind
      · refine (ih _ (by omega) _ rfl).imp_of_mem fun {b c} hb hc h => ?_
        have hb := hne b hb
        have hc := hne c hc
        have hlt := idxOf_lt_of_filter (by simpa using hb) (by simpa using hc) h
        grind

theorem eraseDups_concat (as : List α) (a : α) :
    (as ++ [a]).eraseDups = if a ∈ as then as.eraseDups else as.eraseDups ++ [a] := by
  rw [List.eraseDups_append]
  by_cases ha : a ∈ as <;> simp [List.removeAll, List.eraseDups_cons, ha]

theorem firstsOf_eraseDups (as : List α) : FirstsOf as as.eraseDups where
  nodup := (pairwise_eraseDups as).imp fun {a b} h => by
    rintro rfl
    exact Nat.lt_irrefl _ h
  mem _ := List.mem_eraseDups
  order := pairwise_eraseDups as

end Firsts

/-! ## Passes -/

section Passes

variable {α β ε : Type} {f : α → Except ε β}

theorem mapM_eq_ok_iff {xs : List α} {ys : List β} :
    xs.mapM f = .ok ys ↔ List.Forall₂ (fun x y => f x = .ok y) xs ys := by
  induction xs generalizing ys with
  | nil => cases ys <;> simp [pure, Except.pure]
  | cons x xs ih =>
    rw [List.mapM_cons]
    cases hx : f x with
    | error e => simp [bind, Except.bind, List.forall₂_cons_left_iff, hx]
    | ok y =>
      cases hxs : xs.mapM f with
      | error e => simp [bind, Except.bind, List.forall₂_cons_left_iff, ← ih, hxs]
      | ok rest =>
        simp [bind, Except.bind, pure, Except.pure, List.forall₂_cons_left_iff, ← ih, hxs, hx,
          eq_comm]

/-- A pass fails at the first element that fails. -/
theorem mapM_eq_error_iff {xs : List α} {e : ε} :
    xs.mapM f = .error e ↔ ∃ front x rest, xs = front ++ x :: rest ∧
      (∀ y ∈ front, ∃ z, f y = .ok z) ∧ f x = .error e := by
  constructor
  · intro h
    induction xs with
    | nil => cases h
    | cons x xs ih =>
      rw [List.mapM_cons] at h
      cases hx : f x with
      | error d =>
        simp only [hx, bind, Except.bind] at h
        cases h
        exact ⟨[], x, xs, rfl, by rintro y ⟨⟩, hx⟩
      | ok y =>
        cases hxs : xs.mapM f with
        | error d =>
          simp only [hx, hxs, bind, Except.bind] at h
          cases h
          obtain ⟨front, z, rest, rfl, hfront, hz⟩ := ih hxs
          exact ⟨x :: front, z, rest, rfl, List.forall_mem_cons.mpr ⟨⟨y, hx⟩, hfront⟩, hz⟩
        | ok rest => simp [hx, hxs, bind, Except.bind, pure, Except.pure] at h
  · rintro ⟨front, x, rest, rfl, hfront, hx⟩
    induction front with
    | nil => simp [List.mapM_cons, hx, bind, Except.bind]
    | cons y front ih =>
      obtain ⟨⟨z, hy⟩, hfront⟩ := List.forall_mem_cons.mp hfront
      simp [List.mapM_cons, hy, ih hfront, bind, Except.bind]

theorem exists_of_mapM_error {xs : List α} {e : ε} (h : xs.mapM f = .error e) :
    ∃ x ∈ xs, f x = .error e := by
  obtain ⟨front, x, rest, rfl, -, hx⟩ := mapM_eq_error_iff.mp h
  exact ⟨x, List.mem_append_right front List.mem_cons_self, hx⟩

theorem mapM_zipIdx_congr {g g' : α × Nat → Except ε β} {l : List α}
    (h : ∀ x ∈ l, ∀ i j, g (x, i) = g' (x, j)) (m n : Nat) :
    (l.zipIdx m).mapM g = (l.zipIdx n).mapM g' := by
  induction l generalizing m n with
  | nil => rfl
  | cons x l ih =>
    rw [List.zipIdx_cons, List.zipIdx_cons, List.mapM_cons, List.mapM_cons,
      h x List.mem_cons_self m n, ih (fun y hy => h y (List.mem_cons_of_mem x hy)) (m + 1) (n + 1)]

end Passes

end MakeConfig
