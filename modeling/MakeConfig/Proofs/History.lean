import Mathlib.Data.List.Induction

/-! # Histories

Operations start things and end them again. A thing is under way after a history if an operation
started it and no later one has ended it, and it is so since the operation before which it was not.
A list to which things are added at the end, and from which they are taken wherever they stand, has
the things that are under way in the order in which they began to be.
-/

namespace MakeConfig

universe u v

namespace History

variable {α : Type u} {β : Type v}

section One

variable {starts ends : α → Prop} {history : List α} {op : α} {i j : Nat}

/-- An operation has started something, and none has ended it since. -/
def UnderWay (starts ends : α → Prop) (history : List α) : Prop :=
  ∃ before op after, history = before ++ op :: after ∧ starts op ∧ ∀ e ∈ after, ¬ ends e

/-- Something is under way since an operation. It was not under way before. -/
structure Since (starts ends : α → Prop) (history : List α) (i : Nat) : Prop where
  idle : ¬ UnderWay starts ends (history.take i)
  start : ∃ op, history[i]? = some op ∧ starts op
  lasts : ∀ e ∈ history.drop (i + 1), ¬ ends e

theorem not_underWay_nil : ¬ UnderWay starts ends [] := by
  rintro ⟨before, op, after, h, -⟩
  simp at h

theorem underWay_concat :
    UnderWay starts ends (history ++ [op]) ↔
      starts op ∨ (UnderWay starts ends history ∧ ¬ ends op) := by
  constructor
  · rintro ⟨before, first, after, h, hfirst, hafter⟩
    rcases List.eq_nil_or_concat after with rfl | ⟨rest, last, rfl⟩
    · obtain ⟨-, hop⟩ := List.append_inj' h rfl
      obtain rfl : op = first := List.singleton_inj.mp hop
      exact .inl hfirst
    · rw [List.concat_eq_append, ← List.cons_append, ← List.append_assoc] at h
      obtain ⟨rfl, hop⟩ := List.append_inj' h rfl
      obtain rfl : op = last := List.singleton_inj.mp hop
      simp only [List.concat_eq_append, List.forall_mem_append, List.forall_mem_singleton] at hafter
      exact .inr ⟨⟨before, first, rest, rfl, hfirst, hafter.1⟩, hafter.2⟩
  · rintro (h | ⟨⟨before, first, after, rfl, hfirst, hafter⟩, hop⟩)
    · exact ⟨history, op, [], rfl, h, by simp⟩
    · refine ⟨before, first, after ++ [op], by simp, hfirst, ?_⟩
      simpa [or_imp, forall_and] using ⟨hafter, hop⟩

theorem Since.lt_length (h : Since starts ends history i) : i < history.length := by
  obtain ⟨op, hop, -⟩ := h.start
  exact (List.getElem?_eq_some_iff.mp hop).1

theorem since_concat :
    Since starts ends (history ++ [op]) i ↔
      (Since starts ends history i ∧ ¬ ends op) ∨
        (i = history.length ∧ starts op ∧ ¬ UnderWay starts ends history) := by
  rcases Nat.lt_trichotomy i history.length with hi | rfl | hi
  · have hne : i ≠ history.length := Nat.ne_of_lt hi
    constructor
    · rintro ⟨hidle, hstart, hlasts⟩
      rw [List.take_append_of_le_length (by omega)] at hidle
      rw [List.getElem?_append_left hi] at hstart
      rw [List.drop_append_of_le_length (by omega)] at hlasts
      simp only [List.forall_mem_append, List.forall_mem_singleton] at hlasts
      exact .inl ⟨⟨hidle, hstart, hlasts.1⟩, hlasts.2⟩
    · rintro (⟨⟨hidle, hstart, hlasts⟩, hop⟩ | ⟨rfl, -⟩)
      · constructor
        · rwa [List.take_append_of_le_length (by omega)]
        · rwa [List.getElem?_append_left hi]
        · rw [List.drop_append_of_le_length (by omega)]
          simp only [List.forall_mem_append, List.forall_mem_singleton]
          exact ⟨hlasts, hop⟩
      · exact absurd rfl hne
  · constructor
    · rintro ⟨hidle, hstart, -⟩
      simp only [List.take_left'] at hidle
      obtain ⟨first, hfirst, hs⟩ := hstart
      simp only [List.getElem?_concat_length, Option.some.injEq] at hfirst
      exact .inr ⟨rfl, hfirst ▸ hs, hidle⟩
    · rintro (⟨h, -⟩ | ⟨-, hs, hidle⟩)
      · exact absurd h.lt_length (Nat.lt_irrefl _)
      · exact ⟨by simpa using hidle, ⟨op, by simp, hs⟩, by simp⟩
  · constructor
    · intro h
      have hlt := h.lt_length
      simp only [List.length_append, List.length_singleton] at hlt
      omega
    · rintro (⟨h, -⟩ | ⟨rfl, -⟩)
      · exact absurd h.lt_length (by omega)
      · exact absurd hi (Nat.lt_irrefl _)

/-- What is under way has begun once. -/
theorem underWay_iff_since (hd : ∀ op, starts op → ¬ ends op) :
    UnderWay starts ends history ↔ ∃ i, Since starts ends history i := by
  induction history using List.reverseRecOn with
  | nil =>
    constructor
    · exact fun h => absurd h not_underWay_nil
    · rintro ⟨i, h⟩
      exact absurd h.lt_length (Nat.not_lt_zero i)
  | append_singleton history op ih =>
    simp only [underWay_concat, since_concat]
    constructor
    · rintro (hs | ⟨h, he⟩)
      · by_cases h : UnderWay starts ends history
        · obtain ⟨i, hi⟩ := ih.mp h
          exact ⟨i, .inl ⟨hi, hd op hs⟩⟩
        · exact ⟨_, .inr ⟨rfl, hs, h⟩⟩
      · obtain ⟨i, hi⟩ := ih.mp h
        exact ⟨i, .inl ⟨hi, he⟩⟩
    · rintro ⟨i, ⟨hi, he⟩ | ⟨-, hs, -⟩⟩
      · exact .inr ⟨ih.mpr ⟨i, hi⟩, he⟩
      · exact .inl hs

theorem Since.unique (hd : ∀ op, starts op → ¬ ends op) (hi : Since starts ends history i)
    (hj : Since starts ends history j) : i = j := by
  induction history using List.reverseRecOn with
  | nil => exact absurd hi.lt_length (Nat.not_lt_zero i)
  | append_singleton history op ih =>
    rcases since_concat.mp hi with ⟨hi, -⟩ | ⟨rfl, -, hidle⟩
    · rcases since_concat.mp hj with ⟨hj, -⟩ | ⟨-, -, hidle⟩
      · exact ih hi hj
      · exact absurd ((underWay_iff_since hd).mpr ⟨i, hi⟩) hidle
    · rcases since_concat.mp hj with ⟨hj, -⟩ | ⟨rfl, -⟩
      · exact absurd ((underWay_iff_since hd).mpr ⟨j, hj⟩) hidle
      · rfl

end One

/-! ## Lists of what is under way -/

/-- All that is under way, in the order in which it began to be. -/
structure Lists (starts ends : β → α → Prop) (history : List α) (bs : List β) : Prop where
  mem : ∀ b, b ∈ bs ↔ UnderWay (starts b) (ends b) history
  order : bs.Pairwise fun b c => ∃ i j, Since (starts b) (ends b) history i ∧
    Since (starts c) (ends c) history j ∧ i < j

section Many

variable {starts ends : β → α → Prop} {history : List α} {bs : List β} {op : α}

theorem Lists.nil : Lists starts ends [] [] where
  mem b := by simp [not_underWay_nil]
  order := .nil

theorem Lists.nodup (hd : ∀ b op, starts b op → ¬ ends b op) (h : Lists starts ends history bs) :
    bs.Nodup := by
  refine h.order.imp ?_
  rintro b _ ⟨i, j, hi, hj, hlt⟩ rfl
  obtain rfl := hi.unique (hd b) hj
  exact Nat.lt_irrefl i hlt

theorem Lists.ended (h : Lists starts ends history bs) (hs : ∀ b, ¬ starts b op) (lasts : β → Bool)
    (he : ∀ b, lasts b = true ↔ ¬ ends b op) :
    Lists starts ends (history ++ [op]) (bs.filter lasts) where
  mem b := by simp [underWay_concat, h.mem, hs, he]
  order := by
    refine (h.order.filter lasts).imp_of_mem ?_
    rintro b c hb hc ⟨i, j, hi, hj, hlt⟩
    have hb := (he b).mp (List.mem_filter.mp hb).2
    have hc := (he c).mp (List.mem_filter.mp hc).2
    exact ⟨i, j, since_concat.mpr (.inl ⟨hi, hb⟩), since_concat.mpr (.inl ⟨hj, hc⟩), hlt⟩

theorem Lists.unchanged (h : Lists starts ends history bs) (hs : ∀ b, ¬ starts b op)
    (he : ∀ b, ¬ ends b op) : Lists starts ends (history ++ [op]) bs := by
  have hkept := h.ended hs (fun _ => true) (by simpa using he)
  rwa [List.filter_eq_self.mpr (by simp)] at hkept

theorem Lists.cleared (h : Lists starts ends history bs) (hs : ∀ b, ¬ starts b op)
    (he : ∀ b, ends b op) : Lists starts ends (history ++ [op]) [] := by
  have hended := h.ended hs (fun _ => false) (by simpa using he)
  rwa [List.filter_eq_nil_iff.mpr (by simp)] at hended

/-- An operation that starts one thing adds it at the end, unless it is under way already. -/
theorem Lists.started [DecidableEq β] (h : Lists starts ends history bs)
    (hd : ∀ b op, starts b op → ¬ ends b op) {b : β} (hs : ∀ c, starts c op ↔ c = b)
    (he : ∀ c, ¬ ends c op) :
    Lists starts ends (history ++ [op]) (if b ∈ bs then bs else bs ++ [b]) where
  mem c := by
    rw [underWay_concat, hs, ← h.mem]
    split
    · next hb =>
      constructor
      · exact fun hc => .inr ⟨hc, he c⟩
      · rintro (rfl | ⟨hc, -⟩)
        · exact hb
        · exact hc
    · simp [he, or_comm]
  order := by
    have hold : bs.Pairwise fun b c => ∃ i j, Since (starts b) (ends b) (history ++ [op]) i ∧
        Since (starts c) (ends c) (history ++ [op]) j ∧ i < j := by
      refine h.order.imp ?_
      rintro c d ⟨i, j, hi, hj, hlt⟩
      exact ⟨i, j, since_concat.mpr (.inl ⟨hi, he c⟩), since_concat.mpr (.inl ⟨hj, he d⟩), hlt⟩
    split
    · exact hold
    · next hb =>
      rw [List.pairwise_append]
      refine ⟨hold, List.pairwise_singleton _ _, fun c hc d hm => ?_⟩
      obtain rfl := List.mem_singleton.mp hm
      obtain ⟨i, hi⟩ := (underWay_iff_since (hd c)).mp ((h.mem c).mp hc)
      have hidle : ¬ UnderWay (starts d) (ends d) history := fun hu => hb ((h.mem d).mpr hu)
      exact ⟨i, history.length, since_concat.mpr (.inl ⟨hi, he c⟩),
        since_concat.mpr (.inr ⟨rfl, (hs d).mpr rfl, hidle⟩), hi.lt_length⟩

end Many

end History

end MakeConfig
