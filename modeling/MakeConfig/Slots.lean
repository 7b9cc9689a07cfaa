/-! # Slots

Values by their number of arrival. A slot that is cleared stays empty, so a number never
comes to stand for another value.
-/

namespace MakeConfig

universe u

structure Slots (α : Type u) where
  cells : List (Option α)

namespace Slots

variable {α : Type u}

def empty : Slots α := ⟨[]⟩

instance : EmptyCollection (Slots α) := ⟨empty⟩

instance : Inhabited (Slots α) := ⟨empty⟩

def get? (s : Slots α) (i : Nat) : Option α := s.cells[i]?.join

/-- The number that the next value gets. -/
def next (s : Slots α) : Nat := s.cells.length

def push (s : Slots α) (v : α) : Slots α := ⟨s.cells ++ [some v]⟩

def clear (s : Slots α) (i : Nat) : Slots α := ⟨s.cells.set i none⟩

/-- Change the value in a slot, if there is one. -/
def modify (s : Slots α) (i : Nat) (f : α → α) : Slots α := ⟨s.cells.modify i (Option.map f)⟩

@[simp] theorem get?_empty (i : Nat) : (∅ : Slots α).get? i = none := rfl

theorem get?_eq_none_of_next_le (s : Slots α) {i : Nat} (h : s.next ≤ i) : s.get? i = none := by
  simp [get?, List.getElem?_eq_none (show s.cells.length ≤ i from h)]

@[simp] theorem get?_push (s : Slots α) (v : α) (i : Nat) :
    (s.push v).get? i = if i = s.next then some v else s.get? i := by
  rcases Nat.lt_trichotomy i s.cells.length with h | h | h
  · have : i ≠ s.cells.length := by omega
    simp [get?, push, next, List.getElem?_append_left h, this]
  · simp [get?, push, next, h]
  · have hne : i ≠ s.cells.length := by omega
    have hle : s.cells.length + 1 ≤ i := h
    simp [get?, push, next, hne, List.getElem?_eq_none (show s.cells.length ≤ i by omega),
      List.getElem?_eq_none (show (s.cells ++ [some v]).length ≤ i by simpa using hle)]

@[simp] theorem next_push (s : Slots α) (v : α) : (s.push v).next = s.next + 1 := by
  simp [next, push]

@[simp] theorem get?_clear (s : Slots α) (i j : Nat) :
    (s.clear i).get? j = if j = i then none else s.get? j := by
  by_cases h : j = i
  · subst h
    by_cases hj : j < s.cells.length
    · simp [get?, clear, hj]
    · simp [get?, clear, hj]
  · have : ¬ i = j := fun h' => h h'.symm
    simp [get?, clear, h, this]

@[simp] theorem next_clear (s : Slots α) (i : Nat) : (s.clear i).next = s.next := by
  simp [next, clear]

@[simp] theorem get?_modify (s : Slots α) (i : Nat) (f : α → α) (j : Nat) :
    (s.modify i f).get? j = if j = i then (s.get? j).map f else s.get? j := by
  by_cases h : j = i
  · subst h
    cases hc : s.cells[j]? with
    | none => simp [get?, modify, hc]
    | some c => cases c <;> simp [get?, modify, hc]
  · have : ¬ i = j := fun h' => h h'.symm
    simp [get?, modify, h, this]

@[simp] theorem next_modify (s : Slots α) (i : Nat) (f : α → α) :
    (s.modify i f).next = s.next := by
  simp [next, modify]

theorem modify_of_get? {s : Slots α} {i : Nat} {v : α} {f : α → α} (h : s.get? i = some v)
    (hf : f v = v) : s.modify i f = s := by
  have hcell : s.cells[i]? = some (some v) := by
    unfold get? at h
    cases hc : s.cells[i]? with
    | none => simp [hc] at h
    | some cell => simpa [hc] using h
  have hcells : s.cells.modify i (Option.map f) = s.cells := by
    apply List.ext_getElem?
    intro j
    rw [List.getElem?_modify]
    by_cases hj : i = j
    · simp [← hj, hcell, hf]
    · simp [hj]
  rw [modify, hcells]

end Slots

end MakeConfig
