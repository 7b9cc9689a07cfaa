import MakeConfig.Json.Value
import MakeConfig.OrderedMap
import MakeConfig.Path.Template

/-! # Variables and their watchers

A table of named texts. Keys watch variables by name, and a change of a value is delivered
to the keys that watch it, in the order in which they began to. The table holds the new
value while it is delivered.
-/

namespace MakeConfig

universe u v

structure Variables (κ : Type u) where
  values : OrderedMap String
  watchers : OrderedMap (List κ)

/-- The texts that variables are required to hold. -/
abbrev Requirements := OrderedMap Json

namespace Variables

variable {κ : Type u} {σ : Type v}

def empty : Variables κ := ⟨∅, ∅⟩

instance : Inhabited (Variables κ) := ⟨empty⟩

def get? (s : Variables κ) (name : String) : Option String := s.values.get? name

def contains (s : Variables κ) (name : String) : Bool := s.values.contains name

/-- The keys that watch a variable, in the order of delivery. -/
def watching (s : Variables κ) (name : String) : List κ := (s.watchers.get? name).getD []

def write (s : Variables κ) (name value : String) : Variables κ :=
  { s with values := s.values.insert name value }

/-- A variable that holds a value already is not written again. -/
def changes (s : Variables κ) (name value : String) : Bool := s.get? name != some value

/-- Write a value and deliver the change. -/
def set (s : Variables κ) (name value : String) (deliver : Variables κ → σ → κ → σ) (state : σ) :
    Variables κ × σ :=
  if s.changes name value then
    let s := s.write name value
    (s, (s.watching name).foldl (deliver s) state)
  else (s, state)

/-- Set a variable and answer whether that changes it. -/
def assign (s : Variables κ) (name value : String) (deliver : Variables κ → σ → κ → σ)
    (state : σ) : Bool × Variables κ × σ :=
  (s.changes name value, s.set name value deliver state)

variable [DecidableEq κ]

def watch (s : Variables κ) (key : κ) (name : String) : Variables κ :=
  let keys := s.watching name
  { s with watchers := s.watchers.insert name (if key ∈ keys then keys else keys ++ [key]) }

def watchAll (s : Variables κ) (key : κ) (names : List String) : Variables κ :=
  names.foldl (fun s name => s.watch key name) s

def unwatch (s : Variables κ) (key : κ) (name : String) : Variables κ :=
  { s with watchers := s.watchers.modify name fun keys => keys.filter (· ≠ key) }

/-- Forget a key altogether. -/
def forget (s : Variables κ) (key : κ) : Variables κ :=
  { s with watchers := s.watchers.mapValues fun keys => keys.filter (· ≠ key) }

omit [DecidableEq κ]

/-- A requirement is met by the very text it names. A number or a truth value is never met. -/
def meets (s : Variables κ) (name : String) : Json → Bool
  | .string expected => s.get? name == some expected
  | _ => false

def meetsAll (s : Variables κ) (required : Requirements) : Bool :=
  required.entries.all fun (name, expected) => s.meets name expected

/-- Put the values of variables into a template. -/
def fill (s : Variables κ) (template : String) : String := Template.fill s.get? template

/-- All values put into a map, over the values that it has. -/
def copyInto (s : Variables κ) (values : OrderedMap String) : OrderedMap String :=
  values.insertAll s.values.entries

@[simp] theorem get?_write (s : Variables κ) (name value other : String) :
    (s.write name value).get? other = if other = name then some value else s.get? other :=
  OrderedMap.get?_insert ..

@[simp] theorem watching_write (s : Variables κ) (name value other : String) :
    (s.write name value).watching other = s.watching other := rfl

/-! ## Values -/

@[simp] theorem get?_empty (name : String) : (empty : Variables κ).get? name = none := rfl

theorem contains_eq_isSome (s : Variables κ) (name : String) :
    s.contains name = (s.get? name).isSome := rfl

theorem changes_eq_false_iff (s : Variables κ) (name value : String) :
    s.changes name value = false ↔ s.get? name = some value := by
  simp [changes]

theorem changes_iff (s : Variables κ) (name value : String) :
    s.changes name value = true ↔
      s.get? name = none ∨ ∃ old, old ≠ value ∧ s.get? name = some old := by
  unfold changes
  cases s.get? name <;> simp

/-- Setting a variable writes it, also where the value is in vain. -/
theorem values_set (s : Variables κ) (name value : String) (deliver : Variables κ → σ → κ → σ)
    (state : σ) : (s.set name value deliver state).1.values = s.values.insert name value := by
  unfold set
  split
  · rfl
  · next h =>
    have hg : s.get? name = some value := by
      rwa [Bool.not_eq_true, changes_eq_false_iff] at h
    exact (OrderedMap.insert_of_get? hg).symm

theorem get?_set (s : Variables κ) (name value : String) (deliver : Variables κ → σ → κ → σ)
    (state : σ) (other : String) :
    (s.set name value deliver state).1.get? other =
      if other = name then some value else s.get? other := by
  unfold get?
  rw [values_set, OrderedMap.get?_insert]

theorem watching_set (s : Variables κ) (name value : String) (deliver : Variables κ → σ → κ → σ)
    (state : σ) (other : String) :
    (s.set name value deliver state).1.watching other = s.watching other := by
  unfold set
  split <;> rfl

theorem assign_of_changes {s : Variables κ} {name value : String}
    (h : s.changes name value = true) (deliver : Variables κ → σ → κ → σ) (state : σ) :
    s.assign name value deliver state = (true, s.write name value,
      (s.watching name).foldl (deliver (s.write name value)) state) := by
  simp [assign, set, h]

theorem assign_of_not_changes {s : Variables κ} {name value : String}
    (h : s.changes name value = false) (deliver : Variables κ → σ → κ → σ) (state : σ) :
    s.assign name value deliver state = (false, s, state) := by
  simp [assign, set, h]

theorem copyInto_empty (s : Variables κ) : s.copyInto ∅ = s.values :=
  s.values.insertAll_empty_entries

/-! ## Requirements -/

theorem meets_iff (s : Variables κ) (name : String) (expected : Json) :
    s.meets name expected = true ↔ ∃ text, expected = .string text ∧ s.get? name = some text := by
  unfold meets
  split
  · simp
  · next h =>
    simp only [Bool.false_eq_true, false_iff, not_exists, not_and]
    intro text he
    exact (h text he).elim

/-- Requirements are met when every variable in them holds the very text that it is to hold. -/
theorem meetsAll_iff (s : Variables κ) (required : Requirements) :
    s.meetsAll required = true ↔ ∀ name expected, required.get? name = some expected →
      ∃ text, expected = .string text ∧ s.get? name = some text := by
  simp only [meetsAll, List.all_eq_true, Prod.forall, OrderedMap.mem_entries_iff, meets_iff]

theorem meetsAll_congr {κ' : Type v} {s : Variables κ} {s' : Variables κ'} {required : Requirements}
    (h : ∀ name ∈ required.keys, s.get? name = s'.get? name) :
    s.meetsAll required = s'.meetsAll required := by
  rw [Bool.eq_iff_iff, meetsAll_iff, meetsAll_iff]
  constructor
  · intro hs name expected hr
    rw [← h name (OrderedMap.mem_keys_of_get? hr)]
    exact hs name expected hr
  · intro hs name expected hr
    rw [h name (OrderedMap.mem_keys_of_get? hr)]
    exact hs name expected hr

theorem meetsAll_write {s : Variables κ} {required : Requirements} {name : String}
    (h : name ∉ required.keys) (value : String) :
    (s.write name value).meetsAll required = s.meetsAll required := by
  apply meetsAll_congr
  intro other ho
  have hne : other ≠ name := fun he => h (he ▸ ho)
  rw [get?_write, if_neg hne]

/-! ## Watchers -/

variable [DecidableEq κ]

theorem watching_watch (s : Variables κ) (key : κ) (name other : String) :
    (s.watch key name).watching other =
      if other = name ∧ key ∉ s.watching other then s.watching other ++ [key]
      else s.watching other := by
  unfold watch watching
  simp only [OrderedMap.get?_insert]
  by_cases h : other = name
  · subst h
    by_cases hk : key ∈ (s.watchers.get? other).getD [] <;> simp [hk]
  · simp [h]

theorem mem_watching_watch (s : Variables κ) (key k : κ) (name other : String) :
    k ∈ (s.watch key name).watching other ↔ k ∈ s.watching other ∨ (k = key ∧ other = name) := by
  rw [watching_watch]
  split
  · next h => simp [h.1]
  · next h =>
    constructor
    · exact Or.inl
    · rintro (hk | ⟨rfl, rfl⟩)
      · exact hk
      · simpa using h

theorem nodup_watching_watch {s : Variables κ} (key : κ) (name other : String)
    (h : (s.watching other).Nodup) : ((s.watch key name).watching other).Nodup := by
  rw [watching_watch]
  split
  · next hk =>
    rw [List.nodup_append]
    refine ⟨h, by simp, ?_⟩
    rintro a ha b hb rfl
    exact hk.2 (List.mem_singleton.mp hb ▸ ha)
  · exact h

@[simp] theorem values_watchAll (s : Variables κ) (key : κ) (names : List String) :
    (s.watchAll key names).values = s.values := by
  unfold watchAll
  induction names generalizing s with
  | nil => rfl
  | cons name names ih => exact ih (s.watch key name)

theorem mem_watching_watchAll (s : Variables κ) (key k : κ) (names : List String)
    (other : String) :
    k ∈ (s.watchAll key names).watching other ↔
      k ∈ s.watching other ∨ (k = key ∧ other ∈ names) := by
  unfold watchAll
  induction names generalizing s with
  | nil => simp
  | cons name names ih =>
    rw [List.foldl_cons, ih, mem_watching_watch, List.mem_cons, or_assoc, and_or_left]

theorem nodup_watching_watchAll {s : Variables κ} (key : κ) (names : List String) (other : String)
    (h : (s.watching other).Nodup) : ((s.watchAll key names).watching other).Nodup := by
  unfold watchAll
  induction names generalizing s with
  | nil => exact h
  | cons name names ih => exact ih (nodup_watching_watch key name other h)

@[simp] theorem watching_unwatch (s : Variables κ) (key : κ) (name other : String) :
    (s.unwatch key name).watching other =
      if other = name then (s.watching other).filter (· ≠ key) else s.watching other := by
  unfold unwatch watching
  simp only [OrderedMap.get?_modify]
  by_cases h : other = name
  · subst h
    cases s.watchers.get? other <;> simp
  · simp [h]

@[simp] theorem watching_forget (s : Variables κ) (key : κ) (name : String) :
    (s.forget key).watching name = (s.watching name).filter (· ≠ key) := by
  unfold forget watching
  simp only [OrderedMap.get?_mapValues]
  cases s.watchers.get? name <;> rfl

@[simp] theorem values_forget (s : Variables κ) (key : κ) : (s.forget key).values = s.values := rfl

end Variables

end MakeConfig
