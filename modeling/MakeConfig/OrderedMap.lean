/-! # Maps that remember their insertion order

A map from names to values lists each name once, in the order of first insertion.
A later insertion of the same name changes the value and keeps the place.
-/

namespace MakeConfig

universe u

structure OrderedMap (α : Type u) where
  entries : List (String × α)
  nodup : (entries.map Prod.fst).Nodup

namespace OrderedMap

variable {α : Type u}

/-- Replace the value of a name where it stands, or add the name at the end. -/
def put (k : String) (v : α) : List (String × α) → List (String × α)
  | [] => [(k, v)]
  | e :: es => if e.1 = k then (k, v) :: es else e :: put k v es

theorem map_fst_put (k : String) (v : α) (es : List (String × α)) :
    (put k v es).map Prod.fst =
      if k ∈ es.map Prod.fst then es.map Prod.fst else es.map Prod.fst ++ [k] := by
  induction es with
  | nil => simp [put]
  | cons e es ih =>
    by_cases h : e.1 = k
    · simp [put, h]
    · have hk : ¬ k = e.1 := fun h' => h h'.symm
      simp only [put, h, if_false, List.map_cons, ih, List.mem_cons, hk, false_or]
      split <;> simp

theorem nodup_put (k : String) (v : α) {es : List (String × α)}
    (h : (es.map Prod.fst).Nodup) : ((put k v es).map Prod.fst).Nodup := by
  rw [map_fst_put]
  split
  · exact h
  · next hk =>
    rw [List.nodup_append]
    refine ⟨h, by simp, ?_⟩
    intro a ha b hb
    simp only [List.mem_singleton] at hb
    subst hb
    exact fun hab => hk (hab ▸ ha)

def empty : OrderedMap α := ⟨[], by simp⟩

instance : EmptyCollection (OrderedMap α) := ⟨empty⟩

instance : Inhabited (OrderedMap α) := ⟨empty⟩

def get? (m : OrderedMap α) (k : String) : Option α := m.entries.lookup k

def keys (m : OrderedMap α) : List String := m.entries.map Prod.fst

def contains (m : OrderedMap α) (k : String) : Bool := (m.get? k).isSome

def size (m : OrderedMap α) : Nat := m.entries.length

def isEmpty (m : OrderedMap α) : Bool := m.entries.isEmpty

def insert (m : OrderedMap α) (k : String) (v : α) : OrderedMap α :=
  ⟨put k v m.entries, nodup_put k v m.nodup⟩

/-- The entries of a list inserted one after the other. -/
def insertAll (m : OrderedMap α) (es : List (String × α)) : OrderedMap α :=
  es.foldl (fun m e => m.insert e.1 e.2) m

def ofList (es : List (String × α)) : OrderedMap α := insertAll ∅ es

/-- Change the value of a name that the map holds. -/
def modify (m : OrderedMap α) (k : String) (f : α → α) : OrderedMap α :=
  match m.get? k with
  | none => m
  | some v => m.insert k (f v)

def mapValues {β : Type u} (m : OrderedMap α) (f : α → β) : OrderedMap β :=
  ⟨m.entries.map fun e => (e.1, f e.2), by
    have h : (m.entries.map fun e => (e.1, f e.2)).map Prod.fst = m.entries.map Prod.fst := by
      simp
    exact h ▸ m.nodup⟩

theorem lookup_put (k : String) (v : α) (es : List (String × α)) (k' : String) :
    (put k v es).lookup k' = if k' = k then some v else es.lookup k' := by
  induction es with
  | nil =>
    by_cases h : k' = k
    · simp [put, h]
    · have hb : (k' == k) = false := by simpa using h
      simp [put, h, List.lookup_cons, hb]
  | cons e es ih =>
    obtain ⟨a, b⟩ := e
    by_cases h : a = k
    · subst h
      by_cases h' : k' = a
      · simp [put, h']
      · have hb : (k' == a) = false := by simpa using h'
        simp [put, List.lookup_cons, h', hb]
    · have : put k v ((a, b) :: es) = (a, b) :: put k v es := by simp [put, h]
      rw [this]
      simp only [List.lookup_cons]
      by_cases h' : k' = a
      · subst h'
        simp [h]
      · have hb : (k' == a) = false := by simpa using h'
        simp [hb, ih]

@[simp] theorem get?_empty (k : String) : (∅ : OrderedMap α).get? k = none := rfl

@[simp] theorem get?_insert (m : OrderedMap α) (k : String) (v : α) (k' : String) :
    (m.insert k v).get? k' = if k' = k then some v else m.get? k' :=
  lookup_put k v m.entries k'

theorem keys_insert (m : OrderedMap α) (k : String) (v : α) :
    (m.insert k v).keys = if k ∈ m.keys then m.keys else m.keys ++ [k] :=
  map_fst_put k v m.entries

/-! ## Names and entries -/

theorem ext_entries {m n : OrderedMap α} (h : m.entries = n.entries) : m = n := by
  cases m
  cases n
  cases h
  rfl

@[simp] theorem keys_empty : (∅ : OrderedMap α).keys = [] := rfl

@[simp] theorem isSome_get? (m : OrderedMap α) (k : String) :
    (m.get? k).isSome = true ↔ k ∈ m.keys := by
  simp only [get?, keys, List.lookup_isSome_iff, List.mem_map, beq_iff_eq]
  constructor
  · rintro ⟨e, he, rfl⟩
    exact ⟨e, he, rfl⟩
  · rintro ⟨e, he, rfl⟩
    exact ⟨e, he, rfl⟩

@[simp] theorem contains_iff (m : OrderedMap α) (k : String) :
    m.contains k = true ↔ k ∈ m.keys :=
  m.isSome_get? k

theorem get?_eq_none_iff (m : OrderedMap α) (k : String) : m.get? k = none ↔ k ∉ m.keys := by
  rw [← isSome_get?, Option.not_isSome_iff_eq_none]

theorem lookup_of_mem {es : List (String × α)} (hn : (es.map Prod.fst).Nodup) {e : String × α}
    (he : e ∈ es) : es.lookup e.1 = some e.2 := by
  induction es with
  | nil => cases he
  | cons f es ih =>
    obtain ⟨hf, hn⟩ := List.nodup_cons.mp hn
    rcases List.mem_cons.mp he with rfl | he
    · exact List.lookup_cons_self
    · have hne : e.1 ≠ f.1 := fun h => hf (h ▸ List.mem_map_of_mem he)
      have hb : (e.1 == f.1) = false := by simpa using hne
      rw [List.lookup_cons, hb]
      exact ih hn he

theorem mem_entries_iff (m : OrderedMap α) (k : String) (v : α) :
    (k, v) ∈ m.entries ↔ m.get? k = some v := by
  constructor
  · intro h
    exact lookup_of_mem m.nodup h
  · intro h
    obtain ⟨l, r, he, _⟩ := List.lookup_eq_some_iff.mp h
    exact he ▸ List.mem_append_right _ List.mem_cons_self

theorem mem_keys_of_get? {m : OrderedMap α} {k : String} {v : α} (h : m.get? k = some v) :
    k ∈ m.keys := by
  rw [← isSome_get?, h]
  rfl

/-- The names of the entries whose values have a property. -/
theorem map_fst_filter (m : OrderedMap α) (p : α → Bool) :
    (m.entries.filter fun e => p e.2).map Prod.fst = m.keys.filter fun k => (m.get? k).any p := by
  rw [keys, List.filter_map]
  congr 1
  apply List.filter_congr
  rintro ⟨k, v⟩ he
  simp [(m.mem_entries_iff k v).mp he]

theorem put_of_mem {k : String} {v : α} {es : List (String × α)}
    (hn : (es.map Prod.fst).Nodup) (h : (k, v) ∈ es) : put k v es = es := by
  induction es with
  | nil => cases h
  | cons e es ih =>
    obtain ⟨he, hn⟩ := List.nodup_cons.mp hn
    rcases List.mem_cons.mp h with rfl | h
    · simp [put]
    · have hne : e.1 ≠ k := fun hk => he (hk ▸ List.mem_map_of_mem h)
      simp [put, hne, ih hn h]

/-- A value that a name has already is written in vain. -/
theorem insert_of_get? {m : OrderedMap α} {k : String} {v : α} (h : m.get? k = some v) :
    m.insert k v = m :=
  ext_entries (put_of_mem m.nodup ((m.mem_entries_iff k v).mpr h))

theorem mem_keys_insert {m : OrderedMap α} {k k' : String} {v : α} :
    k' ∈ (m.insert k v).keys ↔ k' = k ∨ k' ∈ m.keys := by
  rw [keys_insert]
  split
  · next h =>
    constructor
    · exact .inr
    · rintro (rfl | hk)
      · exact h
      · exact hk
  · rw [List.mem_append, List.mem_singleton, or_comm]

/-! ## Changes that keep the names -/

@[simp] theorem keys_modify (m : OrderedMap α) (k : String) (f : α → α) :
    (m.modify k f).keys = m.keys := by
  unfold modify
  split
  · rfl
  · next h => rw [keys_insert, if_pos (mem_keys_of_get? h)]

@[simp] theorem get?_modify (m : OrderedMap α) (k : String) (f : α → α) (k' : String) :
    (m.modify k f).get? k' = if k' = k then (m.get? k').map f else m.get? k' := by
  unfold modify
  split
  · next h => split <;> simp_all
  · next h => rw [get?_insert]; split <;> simp_all

theorem lookup_map_snd {β : Type u} (f : α → β) (es : List (String × α)) (k : String) :
    (es.map fun e => (e.1, f e.2)).lookup k = (es.lookup k).map f := by
  induction es with
  | nil => rfl
  | cons e es ih =>
    obtain ⟨a, b⟩ := e
    simp only [List.map_cons, List.lookup_cons]
    cases k == a with
    | true => rfl
    | false => exact ih

@[simp] theorem get?_mapValues {β : Type u} (m : OrderedMap α) (f : α → β) (k : String) :
    (m.mapValues f).get? k = (m.get? k).map f :=
  lookup_map_snd f m.entries k

/-! ## Lists of entries -/

theorem put_of_not_mem {k : String} {v : α} {es : List (String × α)}
    (h : k ∉ es.map Prod.fst) : put k v es = es ++ [(k, v)] := by
  induction es with
  | nil => rfl
  | cons e es ih =>
    obtain ⟨hk, h⟩ := not_or.mp (mt List.mem_cons.mpr h)
    have hne : e.1 ≠ k := fun h' => hk h'.symm
    simp [put, hne, ih h]

theorem entries_insertAll {m : OrderedMap α} {es : List (String × α)}
    (h : (m.keys ++ es.map Prod.fst).Nodup) : (m.insertAll es).entries = m.entries ++ es := by
  induction es generalizing m with
  | nil => simp [insertAll]
  | cons e es ih =>
    have hk : e.1 ∉ m.keys := fun hm =>
      (List.nodup_append.mp h).2.2 _ hm _ (List.mem_cons_self) rfl
    have hi : (m.insert e.1 e.2).entries = m.entries ++ [e] := put_of_not_mem hk
    have hn : ((m.insert e.1 e.2).keys ++ es.map Prod.fst).Nodup := by
      rw [keys_insert, if_neg hk]
      simpa using h
    have := ih hn
    rw [hi, List.append_assoc] at this
    exact this

/-- Entries with names of their own are a map as they stand. -/
theorem entries_ofList {es : List (String × α)} (h : (es.map Prod.fst).Nodup) :
    (ofList es).entries = es :=
  entries_insertAll (m := ∅) h

theorem entries_ofList_map {ks : List String} (h : ks.Nodup) (f : String → α) :
    (ofList (ks.map fun k => (k, f k))).entries = ks.map fun k => (k, f k) := by
  apply entries_ofList
  rw [List.map_map]
  exact (List.map_id ks).symm ▸ h

theorem keys_ofList_map {ks : List String} (h : ks.Nodup) (f : String → α) :
    (ofList (ks.map fun k => (k, f k))).keys = ks := by
  rw [keys, entries_ofList_map h, List.map_map]
  exact List.map_id ks

theorem get?_ofList_map {ks : List String} (h : ks.Nodup) (f : String → α) (k : String) :
    (ofList (ks.map fun k => (k, f k))).get? k = if k ∈ ks then some (f k) else none := by
  split
  · next hk =>
    rw [← mem_entries_iff, entries_ofList_map h]
    exact List.mem_map_of_mem hk
  · next hk => rwa [get?_eq_none_iff, keys_ofList_map h]

theorem insertAll_empty_entries (m : OrderedMap α) : (∅ : OrderedMap α).insertAll m.entries = m :=
  ext_entries (entries_ofList m.nodup)

end OrderedMap

end MakeConfig
