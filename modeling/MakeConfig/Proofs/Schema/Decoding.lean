import MakeConfig.Proofs.Lists
import MakeConfig.Schema
import Mathlib.Data.List.Induction
import Mathlib.Data.List.Permutation

/-! # Schemas as a whole

A document may give a name more than once: the name keeps the place where it first stands and has the
value that was given last. Entries are taken in the order of these places. The first one at fault
spoils the schema, and those of an unknown type are passed over, so they can neither cause a fault nor
hide one.
-/

namespace MakeConfig

universe u

/-! ## Names that are given more than once -/

namespace OrderedMap

variable {α : Type u} {es : List (String × α)} {k : String} {v : α}

/-- The last value that is given for a name. -/
def LastFor (es : List (String × α)) (k : String) (v : α) : Prop :=
  ∃ before after, es = before ++ (k, v) :: after ∧ k ∉ after.map Prod.fst

theorem not_lastFor_nil : ¬ LastFor [] k v := by
  rintro ⟨before, after, h, -⟩
  simp at h

theorem lastFor_concat {e : String × α} :
    LastFor (es ++ [e]) k v ↔ e = (k, v) ∨ (k ≠ e.1 ∧ LastFor es k v) := by
  constructor
  · rintro ⟨before, after, h, hk⟩
    rcases List.eq_nil_or_concat after with rfl | ⟨rest, last, rfl⟩
    · obtain ⟨-, he⟩ := List.append_inj' h rfl
      exact .inl (List.singleton_inj.mp he)
    · rw [List.concat_eq_append, ← List.cons_append, ← List.append_assoc] at h
      obtain ⟨rfl, he⟩ := List.append_inj' h rfl
      obtain rfl : e = last := List.singleton_inj.mp he
      simp only [List.concat_eq_append, List.map_append, List.map_singleton, List.mem_append,
        List.mem_singleton, not_or] at hk
      exact .inr ⟨hk.2, before, rest, rfl, hk.1⟩
  · rintro (rfl | ⟨hne, before, after, rfl, hk⟩)
    · exact ⟨es, [], rfl, List.not_mem_nil⟩
    · refine ⟨before, after ++ [e], by simp, ?_⟩
      simpa using ⟨by simpa using hk, hne⟩

theorem ofList_concat (es : List (String × α)) (e : String × α) :
    ofList (es ++ [e]) = (ofList es).insert e.1 e.2 :=
  List.foldl_concat ..

theorem get?_ofList_eq_some_iff : (ofList es).get? k = some v ↔ LastFor es k v := by
  induction es using List.reverseRecOn with
  | nil => exact iff_of_false (by rintro ⟨⟩) not_lastFor_nil
  | append_singleton es e ih =>
    rw [ofList_concat, get?_insert, lastFor_concat, ← ih]
    split
    · next hk => simp [Prod.ext_iff, hk]
    · next hk => simp [Prod.ext_iff, hk, Ne.symm hk]

theorem keys_ofList (es : List (String × α)) : (ofList es).keys = (es.map Prod.fst).eraseDups := by
  induction es using List.reverseRecOn with
  | nil => rfl
  | append_singleton es e ih =>
    rw [ofList_concat, keys_insert, List.map_append, List.map_singleton, eraseDups_concat, ih]
    simp only [List.mem_eraseDups]

theorem filter_put (keep : String → Bool) (k : String) (v : α) (es : List (String × α)) :
    (put k v es).filter (fun e => keep e.1) =
      if keep k then put k v (es.filter fun e => keep e.1) else es.filter fun e => keep e.1 := by
  induction es with
  | nil => cases hk : keep k <;> simp [put, hk]
  | cons e es ih =>
    by_cases he : e.1 = k
    · subst he
      cases hk : keep e.1 <;> simp [put, hk]
    · cases hk : keep k <;> cases hke : keep e.1 <;> simp [put, he, hk, hke, ih]

theorem entries_ofList_filter (keep : String → Bool) (es : List (String × α)) :
    (ofList (es.filter fun e => keep e.1)).entries =
      (ofList es).entries.filter fun e => keep e.1 := by
  induction es using List.reverseRecOn with
  | nil => rfl
  | append_singleton es e ih =>
    have hput : (ofList (es ++ [e])).entries = put e.1 e.2 (ofList es).entries :=
      congrArg entries (ofList_concat es e)
    rw [hput, filter_put, List.filter_append, List.filter_singleton]
    cases hk : keep e.1 with
    | false => simpa using ih
    | true =>
      simp only [if_true, cond_true, ofList_concat, ← ih]
      rfl

end OrderedMap

/-! ## Entries -/

namespace Entry

def typeName : Entry → String
  | .item typeName _ => typeName
  | .child _ => "config"
  | .recipe _ => "recipe"
  | .repo _ => "repo"

/-- What a value is in a schema: an entry of a known type, one to be passed over, or a fault. -/
inductive Taken : Json → Except EntryFault (Option Entry) → Prop where
  | known {fields : List (String × Json)} {typeName : String} {entry : Entry} :
      fields.lookup "type" = some (.string typeName) → typeName ∈ typeNames →
      ofFields? typeName (fields.filter (·.1 ≠ "type")) = some entry →
      Taken (.object fields) (.ok (some entry))
  | unknown {fields : List (String × Json)} {typeName : String} :
      fields.lookup "type" = some (.string typeName) → typeName ∉ typeNames →
      Taken (.object fields) (.ok none)
  | malformed {fields : List (String × Json)} {typeName : String} :
      fields.lookup "type" = some (.string typeName) → typeName ∈ typeNames →
      ofFields? typeName (fields.filter (·.1 ≠ "type")) = none →
      Taken (.object fields) (.error .malformed)
  | untyped {value : Json} :
      (∀ fields typeName, value = .object fields →
        fields.lookup "type" ≠ some (.string typeName)) →
      Taken value (.error .untyped)

variable {value : Json} {r : Except EntryFault (Option Entry)}

theorem string?_eq_some_iff {s : String} : value.string? = some s ↔ value = .string s := by
  cases value <;> simp [Json.string?]

theorem fields?_eq_some_iff {fields : List (String × Json)} :
    value.fields? = some fields ↔ value = .object fields := by
  cases value <;> simp [Json.fields?]

theorem typed_iff {typeName : String} :
    (value.field? "type").bind Json.string? = some typeName ↔
      ∃ fields, value = .object fields ∧ fields.lookup "type" = some (.string typeName) := by
  simp only [Json.field?, Option.bind_eq_some_iff, string?_eq_some_iff, fields?_eq_some_iff]
  constructor
  · rintro ⟨_, ⟨fields, hvalue, hlookup⟩, rfl⟩
    exact ⟨fields, hvalue, hlookup⟩
  · rintro ⟨fields, hvalue, hlookup⟩
    exact ⟨_, ⟨fields, hvalue, hlookup⟩, rfl⟩

theorem taken_ofJson (value : Json) : Taken value (ofJson value) := by
  unfold ofJson
  cases ht : (value.field? "type").bind Json.string? with
  | none =>
    refine .untyped fun fields typeName hvalue hlookup => ?_
    cases ht.symm.trans (typed_iff.mpr ⟨fields, hvalue, hlookup⟩)
  | some typeName =>
    obtain ⟨fields, rfl, hlookup⟩ := typed_iff.mp ht
    dsimp only [Json.fields?, Option.getD_some]
    split
    · next hknown => exact .unknown hlookup hknown
    · next hknown =>
      have hknown := not_not.mp hknown
      cases he : ofFields? typeName (fields.filter (·.1 ≠ "type")) with
      | none => exact .malformed hlookup hknown he
      | some entry => exact .known hlookup hknown he

theorem Taken.eq_ofJson (h : Taken value r) : ofJson value = r := by
  cases h with
  | known hlookup hknown he =>
    simp only [ofJson, typed_iff.mpr ⟨_, rfl, hlookup⟩, Json.fields?, Option.getD_some, hknown,
      not_true_eq_false, if_false, he]
  | unknown hlookup hknown =>
    simp only [ofJson, typed_iff.mpr ⟨_, rfl, hlookup⟩, hknown, not_false_eq_true, if_true]
  | malformed hlookup hknown he =>
    simp only [ofJson, typed_iff.mpr ⟨_, rfl, hlookup⟩, Json.fields?, Option.getD_some, hknown,
      not_true_eq_false, if_false, he]
  | untyped hnone =>
    have ht : (value.field? "type").bind Json.string? = none := by
      refine Option.eq_none_iff_forall_ne_some.mpr fun typeName ht => ?_
      obtain ⟨fields, hvalue, hlookup⟩ := typed_iff.mp ht
      exact hnone fields typeName hvalue hlookup
    simp only [ofJson, ht]

theorem taken_iff : Taken value r ↔ ofJson value = r :=
  ⟨Taken.eq_ofJson, fun h => h ▸ taken_ofJson value⟩

theorem Taken.not_ok {fault : EntryFault} (h : Taken value (.error fault)) :
    ¬ ∃ found?, Taken value (.ok found?) := by
  rintro ⟨found?, hok⟩
  cases h.eq_ofJson.symm.trans hok.eq_ofJson

theorem typeName_ofFields? {name : String} {fields : List (String × Json)} {entry : Entry}
    (h : ofFields? name fields = some entry) : entry.typeName = name := by
  unfold ofFields? at h
  split at h
  · simp only [childOfFields?, Option.bind_eq_bind, Option.bind_eq_some_iff] at h
    obtain ⟨_, -, _, -, ⟨⟩⟩ := h
    rfl
  · simp only [recipeOfFields?, Option.bind_eq_bind, Option.bind_eq_some_iff] at h
    obtain ⟨_, -, ⟨⟩⟩ := h
    rfl
  · simp only [repoOfFields?, Option.bind_eq_bind, Option.bind_eq_some_iff] at h
    obtain ⟨_, -, _, -, _, -, _, -, _, -, ⟨⟩⟩ := h
    rfl
  · obtain ⟨spec, -, rfl⟩ := Option.map_eq_some_iff.mp h
    rfl

theorem Taken.typed {entry : Entry} (h : Taken value (.ok (some entry))) :
    ∃ fields, value = .object fields ∧
      fields.lookup "type" = some (.string entry.typeName) ∧ entry.typeName ∈ typeNames := by
  cases h with
  | known hlookup hknown he =>
    rw [typeName_ofFields? he]
    exact ⟨_, rfl, hlookup, hknown⟩

end Entry

/-! ## Entries in turn -/

namespace Schema

open OrderedMap (LastFor)
open Entry (Taken)

variable {origin : Path} {es : List (String × Json)}

def kept? (e : String × Json) : Option (String × Entry) :=
  (Entry.ofJson e.2).toOption.join.map fun entry => (e.1, entry)

theorem kept?_eq_some_iff {e : String × Json} {name : String} {entry : Entry} :
    kept? e = some (name, entry) ↔ e.1 = name ∧ Taken e.2 (.ok (some entry)) := by
  rw [Entry.taken_iff, kept?]
  cases Entry.ofJson e.2 with
  | error fault => simp [Except.toOption]
  | ok found? => cases found? <;> simp [Except.toOption]

theorem ofFields_of_sound (h : ∀ e ∈ es, ∃ found?, Taken e.2 (.ok found?)) :
    ofFields origin es = .ok (es.filterMap kept?) := by
  induction es with
  | nil => rfl
  | cons e es ih =>
    obtain ⟨found?, he⟩ := h e List.mem_cons_self
    have hrest := ih fun f hf => h f (List.mem_cons_of_mem e hf)
    have hjson := he.eq_ofJson
    cases found? with
    | none => simp [ofFields, hjson, hrest, kept?, Except.toOption]
    | some entry => simp [ofFields, hjson, hrest, kept?, Except.toOption, bind, Except.bind, pure, Except.pure]

theorem ofFields_of_fault {before after : List (String × Json)} {e : String × Json}
    {fault : EntryFault} (hbefore : ∀ b ∈ before, ∃ found?, Taken b.2 (.ok found?))
    (he : Taken e.2 (.error fault)) :
    ofFields origin (before ++ e :: after) = .error (.schema origin e.1 fault) := by
  induction before with
  | nil => simp [ofFields, he.eq_ofJson]
  | cons b before ih =>
    obtain ⟨found?, hb⟩ := hbefore b List.mem_cons_self
    have hrest := ih fun f hf => hbefore f (List.mem_cons_of_mem b hf)
    have hjson := hb.eq_ofJson
    cases found? with
    | none => simp [ofFields, hjson, hrest]
    | some entry => simp [ofFields, hjson, hrest, bind, Except.bind]

/-- Fields are sound, or one of them is the first at fault. -/
theorem sound_or_fault (es : List (String × Json)) :
    (∀ e ∈ es, ∃ found?, Taken e.2 (.ok found?)) ∨
      ∃ before e after fault, es = before ++ e :: after ∧
        (∀ b ∈ before, ∃ found?, Taken b.2 (.ok found?)) ∧ Taken e.2 (.error fault) := by
  induction es with
  | nil => exact .inl (by rintro e ⟨⟩)
  | cons e es ih =>
    have he := Entry.taken_ofJson e.2
    cases hjson : Entry.ofJson e.2 with
    | error fault =>
      rw [hjson] at he
      exact .inr ⟨[], e, es, fault, rfl, by rintro b ⟨⟩, he⟩
    | ok found? =>
      rw [hjson] at he
      rcases ih with hsound | ⟨before, f, after, fault, rfl, hbefore, hf⟩
      · exact .inl (List.forall_mem_cons.mpr ⟨⟨found?, he⟩, hsound⟩)
      · exact .inr ⟨e :: before, f, after, fault, rfl,
          List.forall_mem_cons.mpr ⟨⟨found?, he⟩, hbefore⟩, hf⟩

theorem ofFields_filter {keep : String → Bool}
    (h : ∀ e ∈ es, keep e.1 = false → Taken e.2 (.ok none)) :
    ofFields origin (es.filter fun e => keep e.1) = ofFields origin es := by
  induction es with
  | nil => rfl
  | cons e es ih =>
    have hrest := ih fun f hf => h f (List.mem_cons_of_mem e hf)
    rw [List.filter_cons]
    cases hk : keep e.1 with
    | false =>
      have he := (h e List.mem_cons_self hk).eq_ofJson
      simp [ofFields, he, hrest]
    | true => simp [ofFields, hrest]

/-! ## Whole documents -/

section Documents

variable {fields : List (String × Json)} {name : String} {value : Json}

def place (fields : List (String × Json)) (name : String) : Nat := (fields.map Prod.fst).idxOf name

/-- A schema has the entries of known types that a document gives, each once and in order. -/
structure Holds (fields : List (String × Json)) (schema : Schema) : Prop where
  names : (schema.map Prod.fst).Nodup
  entries : ∀ name entry, (name, entry) ∈ schema ↔
    ∃ value, LastFor fields name value ∧ Taken value (.ok (some entry))
  types : ∀ name entry, (name, entry) ∈ schema → ∃ parts, LastFor fields name (.object parts) ∧
    parts.lookup "type" = some (.string entry.typeName) ∧ entry.typeName ∈ Entry.typeNames
  order : schema.Pairwise fun a b => place fields a.1 < place fields b.1

/-- The first name whose value is at fault. -/
structure FirstFault (fields : List (String × Json)) (name : String) (fault : EntryFault) :
    Prop where
  value : ∃ value, LastFor fields name value ∧ Taken value (.error fault)
  before : ∀ other value, LastFor fields other value → place fields other < place fields name →
    ∃ found?, Taken value (.ok found?)

theorem mem_entries_iff :
    (name, value) ∈ (OrderedMap.ofList fields).entries ↔ LastFor fields name value := by
  rw [OrderedMap.mem_entries_iff, OrderedMap.get?_ofList_eq_some_iff]

theorem entries_in_order (fields : List (String × Json)) :
    (OrderedMap.ofList fields).entries.Pairwise fun a b => place fields a.1 < place fields b.1 := by
  have hkeys := pairwise_eraseDups (fields.map Prod.fst)
  rwa [← OrderedMap.keys_ofList, OrderedMap.keys, List.pairwise_map] at hkeys

theorem holds_filterMap (fields : List (String × Json)) :
    Holds fields ((OrderedMap.ofList fields).entries.filterMap kept?) := by
  have hmem : ∀ name entry,
      (name, entry) ∈ (OrderedMap.ofList fields).entries.filterMap kept? ↔
        ∃ value, LastFor fields name value ∧ Taken value (.ok (some entry)) := by
    intro name entry
    rw [List.mem_filterMap]
    constructor
    · rintro ⟨⟨_, value⟩, he, hkept⟩
      obtain ⟨rfl, htaken⟩ := kept?_eq_some_iff.mp hkept
      exact ⟨value, mem_entries_iff.mp he, htaken⟩
    · rintro ⟨value, hlast, htaken⟩
      exact ⟨_, mem_entries_iff.mpr hlast, kept?_eq_some_iff.mpr ⟨rfl, htaken⟩⟩
  have horder : ((OrderedMap.ofList fields).entries.filterMap kept?).Pairwise fun a b =>
      place fields a.1 < place fields b.1 := by
    refine (entries_in_order fields).filterMap kept? fun e f hlt a ha b hb => ?_
    rw [← (kept?_eq_some_iff.mp ha).1, ← (kept?_eq_some_iff.mp hb).1]
    exact hlt
  constructor
  case names =>
    refine List.pairwise_map.mpr (horder.imp fun {a b} hlt he => ?_)
    exact Nat.lt_irrefl _ (he ▸ hlt)
  case entries => exact hmem
  case types =>
    intro name entry he
    obtain ⟨value, hlast, htaken⟩ := (hmem name entry).mp he
    obtain ⟨parts, rfl, htype⟩ := htaken.typed
    exact ⟨parts, hlast, htype⟩
  case order => exact horder

theorem firstFault_of_split {before after : List (String × Json)} {fault : EntryFault}
    (h : (OrderedMap.ofList fields).entries = before ++ (name, value) :: after)
    (hbefore : ∀ b ∈ before, ∃ found?, Taken b.2 (.ok found?)) (hf : Taken value (.error fault)) :
    FirstFault fields name fault := by
  have horder := h ▸ entries_in_order fields
  obtain ⟨-, hrest, -⟩ := List.pairwise_append.mp horder
  constructor
  case value =>
    refine ⟨value, mem_entries_iff.mp ?_, hf⟩
    rw [h]
    exact List.mem_append_right before List.mem_cons_self
  case before =>
    intro other w hlast hlt
    rw [← mem_entries_iff, h, List.mem_append, List.mem_cons] at hlast
    rcases hlast with hmem | heq | hmem
    · exact hbefore _ hmem
    · cases heq
      exact absurd hlt (Nat.lt_irrefl _)
    · exact absurd hlt (Nat.lt_asymm ((List.pairwise_cons.mp hrest).1 _ hmem))

theorem FirstFault.unique {other : String} {fault fault' : EntryFault}
    (h : FirstFault fields name fault) (h' : FirstFault fields other fault') :
    name = other ∧ fault = fault' := by
  obtain ⟨value, hlast, hf⟩ := h.value
  obtain ⟨value', hlast', hf'⟩ := h'.value
  have hmem : ∀ {k : String} {v : Json}, LastFor fields k v → k ∈ fields.map Prod.fst := by
    rintro k v ⟨before, after, rfl, -⟩
    simp
  rcases Nat.lt_trichotomy (place fields name) (place fields other) with hlt | heq | hlt
  · exact absurd (h'.before name value hlast hlt) hf.not_ok
  · obtain rfl : name = other := (List.idxOf_inj (hmem hlast)).mp heq
    rw [← OrderedMap.get?_ofList_eq_some_iff] at hlast hlast'
    obtain rfl : value = value' := Option.some.inj (hlast.symm.trans hlast')
    have hsame := hf.eq_ofJson.symm.trans hf'.eq_ofJson
    exact ⟨rfl, by simpa using hsame⟩
  · exact absurd (h.before other value' hlast' hlt) hf'.not_ok

/-- A document is sound and read, or its first fault is found. -/
theorem read_or_fault (origin : Path) (fields : List (String × Json)) :
    ((∀ name value, LastFor fields name value → ∃ found?, Taken value (.ok found?)) ∧
      ofFields origin (OrderedMap.ofList fields).entries =
        .ok ((OrderedMap.ofList fields).entries.filterMap kept?)) ∨
    ∃ name fault, FirstFault fields name fault ∧
      ofFields origin (OrderedMap.ofList fields).entries = .error (.schema origin name fault) := by
  rcases sound_or_fault (OrderedMap.ofList fields).entries with
    hsound | ⟨before, ⟨name, value⟩, after, fault, hsplit, hbefore, hf⟩
  · exact .inl ⟨fun name value hlast => hsound _ (mem_entries_iff.mpr hlast),
      ofFields_of_sound hsound⟩
  · refine .inr ⟨name, fault, firstFault_of_split hsplit hbefore hf, ?_⟩
    rw [hsplit]
    exact ofFields_of_fault hbefore hf

end Documents

theorem ofText_of_fields {text : String} {fields : List (String × Json)}
    (h : Json.fieldsOfText? text = some fields) (origin : Path) :
    ofText text origin = ofFields origin (OrderedMap.ofList fields).entries := by
  simp only [ofText, h]

/-- A document is read exactly if all its values are sound, each name with the value given last. The
schema then holds the entries of known types in order. Otherwise the error names the first value at
fault. Names whose values are of unknown types may as well not be there. -/
theorem read_whole {text : String} {fields : List (String × Json)}
    (h : Json.fieldsOfText? text = some fields) (origin : Path) :
    ((∃ schema, ofText text origin = .ok schema) ↔
      ∀ name value, LastFor fields name value → ∃ found?, Taken value (.ok found?)) ∧
    (∀ schema, ofText text origin = .ok schema → Holds fields schema) ∧
    (∀ e, ofText text origin = .error e ↔
      ∃ name fault, FirstFault fields name fault ∧ e = .schema origin name fault) ∧
    ∀ (text' : String) (more : List (String × Json)) (keep : String → Bool),
      Json.fieldsOfText? text' = some more → more.filter (fun e => keep e.1) = fields →
      (∀ name value, LastFor more name value → keep name = false → Taken value (.ok none)) →
      ofText text' origin = ofText text origin := by
  rw [ofText_of_fields h]
  refine ⟨?_, ?_, ?_, ?_⟩
  · rcases read_or_fault origin fields with ⟨hsound, hread⟩ | ⟨name, fault, hfirst, hread⟩
    · exact iff_of_true ⟨_, hread⟩ hsound
    · refine iff_of_false ?_ fun hsound => ?_
      · rintro ⟨schema, hok⟩
        cases hread.symm.trans hok
      · obtain ⟨value, hlast, hf⟩ := hfirst.value
        exact hf.not_ok (hsound name value hlast)
  · intro schema hok
    rcases read_or_fault origin fields with ⟨-, hread⟩ | ⟨name, fault, -, hread⟩
    · cases hread.symm.trans hok
      exact holds_filterMap fields
    · cases hread.symm.trans hok
  · intro e
    rcases read_or_fault origin fields with ⟨hsound, hread⟩ | ⟨name, fault, hfirst, hread⟩
    · refine iff_of_false ?_ ?_
      · intro he
        cases hread.symm.trans he
      · rintro ⟨name, fault, hfirst, -⟩
        obtain ⟨value, hlast, hf⟩ := hfirst.value
        exact hf.not_ok (hsound name value hlast)
    · constructor
      · intro he
        cases hread.symm.trans he
        exact ⟨name, fault, hfirst, rfl⟩
      · rintro ⟨other, fault', hfirst', rfl⟩
        obtain ⟨rfl, rfl⟩ := hfirst.unique hfirst'
        exact hread
  · intro text' more keep h' hmore hunknown
    rw [ofText_of_fields h', ← hmore, OrderedMap.entries_ofList_filter, ofFields_filter]
    rintro ⟨name, value⟩ he hk
    exact hunknown name value (mem_entries_iff.mp he) hk

/-! ## Examples -/

namespace Repeated

def file : Path := ⟨"config.json"⟩

def typed (name : String) : Json := .object [("type", .string name)]

def plainText : String :=
  "\x7b\"a\":\x7b\"type\":\"bool\"\x7d,\"c\":\x7b\"type\":\"int\"\x7d," ++
  "\"a\":\x7b\"type\":\"string\"\x7d\x7d"

def plain : List (String × Json) := [("a", typed "bool"), ("c", typed "int"), ("a", typed "string")]

def mixedText : String :=
  "\x7b\"a\":\x7b\"type\":\"bool\"\x7d,\"u\":\x7b\"type\":\"later\"\x7d," ++
  "\"c\":\x7b\"type\":\"int\"\x7d,\"a\":\x7b\"type\":\"string\"\x7d\x7d"

def mixed : List (String × Json) :=
  [("a", typed "bool"), ("u", typed "later"), ("c", typed "int"), ("a", typed "string")]

def faultyText : String :=
  "\x7b\"u\":\x7b\"type\":\"later\"\x7d,\"x\":\x7b\"type\":\"recipe\",\"path\":true\x7d," ++
  "\"y\":null\x7d"

def faulty : List (String × Json) :=
  [("u", typed "later"), ("x", .object [("path", .bool true), ("type", .string "recipe")]),
    ("y", .null)]

theorem fieldsOfText?_plain : Json.fieldsOfText? plainText = some plain := by cbv

theorem fieldsOfText?_mixed : Json.fieldsOfText? mixedText = some mixed := by cbv

theorem fieldsOfText?_faulty : Json.fieldsOfText? faultyText = some faulty := by cbv

end Repeated

/-- The unknown type makes no difference, the last value of a name counts at its first place, and of two
values at fault the first one is named. -/
theorem read_whole_repeated :
    Json.fieldsOfText? Repeated.plainText = some Repeated.plain ∧
    (∃ schema, ofText Repeated.plainText Repeated.file = .ok schema ∧
      Holds Repeated.plain schema ∧
      schema.map (fun e => (e.1, e.2.typeName)) = [("a", "string"), ("c", "int")]) ∧
    ofText Repeated.mixedText Repeated.file = ofText Repeated.plainText Repeated.file ∧
    FirstFault Repeated.faulty "x" .malformed := by
  obtain ⟨-, hholds, -, hsame⟩ := read_whole Repeated.fieldsOfText?_plain Repeated.file
  obtain ⟨-, -, hfault, -⟩ := read_whole Repeated.fieldsOfText?_faulty Repeated.file
  refine ⟨Repeated.fieldsOfText?_plain, ?_, ?_, ?_⟩
  · have hread : ∃ schema, ofText Repeated.plainText Repeated.file = .ok schema ∧
        schema.map (fun e => (e.1, e.2.typeName)) = [("a", "string"), ("c", "int")] := by
      rw [ofText_of_fields Repeated.fieldsOfText?_plain]
      exact ⟨_, rfl, rfl⟩
    obtain ⟨schema, hok, hnames⟩ := hread
    exact ⟨schema, hok, hholds schema hok, hnames⟩
  · refine hsame _ _ (fun name => name != "u") Repeated.fieldsOfText?_mixed rfl ?_
    intro name value hlast hname
    obtain rfl : name = "u" := by simpa using hname
    rw [← OrderedMap.get?_ofList_eq_some_iff] at hlast
    cases hlast
    exact Entry.taken_iff.mpr rfl
  · have herror : ofText Repeated.faultyText Repeated.file =
        .error (.schema Repeated.file "x" .malformed) := by
      rw [ofText_of_fields Repeated.fieldsOfText?_faulty]
      rfl
    obtain ⟨name, fault, hfirst, heq⟩ := (hfault _).mp herror
    cases heq
    exact hfirst

end Schema

end MakeConfig
