import MakeConfig.OrderedMap
import MakeConfig.Path.Route

/-! # Path templates

A template is a path in which `$NAME` stands for a variable, NAME being the longest run of
ASCII letters, digits and underscores after the dollar sign. Variables without a value
stay as they are written, and values are not searched again.
-/

namespace MakeConfig

namespace Template

def isNameChar (c : Char) : Bool := c.isAlphanum || c == '_'

inductive Piece where
  | literal (char : Char)
  | token (name : List Char)
  deriving DecidableEq, Repr

theorem length_dropWhile_le (p : Char → Bool) (cs : List Char) :
    (cs.dropWhile p).length ≤ cs.length :=
  (List.dropWhile_suffix p).length_le

/-- The pieces of a template, each token as long as possible. -/
def pieces : List Char → List Piece
  | [] => []
  | c :: cs =>
    if c = '$' ∧ cs.takeWhile isNameChar ≠ [] then
      .token (cs.takeWhile isNameChar) :: pieces (cs.dropWhile isNameChar)
    else .literal c :: pieces cs
termination_by cs => cs.length
decreasing_by
  · have := length_dropWhile_le isNameChar cs
    simp only [List.length_cons]
    omega
  · simp

def hasTokens (template : String) : Bool := template.toList.contains '$'

def Piece.name? : Piece → Option String
  | .token name => some (String.ofList name)
  | .literal _ => none

/-- The names of the variables in order of first appearance. -/
def names (template : String) : List String :=
  ((pieces template.toList).filterMap Piece.name?).eraseDups

theorem nodup_eraseDups {α : Type} [BEq α] [LawfulBEq α] (as : List α) : as.eraseDups.Nodup := by
  suffices h : ∀ n (as : List α), as.length ≤ n → as.eraseDups.Nodup from h _ as (Nat.le_refl _)
  intro n
  induction n with
  | zero =>
    intro as h
    rw [List.eq_nil_of_length_eq_zero (Nat.le_zero.mp h)]
    simp
  | succ n ih =>
    intro as h
    cases as with
    | nil => simp
    | cons a as =>
      rw [List.eraseDups_cons, List.nodup_cons, List.mem_eraseDups]
      refine ⟨by simp, ih _ ?_⟩
      have := List.length_filter_le (fun b => !b == a) as
      simp only [List.length_cons] at h
      omega

theorem nodup_names (template : String) : (names template).Nodup := nodup_eraseDups _

def Piece.fill (value? : String → Option String) : Piece → List Char
  | .literal c => [c]
  | .token name => ((value? (String.ofList name)).map String.toList).getD ('$' :: name)

/-- Put the values of variables into a template. -/
def fill (value? : String → Option String) (template : String) : String :=
  String.ofList ((pieces template.toList).flatMap (Piece.fill value?))

/-- A template reads the values of its own variables only. -/
theorem fill_congr {f g : String → Option String} {template : String}
    (h : ∀ name ∈ names template, f name = g name) : fill f template = fill g template := by
  unfold fill
  simp only [List.flatMap_def]
  congr 2
  apply List.map_congr_left
  intro piece hp
  cases piece with
  | literal c => rfl
  | token name =>
    have hn : String.ofList name ∈ names template := by
      rw [names, List.mem_eraseDups, List.mem_filterMap]
      exact ⟨_, hp, rfl⟩
    simp only [Piece.fill, h _ hn]

end Template

/-- A template relative to a directory, with the values of its variables as far as they are
known. -/
structure Binding where
  raw : String
  origin : Path
  known : OrderedMap (Option String)
  keys_known : known.keys = Template.names raw

namespace Binding

def bind (raw : String) (origin : Path) (values : OrderedMap String) : Binding where
  raw := raw
  origin := origin
  known := OrderedMap.ofList ((Template.names raw).map fun n => (n, values.get? n))
  keys_known := OrderedMap.keys_ofList_map (Template.nodup_names raw) _

def names (b : Binding) : List String := b.known.keys

def unresolved (b : Binding) : List String :=
  (b.known.entries.filter (·.2.isNone)).map Prod.fst

def uses (b : Binding) (name : String) : Bool := b.known.contains name

def value? (b : Binding) (name : String) : Option String := (b.known.get? name).join

/-- Take note of a new value of a variable that the template uses. -/
def learn (b : Binding) (name value : String) : Binding :=
  { b with
    known := b.known.modify name fun _ => some value
    keys_known := by rw [OrderedMap.keys_modify, b.keys_known] }

/-- The path with the given values. They are put in before the path is taken relative to its
origin, so that a value can make it absolute. -/
def pathWith (b : Binding) (value? : String → Option String) : Path :=
  b.origin.joinNormal (Template.fill value? b.raw)

def path (b : Binding) : Path := b.pathWith b.value?

@[simp] theorem raw_bind (raw : String) (origin : Path) (values : OrderedMap String) :
    (bind raw origin values).raw = raw := rfl

@[simp] theorem origin_bind (raw : String) (origin : Path) (values : OrderedMap String) :
    (bind raw origin values).origin = origin := rfl

@[simp] theorem raw_learn (b : Binding) (name value : String) :
    (b.learn name value).raw = b.raw := rfl

@[simp] theorem origin_learn (b : Binding) (name value : String) :
    (b.learn name value).origin = b.origin := rfl

theorem names_eq (b : Binding) : b.names = Template.names b.raw := b.keys_known

@[simp] theorem names_learn (b : Binding) (name value : String) :
    (b.learn name value).names = b.names := by
  rw [names_eq, names_eq, raw_learn]

theorem uses_iff (b : Binding) (name : String) : b.uses name = true ↔ name ∈ b.names :=
  b.known.contains_iff name

theorem unresolved_eq (b : Binding) :
    b.unresolved = b.names.filter fun name => (b.value? name).isNone := by
  unfold unresolved names
  rw [OrderedMap.map_fst_filter]
  apply List.filter_congr
  intro name hn
  obtain ⟨v, hv⟩ := Option.isSome_iff_exists.mp ((b.known.isSome_get? name).mpr hn)
  simp [value?, hv]

theorem value?_bind (raw : String) (origin : Path) (values : OrderedMap String) (name : String) :
    (bind raw origin values).value? name =
      if name ∈ Template.names raw then values.get? name else none := by
  unfold value? bind
  rw [OrderedMap.get?_ofList_map (Template.nodup_names raw)]
  split <;> rfl

theorem value?_learn (b : Binding) (name value other : String) :
    (b.learn name value).value? other =
      if other = name ∧ other ∈ b.names then some value else b.value? other := by
  unfold value? learn
  rw [OrderedMap.get?_modify]
  by_cases h : other = name
  · subst h
    cases hk : b.known.get? other with
    | none =>
      have hn : other ∉ b.names := (b.known.get?_eq_none_iff other).mp hk
      simp [hn]
    | some v =>
      have hn : other ∈ b.names := OrderedMap.mem_keys_of_get? hk
      simp [hn]
  · simp [h]

end Binding

end MakeConfig
