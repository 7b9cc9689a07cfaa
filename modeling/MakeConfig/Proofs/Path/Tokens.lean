import MakeConfig.Proofs.Lists
import MakeConfig.Proofs.Path.Template
import MakeConfig.Proofs.Tree.Agreement

/-! # Tokens of a template

A template can be taken apart in one way only, into tokens that are as long as they can be and
characters that belong to none. Names are told and values are put in by this one way, so what becomes
of a template depends on the variables with these names alone, and a binding has to watch no others.
-/

namespace MakeConfig

namespace Template

/-! ## Pieces and texts -/

def Piece.text : Piece → List Char
  | .literal c => [c]
  | .token name => '$' :: name

def textOf (ps : List Piece) : List Char := ps.flatMap Piece.text

@[simp] theorem textOf_cons (piece : Piece) (ps : List Piece) :
    textOf (piece :: ps) = piece.text ++ textOf ps := List.flatMap_cons

@[simp] theorem Piece.text_dollar (name : List Char) : (Piece.dollar name).text = '$' :: name := by
  unfold Piece.dollar
  split <;> simp [Piece.text, *]

/-- A piece is whole in front of a text: a token has all of its name, and a dollar sign that stands
for itself has no name behind it. -/
def Piece.Whole : Piece → List Char → Prop
  | .literal c, rest => c = '$' → NoName rest
  | .token name, rest => name ≠ [] ∧ IsName name ∧ NoName rest

theorem Piece.whole_dollar {name rest : List Char} (hname : IsName name) (hrest : NoName rest) :
    (Piece.dollar name).Whole rest := by
  unfold Piece.dollar
  split
  · exact fun _ => hrest
  · next hne => exact ⟨hne, hname, hrest⟩

/-- A text taken apart: its pieces one after the other, each of them whole. -/
structure Splits (cs : List Char) (ps : List Piece) : Prop where
  text : textOf ps = cs
  whole : ∀ piece after, piece :: after <:+ ps → piece.Whole (textOf after)

theorem splits_nil : Splits [] [] where
  text := rfl
  whole _ _ h := by simp at h

theorem splits_cons_iff {cs : List Char} {piece : Piece} {ps : List Piece} :
    Splits cs (piece :: ps) ↔
      cs = piece.text ++ textOf ps ∧ piece.Whole (textOf ps) ∧ Splits (textOf ps) ps := by
  constructor
  · rintro ⟨rfl, hwhole⟩
    refine ⟨textOf_cons piece ps, hwhole piece ps List.suffix_rfl, rfl, fun next after h => ?_⟩
    exact hwhole next after (h.trans (List.suffix_cons piece ps))
  · rintro ⟨rfl, hpiece, hps⟩
    refine ⟨textOf_cons piece ps, fun next after h => ?_⟩
    rcases List.suffix_cons_iff.mp h with h | h
    · cases h
      exact hpiece
    · exact hps.whole next after h

theorem splits_pieces (cs : List Char) : Splits cs (pieces cs) := by
  induction cs using Template.induction with
  | nil =>
    rw [pieces_nil]
    exact splits_nil
  | literal c cs hc ih =>
    rw [pieces_cons hc, splits_cons_iff, ih.text]
    exact ⟨rfl, fun he => absurd he hc, ih⟩
  | dollar name cs hname hcs ih =>
    rw [pieces_dollar hname hcs, splits_cons_iff, ih.text, Piece.text_dollar]
    exact ⟨rfl, Piece.whole_dollar hname hcs, ih⟩

theorem Splits.eq_pieces {cs : List Char} {ps : List Piece} (h : Splits cs ps) : ps = pieces cs := by
  induction ps generalizing cs with
  | nil =>
    obtain rfl : cs = [] := h.text.symm
    rw [pieces_nil]
  | cons piece ps ih =>
    obtain ⟨rfl, hwhole, hps⟩ := splits_cons_iff.mp h
    have hrest := ih hps
    cases piece with
    | literal c =>
      by_cases hc : c = '$'
      · subst hc
        have hbare : IsName [] := by simp [IsName]
        have hcut := pieces_dollar hbare (hwhole rfl)
        rw [List.nil_append, ← hrest] at hcut
        exact hcut.symm
      · rw [Piece.text, List.singleton_append, pieces_cons hc, ← hrest]
    | token name =>
      obtain ⟨hne, hname, hnone⟩ := hwhole
      rw [Piece.text, List.cons_append, pieces_dollar hname hnone, ← hrest, Piece.dollar, if_neg hne]

/-- There is one way to take a text apart. -/
theorem splits_iff {cs : List Char} {ps : List Piece} : Splits cs ps ↔ ps = pieces cs := by
  constructor
  · exact Splits.eq_pieces
  · rintro rfl
    exact splits_pieces cs

/-! ## Values and names -/

/-- What becomes of a piece: a token gives way to the value of its name, and what has none stays as
it is written. -/
inductive Piece.Becomes (f : String → Option String) : Piece → List Char → Prop where
  | literal (c : Char) : Becomes f (.literal c) [c]
  | known {name : List Char} {value : String} :
      f (String.ofList name) = some value → Becomes f (.token name) value.toList
  | unknown {name : List Char} :
      f (String.ofList name) = none → Becomes f (.token name) (Piece.token name).text

theorem Piece.becomes_fill (f : String → Option String) (piece : Piece) :
    piece.Becomes f (piece.fill f) := by
  cases piece with
  | literal c => exact .literal c
  | token name =>
    cases hv : f (String.ofList name) with
    | some value =>
      simp only [Piece.fill, hv]
      exact .known hv
    | none =>
      simp only [Piece.fill, hv]
      exact .unknown hv

theorem fillChars_becomes (f : String → Option String) (cs : List Char) :
    ∃ parts, List.Forall₂ (Piece.Becomes f) (pieces cs) parts ∧ fillChars f cs = parts.flatten := by
  refine ⟨(pieces cs).map (Piece.fill f), ?_, List.flatMap_def⟩
  rw [List.forall₂_map_right_iff, List.forall₂_same]
  exact fun piece _ => piece.becomes_fill f

theorem firstsOf_names (template : String) :
    FirstsOf ((pieces template.toList).filterMap Piece.name?) (names template) :=
  firstsOf_eraseDups _

theorem fill_of_not_hasTokens {template : String} (h : hasTokens template = false)
    (f : String → Option String) : fill f template = template := by
  have hplain : '$' ∉ template.toList := by simpa [hasTokens] using h
  have hfill := fillChars_append f hplain []
  rw [List.append_nil, fillChars_nil, List.append_nil] at hfill
  rw [← String.toList_inj, toList_fill, hfill]

end Template

/-! ## Bindings that watch their names -/

namespace Binding

variable {κ : Type} [DecidableEq κ]

def hear (k : κ) (name value : String) (b : Binding) (key : κ) : Binding :=
  if key = k then b.learn name value else b

/-- Changes of variables one after the other, with a binding that hears of them under a key. -/
def follow (k : κ) (start : Variables κ × Binding) (changes : List (String × String)) :
    Variables κ × Binding :=
  changes.foldl
    (fun p change => p.1.set change.1 change.2 (fun _ => hear k change.1 change.2) p.2) start

section Heard

variable (k : κ) (name value : String) (b : Binding)

@[simp] theorem raw_hear (key : κ) : (b.hear k name value key).raw = b.raw := by
  unfold hear
  split <;> rfl

@[simp] theorem origin_hear (key : κ) : (b.hear k name value key).origin = b.origin := by
  unfold hear
  split <;> rfl

@[simp] theorem raw_foldl_hear (keys : List κ) : (keys.foldl (hear k name value) b).raw = b.raw := by
  induction keys generalizing b with
  | nil => rfl
  | cons key keys ih => rw [List.foldl_cons, ih, raw_hear]

@[simp] theorem origin_foldl_hear (keys : List κ) :
    (keys.foldl (hear k name value) b).origin = b.origin := by
  induction keys generalizing b with
  | nil => rfl
  | cons key keys ih => rw [List.foldl_cons, ih, origin_hear]

/-- It does not matter how often a binding hears of the same change. -/
theorem value?_foldl_hear (keys : List κ) (other : String) :
    (keys.foldl (hear k name value) b).value? other =
      if k ∈ keys ∧ other = name ∧ other ∈ Template.names b.raw then some value
      else b.value? other := by
  induction keys generalizing b with
  | nil => simp
  | cons key keys ih =>
    rw [List.foldl_cons, ih, raw_hear]
    by_cases hk : key = k
    · simp only [hear, hk, if_true, value?_learn, names_eq, List.mem_cons, true_or, true_and]
      grind
    · have hne : k ≠ key := fun he => hk he.symm
      simp only [hear, hk, if_false, List.mem_cons, hne, false_or]

theorem raw_set (s : Variables κ) :
    (s.set name value (fun _ => hear k name value) b).2.raw = b.raw := by
  unfold Variables.set
  split <;> simp

theorem origin_set (s : Variables κ) :
    (s.set name value (fun _ => hear k name value) b).2.origin = b.origin := by
  unfold Variables.set
  split <;> simp

end Heard

/-- A binding under a key that watches all its names knows the values in force. -/
structure Kept (k : κ) (s : Variables κ) (b : Binding) : Prop where
  watching : ∀ name ∈ Template.names b.raw, k ∈ s.watching name
  current : b.Current s

theorem kept_bind (s : Variables κ) (k : κ) (raw : String) (origin : Path) :
    Kept k (s.watchAll k (Template.names raw)) (bind raw origin s.values) where
  watching _ hn := (Variables.mem_watching_watchAll ..).mpr (.inr ⟨rfl, hn⟩)
  current := by
    rw [← Variables.values_watchAll s k (Template.names raw)]
    exact current_bind raw origin _

theorem Kept.set {k : κ} {s : Variables κ} {b : Binding} (h : Kept k s b) (name value : String) :
    Kept k (s.set name value (fun _ => hear k name value) b).1
      (s.set name value (fun _ => hear k name value) b).2 := by
  unfold Variables.set
  split
  · constructor
    · intro other ho
      rw [raw_foldl_hear] at ho
      exact h.watching other ho
    · intro other ho
      rw [names_eq, raw_foldl_hear] at ho
      rw [value?_foldl_hear, Variables.watching_write, Variables.get?_write]
      by_cases hn : other = name
      · subst hn
        simp [ho, h.watching other ho]
      · simp only [hn, false_and, and_false, if_false]
        exact h.current other (b.names_eq ▸ ho)
  · exact h

theorem kept_follow {k : κ} {p : Variables κ × Binding} (h : Kept k p.1 p.2)
    (changes : List (String × String)) :
    Kept k (follow k p changes).1 (follow k p changes).2 ∧
      (follow k p changes).2.raw = p.2.raw ∧ (follow k p changes).2.origin = p.2.origin := by
  induction changes generalizing p with
  | nil => exact ⟨h, rfl, rfl⟩
  | cons change changes ih =>
    obtain ⟨hkept, hraw, horigin⟩ := ih (h.set change.1 change.2)
    exact ⟨hkept, hraw.trans (raw_set ..), horigin.trans (origin_set ..)⟩

end Binding

namespace Template

/-- A template has one splitting into characters and tokens. Filling it replaces the tokens whose
names have values and nothing else, its names are those of the tokens in order of first appearance,
and so two lookups that agree on these names fill it alike. A binding that is told of the changes of
these names leads where the variables say. -/
theorem tokens_named_and_filled (template : String) :
    ∃ ps, (∀ qs, Splits template.toList qs ↔ qs = ps) ∧
      (∀ f, ∃ parts, List.Forall₂ (Piece.Becomes f) ps parts ∧
        (fill f template).toList = parts.flatten) ∧
      FirstsOf (ps.filterMap Piece.name?) (names template) ∧
      (hasTokens template = false → ∀ f, fill f template = template) ∧
      (∀ f g, (∀ name ∈ names template, f name = g name) → fill f template = fill g template) ∧
      ∀ {κ : Type} [DecidableEq κ] (s : Variables κ) (k : κ) (origin : Path)
        (changes : List (String × String)) (after : Variables κ) (b : Binding),
        Binding.follow k (s.watchAll k (names template), .bind template origin s.values) changes =
            (after, b) →
          b.path = origin.joinNormal (after.fill template) ∧
          b.unresolved = (names template).filter fun name => !after.contains name := by
  refine ⟨pieces template.toList, fun qs => splits_iff, fun f => ?_, firstsOf_names template,
    fill_of_not_hasTokens, fun f g => fill_congr, ?_⟩
  · rw [toList_fill]
    exact fillChars_becomes f _
  · intro κ _ s k origin changes after b he
    obtain ⟨hkept, hraw, horigin⟩ :=
      Binding.kept_follow (p := (s.watchAll k (names template), .bind template origin s.values))
        (Binding.kept_bind s k template origin) changes
    rw [he] at hkept hraw horigin
    dsimp only at hkept hraw horigin
    rw [hkept.current.path_eq, hkept.current.unresolved_eq, hraw, Binding.pathWith, hraw, horigin]
    exact ⟨rfl, rfl⟩

namespace Adjacent

def template : String := "$$A/$B_1é$A"

def split : List Piece :=
  [.literal '$', .token ['A'], .literal '/', .token ['B', '_', '1'], .literal 'é', .token ['A']]

def start : Variables Nat × Binding :=
  (Variables.empty.watchAll 0 (names template), .bind template ⟨"/r"⟩ (.empty : OrderedMap String))

def after : Variables Nat × Binding := Binding.follow 0 start [("B_1", "x"), ("B", "y"), ("B_1", "$A")]

end Adjacent

open Adjacent in
theorem tokens_named_and_filled_adjacent :
    (∀ qs, Splits template.toList qs ↔ qs = split) ∧ FirstsOf ["A", "B_1", "A"] (names template) ∧
      after.2.path = ⟨"/r/$$A/$Aé$A"⟩ ∧ after.2.unresolved = ["A"] ∧
      ∀ f : String → Option String, f "A" = none → f "B_1" = some "$A" →
        fill f template = "$$A/$Aé$A" := by
  obtain ⟨ps, hsplit, -, hnames, -, hagree, hbinding⟩ := tokens_named_and_filled template
  obtain rfl : split = ps := (hsplit split).mp (splits_iff.mpr (by decide +kernel))
  obtain ⟨hpath, hunresolved⟩ := hbinding .empty 0 ⟨"/r"⟩ _ after.1 after.2 rfl
  refine ⟨hsplit, hnames, hpath.trans (by decide +kernel), hunresolved.trans (by decide +kernel), ?_⟩
  intro f ha hb
  have hf : ∀ name ∈ names template, f name = after.1.get? name := by
    have hall : names template = ["A", "B_1"] := by decide +kernel
    have hvalues : after.1.get? "A" = none ∧ after.1.get? "B_1" = some "$A" := by decide +kernel
    simp [hall, ha, hb, hvalues]
  exact (hagree f _ hf).trans (by decide +kernel)

end Template

end MakeConfig
