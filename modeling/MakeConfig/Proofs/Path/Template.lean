import MakeConfig.Variables
import Mathlib.Data.List.TakeWhile

/-! # Templates in several passes

A template is made of characters and of dollar signs, each with a name behind it or with none. A
pass leaves a dollar sign where it has no value for the name, and a value that comes to stand right
behind goes on with that name, so that the next pass looks for another one. Wherever this does not
happen, several passes give what one gives.
-/

namespace MakeConfig

namespace Template

/-! ## Pieces -/

def Piece.dollar (name : List Char) : Piece := if name = [] then .literal '$' else .token name

def IsName (cs : List Char) : Prop := ∀ c ∈ cs, isNameChar c = true

def NoName (cs : List Char) : Prop := cs.takeWhile isNameChar = []

instance (cs : List Char) : Decidable (NoName cs) := inferInstanceAs (Decidable (_ = []))

theorem IsName.append {name more : List Char} (h : IsName name) (h' : IsName more) :
    IsName (name ++ more) :=
  fun c hc => (List.mem_append.mp hc).elim (h c) (h' c)

theorem IsName.dollar_not_mem {name : List Char} (h : IsName name) : '$' ∉ name := by
  intro hm
  have hdollar : isNameChar '$' = false := by decide
  cases hdollar.symm.trans (h _ hm)

theorem exists_name (cs : List Char) :
    ∃ name rest, IsName name ∧ NoName rest ∧ cs = name ++ rest := by
  refine ⟨cs.takeWhile isNameChar, cs.dropWhile isNameChar, fun _ => List.mem_takeWhile_imp, ?_,
    List.takeWhile_append_dropWhile.symm⟩
  have hnot := List.head?_dropWhile_not isNameChar cs
  unfold NoName
  cases hrest : cs.dropWhile isNameChar with
  | nil => rfl
  | cons c rest =>
    rw [hrest] at hnot
    exact List.takeWhile_cons_of_neg (by simpa using hnot)

section Cut

variable {name cs : List Char} (hname : IsName name) (hcs : NoName cs)

include hname hcs

theorem takeWhile_name : (name ++ cs).takeWhile isNameChar = name := by
  rw [List.takeWhile_append_of_pos hname, hcs, List.append_nil]

theorem dropWhile_name : (name ++ cs).dropWhile isNameChar = cs := by
  have hall := List.takeWhile_append_dropWhile (p := isNameChar) (l := name ++ cs)
  rw [takeWhile_name hname hcs] at hall
  exact List.append_cancel_left hall

theorem pieces_dollar : pieces ('$' :: (name ++ cs)) = .dollar name :: pieces cs := by
  rw [pieces, takeWhile_name hname hcs, dropWhile_name hname hcs, Piece.dollar]
  by_cases hne : name = []
  · rw [if_neg fun hd => hd.2 hne, if_pos hne, hne, List.nil_append]
  · rw [if_pos ⟨rfl, hne⟩, if_neg hne]

end Cut

@[simp] theorem pieces_nil : pieces [] = [] := by rw [pieces]

theorem pieces_cons {c : Char} (hc : c ≠ '$') (cs : List Char) :
    pieces (c :: cs) = .literal c :: pieces cs := by
  rw [pieces, if_neg fun h => hc h.1]

theorem pieces_append {cs : List Char} (h : '$' ∉ cs) (rest : List Char) :
    pieces (cs ++ rest) = cs.map .literal ++ pieces rest := by
  induction cs with
  | nil => rfl
  | cons c cs ih =>
    have hc : c ≠ '$' := fun he => h (he ▸ List.mem_cons_self)
    have hcs : '$' ∉ cs := fun hm => h (List.mem_cons_of_mem c hm)
    rw [List.cons_append, pieces_cons hc, ih hcs, List.map_cons, List.cons_append]

/-- A template is empty, or a character or a dollar sign with its name stands in front of another
template. -/
theorem induction {P : List Char → Prop} (nil : P [])
    (literal : ∀ c cs, c ≠ '$' → P cs → P (c :: cs))
    (dollar : ∀ name cs, IsName name → NoName cs → P cs → P ('$' :: (name ++ cs)))
    (cs : List Char) : P cs := by
  induction hn : cs.length using Nat.strongRecOn generalizing cs with
  | ind n ih =>
    cases cs with
    | nil => exact nil
    | cons c cs =>
      rw [List.length_cons] at hn
      by_cases hc : c = '$'
      · obtain ⟨name, rest, hname, hrest, rfl⟩ := exists_name cs
        rw [List.length_append] at hn
        exact hc ▸ dollar name rest hname hrest (ih _ (by omega) _ rfl)
      · exact literal c cs hc (ih _ (by omega) _ rfl)

def Mentions (cs : List Char) (name : String) : Prop :=
  ∃ n, .token n ∈ pieces cs ∧ String.ofList n = name

theorem mem_names_iff {name template : String} :
    name ∈ names template ↔ Mentions template.toList name := by
  rw [names, List.mem_eraseDups, List.mem_filterMap]
  constructor
  · rintro ⟨piece, hp, hn⟩
    cases piece with
    | literal c => cases hn
    | token n => exact ⟨n, hp, Option.some.inj hn⟩
  · rintro ⟨n, hp, rfl⟩
    exact ⟨_, hp, rfl⟩

theorem mentions_cons {c : Char} (hc : c ≠ '$') {cs : List Char} {name : String} :
    Mentions (c :: cs) name ↔ Mentions cs name := by
  simp [Mentions, pieces_cons hc]

theorem mentions_append {cs : List Char} (h : '$' ∉ cs) {rest : List Char} {name : String} :
    Mentions (cs ++ rest) name ↔ Mentions rest name := by
  simp [Mentions, pieces_append h]

theorem mentions_dollar {n cs : List Char} (hn : IsName n) (hcs : NoName cs) {name : String} :
    Mentions ('$' :: (n ++ cs)) name ↔ (n ≠ [] ∧ String.ofList n = name) ∨ Mentions cs name := by
  rw [Mentions, pieces_dollar hn hcs, Piece.dollar]
  by_cases hne : n = []
  · simp [hne, Mentions]
  · simp [hne, Mentions, or_and_right, exists_or]

/-! ## Filling -/

variable {f g : String → Option String}

def known? (f : String → Option String) (name : List Char) : Option String :=
  if name = [] then none else f (String.ofList name)

theorem known?_eq_none_iff {name : List Char} :
    known? f name = none ↔ (name ≠ [] → f (String.ofList name) = none) := by
  unfold known?
  split <;> simp [*]

def fillChars (f : String → Option String) (cs : List Char) : List Char :=
  (pieces cs).flatMap (Piece.fill f)

theorem toList_fill (f : String → Option String) (template : String) :
    (fill f template).toList = fillChars f template.toList := String.toList_ofList

theorem Piece.fill_dollar (f : String → Option String) (name : List Char) :
    (Piece.dollar name).fill f = ((known? f name).map String.toList).getD ('$' :: name) := by
  unfold Piece.dollar known?
  split
  · next hne => rw [hne]; rfl
  · rfl

@[simp] theorem fillChars_nil (f : String → Option String) : fillChars f [] = [] := by
  rw [fillChars, pieces_nil, List.flatMap_nil]

theorem fillChars_cons (f : String → Option String) {c : Char} (hc : c ≠ '$') (cs : List Char) :
    fillChars f (c :: cs) = c :: fillChars f cs := by
  rw [fillChars, pieces_cons hc, List.flatMap_cons]
  rfl

theorem fillChars_append (f : String → Option String) {cs : List Char} (h : '$' ∉ cs)
    (rest : List Char) : fillChars f (cs ++ rest) = cs ++ fillChars f rest := by
  have hself : (cs.map Piece.literal).flatMap (Piece.fill f) = cs := by
    rw [List.flatMap_map]
    exact List.flatMap_singleton' cs
  rw [fillChars, pieces_append h, List.flatMap_append, hself, fillChars]

section Dollar

variable {name cs : List Char} (hname : IsName name) (hcs : NoName cs)

include hname hcs

theorem fillChars_dollar (f : String → Option String) :
    fillChars f ('$' :: (name ++ cs)) = (Piece.dollar name).fill f ++ fillChars f cs := by
  rw [fillChars, pieces_dollar hname hcs, List.flatMap_cons, fillChars]

theorem fillChars_of_known {value : String} (hv : known? f name = some value) :
    fillChars f ('$' :: (name ++ cs)) = value.toList ++ fillChars f cs := by
  rw [fillChars_dollar hname hcs, Piece.fill_dollar, hv]
  rfl

theorem fillChars_of_unknown (hv : known? f name = none) :
    fillChars f ('$' :: (name ++ cs)) = '$' :: (name ++ fillChars f cs) := by
  rw [fillChars_dollar hname hcs, Piece.fill_dollar, hv]
  rfl

end Dollar

/-! ## Two passes -/

/-- What is known to one lookup is known to another as the same value. -/
def Extends (g f : String → Option String) : Prop :=
  ∀ name value, f name = some value → g name = some value

def DollarFree (f : String → Option String) : Prop :=
  ∀ name value, f name = some value → '$' ∉ value.toList

/-- The dollar sign of a piece is still there once the piece is filled. -/
def Piece.Stays (f : String → Option String) : Piece → Prop
  | .literal c => c = '$'
  | .token name => f (String.ofList name) = none

instance (f : String → Option String) : DecidablePred (Piece.Stays f)
  | .literal c => inferInstanceAs (Decidable (c = '$'))
  | .token name => inferInstanceAs (Decidable (f (String.ofList name) = none))

/-- Once all is filled, no name goes on behind a piece whose dollar sign stays. -/
def Apart (f : String → Option String) : List Piece → Prop
  | [] => True
  | piece :: after => (piece.Stays f → NoName (after.flatMap (Piece.fill f))) ∧ Apart f after

instance Apart.decidable (f : String → Option String) : DecidablePred (Apart f)
  | [] => .isTrue trivial
  | _ :: after => @instDecidableAnd _ _ _ (Apart.decidable f after)

theorem Piece.stays_dollar_iff {name : List Char} :
    (Piece.dollar name).Stays f ↔ known? f name = none := by
  unfold Piece.dollar known?
  split <;> simp [Piece.Stays]

theorem apart_cons {c : Char} (hc : c ≠ '$') {cs : List Char} :
    Apart f (pieces (c :: cs)) ↔ Apart f (pieces cs) := by
  simp [pieces_cons hc, Apart, Piece.Stays, hc]

theorem apart_dollar {name cs : List Char} (hname : IsName name) (hcs : NoName cs) :
    Apart f (pieces ('$' :: (name ++ cs))) ↔
      (known? f name = none → NoName (fillChars f cs)) ∧ Apart f (pieces cs) := by
  rw [pieces_dollar hname hcs, Apart, Piece.stays_dollar_iff, fillChars]

theorem Extends.known? (h : Extends g f) {name : List Char} {value : String}
    (hv : known? f name = some value) : known? g name = some value := by
  unfold Template.known? at hv ⊢
  split at hv
  · cases hv
  · next hne => rw [if_neg hne, h _ _ hv]

theorem DollarFree.known? (h : DollarFree f) {name : List Char} {value : String}
    (hv : known? f name = some value) : '$' ∉ value.toList := by
  unfold Template.known? at hv
  split at hv
  · cases hv
  · exact h _ _ hv

/-- Where no name goes on, the second pass comes to the pieces that stay. -/
theorem fillChars_fillChars (hf : DollarFree f) (hg : Extends g f) {cs : List Char}
    (h : Apart f (pieces cs)) : fillChars g (fillChars f cs) = fillChars g cs := by
  induction cs using Template.induction with
  | nil => simp
  | literal c cs hc ih =>
    rw [fillChars_cons f hc, fillChars_cons g hc, fillChars_cons g hc, ih ((apart_cons hc).mp h)]
  | dollar name cs hname hcs ih =>
    obtain ⟨hbehind, h⟩ := (apart_dollar hname hcs).mp h
    cases hv : known? f name with
    | some value =>
      rw [fillChars_of_known hname hcs hv, fillChars_append g (hf.known? hv), ih h,
        fillChars_of_known hname hcs (hg.known? hv)]
    | none =>
      rw [fillChars_of_unknown hname hcs hv, fillChars_dollar hname (hbehind hv), ih h,
        fillChars_dollar hname hcs]

/-! ## A pass that changes nothing -/

theorem count_fillChars (hf : DollarFree f) (cs : List Char) :
    (fillChars f cs).count '$' ≤ cs.count '$' ∧
      ((fillChars f cs).count '$' = cs.count '$' → ∀ name, Mentions cs name → f name = none) := by
  induction cs using Template.induction with
  | nil => simp [Mentions]
  | literal c cs hc ih =>
    rw [fillChars_cons f hc, List.count_cons_of_ne hc, List.count_cons_of_ne hc]
    simpa only [mentions_cons hc] using ih
  | dollar name cs hname hcs ih =>
    obtain ⟨hle, hunknown⟩ := ih
    have hnone : name.count '$' = 0 := List.count_eq_zero.mpr hname.dollar_not_mem
    simp only [mentions_dollar hname hcs]
    rw [List.count_cons_self, List.count_append, hnone]
    cases hv : known? f name with
    | some value =>
      have hvalue : value.toList.count '$' = 0 := List.count_eq_zero.mpr (hf.known? hv)
      rw [fillChars_of_known hname hcs hv, List.count_append, hvalue]
      exact ⟨by omega, fun he => by omega⟩
    | none =>
      rw [fillChars_of_unknown hname hcs hv, List.count_cons_self, List.count_append, hnone]
      refine ⟨by omega, fun he other ho => ?_⟩
      rcases ho with ⟨hne, rfl⟩ | ho
      · exact known?_eq_none_iff.mp hv hne
      · exact hunknown (by omega) other ho

theorem fillChars_of_not_mentions {cs : List Char} (h : ∀ name, Mentions cs name → f name = none) :
    fillChars f cs = cs := by
  induction cs using Template.induction with
  | nil => simp
  | literal c cs hc ih =>
    simp only [mentions_cons hc] at h
    rw [fillChars_cons f hc, ih h]
  | dollar name cs hname hcs ih =>
    simp only [mentions_dollar hname hcs] at h
    have hv : known? f name = none := known?_eq_none_iff.mpr fun hne => h _ (.inl ⟨hne, rfl⟩)
    rw [fillChars_of_unknown hname hcs hv, ih fun other ho => h other (.inr ho)]

/-- A pass changes nothing exactly if it knows none of the names that are there. -/
theorem fill_eq_self_iff (hf : DollarFree f) (template : String) :
    fill f template = template ↔ ∀ name ∈ names template, f name = none := by
  rw [← String.toList_inj, toList_fill]
  simp only [mem_names_iff]
  constructor
  · intro h
    exact (count_fillChars hf _).2 (congrArg (List.count '$') h)
  · exact fillChars_of_not_mentions

/-! ## Names that go on -/

def erasing (f : String → Option String) (name : String) : Option String := some ((f name).getD "")

theorem extends_erasing (f : String → Option String) : Extends (erasing f) f := by
  intro name value h
  rw [erasing, h]
  rfl

theorem DollarFree.erasing (h : DollarFree f) : DollarFree (erasing f) := by
  rintro name _ ⟨⟩
  cases hv : f name with
  | none => simp
  | some value => exact h name value hv

theorem length_fill_dollar_erasing {name : List Char} (hv : known? f name = none) :
    ((Piece.dollar name).fill (erasing f)).length = if name = [] then 1 else 0 := by
  have hunknown := known?_eq_none_iff.mp hv
  unfold Piece.dollar
  split
  · rfl
  · next hne => simp [Piece.fill, erasing, hunknown hne]

theorem length_fillChars_dollar {name more rest : List Char} (hname : IsName name)
    (hmore : IsName more) (hrest : NoName rest) (hv : known? f (name ++ more) = none) :
    (fillChars (erasing f) ('$' :: (name ++ (more ++ rest)))).length + more.length =
      (if name ++ more = [] then 1 else 0) + (fillChars (erasing f) (more ++ rest)).length := by
  rw [← List.append_assoc, fillChars_dollar (hname.append hmore) hrest,
    fillChars_append _ hmore.dollar_not_mem, List.length_append, List.length_append,
    length_fill_dollar_erasing hv]
  omega

theorem length_fillChars_erasing (hf : DollarFree f) (cs : List Char)
    (h : ∀ name, Mentions (fillChars f cs) name → f name = none) :
    (fillChars (erasing f) (fillChars f cs)).length ≤ (fillChars (erasing f) cs).length ∧
      ((fillChars (erasing f) (fillChars f cs)).length = (fillChars (erasing f) cs).length →
        Apart f (pieces cs)) := by
  induction cs using Template.induction with
  | nil => simp [Apart]
  | literal c cs hc ih =>
    rw [fillChars_cons f hc] at h ⊢
    rw [fillChars_cons _ hc, fillChars_cons _ hc, List.length_cons, List.length_cons,
      apart_cons hc]
    simp only [mentions_cons hc] at h
    obtain ⟨hle, hapart⟩ := ih h
    exact ⟨by omega, fun he => hapart (by omega)⟩
  | dollar name cs hname hcs ih =>
    rw [apart_dollar hname hcs]
    cases hv : known? f name with
    | some value =>
      have hplain := hf.known? hv
      rw [fillChars_of_known hname hcs hv] at h ⊢
      simp only [mentions_append hplain] at h
      obtain ⟨hle, hapart⟩ := ih h
      rw [fillChars_append _ hplain, fillChars_of_known hname hcs ((extends_erasing f).known? hv),
        List.length_append, List.length_append]
      exact ⟨by omega, fun he => ⟨fun hn => by simp at hn, hapart (by omega)⟩⟩
    | none =>
      rw [fillChars_of_unknown hname hcs hv] at h ⊢
      obtain ⟨more, rest, hmore, hrest, hall⟩ := exists_name (fillChars f cs)
      have hfull := hname.append hmore
      rw [hall, ← List.append_assoc] at h
      simp only [mentions_dollar hfull hrest] at h
      rw [hall] at ih
      simp only [mentions_append hmore.dollar_not_mem] at ih
      obtain ⟨hle, hapart⟩ := ih fun other ho => h other (.inr ho)
      have hmerged : known? f (name ++ more) = none :=
        known?_eq_none_iff.mpr fun hne => h _ (.inl ⟨hne, rfl⟩)
      have hlength := length_fillChars_dollar hname hmore hrest hmerged
      rw [hall, fillChars_dollar hname hcs, List.length_append, length_fill_dollar_erasing hv]
      by_cases hm : more = []
      · subst hm
        simp only [List.nil_append, List.append_nil, List.length_nil] at hlength hle hapart ⊢
        exact ⟨by omega, fun he => ⟨fun _ => hrest, hapart (by omega)⟩⟩
      · have hpos : 0 < more.length := List.length_pos_iff.mpr hm
        rw [if_neg fun hnil => hm (List.append_eq_nil_iff.mp hnil).2] at hlength
        exact ⟨by omega, fun he => by omega⟩

/-! ## Separate names -/

def StartsWithDollar : List Piece → Prop
  | .literal c :: _ => c = '$'
  | .token _ :: _ => True
  | [] => False

instance : DecidablePred StartsWithDollar
  | .literal c :: _ => inferInstanceAs (Decidable (c = '$'))
  | .token _ :: _ => .isTrue trivial
  | [] => .isFalse not_false

/-- No dollar sign stands right behind another one or behind its name. -/
def Separate : List Piece → Prop
  | [] => True
  | piece :: after => (StartsWithDollar [piece] → ¬ StartsWithDollar after) ∧ Separate after

instance Separate.decidable : DecidablePred Separate
  | [] => .isTrue trivial
  | _ :: after => @instDecidableAnd _ _ _ (Separate.decidable after)

theorem startsWithDollar_dollar (name : List Char) (after : List Piece) :
    StartsWithDollar (.dollar name :: after) := by
  unfold Piece.dollar
  split
  · rfl
  · trivial

theorem noName_cons_iff {c : Char} {cs : List Char} :
    NoName (c :: cs) ↔ isNameChar c = false := by
  rw [NoName, List.takeWhile_cons]
  cases isNameChar c <;> simp

theorem noName_fillChars {cs : List Char} (hcs : NoName cs) (h : ¬ StartsWithDollar (pieces cs))
    (f : String → Option String) : NoName (fillChars f cs) := by
  induction cs using Template.induction with
  | nil => rwa [fillChars_nil]
  | literal c cs hc _ =>
    rw [fillChars_cons f hc, noName_cons_iff]
    exact noName_cons_iff.mp hcs
  | dollar name cs hname hrest _ =>
    rw [pieces_dollar hname hrest] at h
    exact absurd (startsWithDollar_dollar name _) h

theorem Separate.apart {cs : List Char} (h : Separate (pieces cs)) (f : String → Option String) :
    Apart f (pieces cs) := by
  induction cs using Template.induction with
  | nil => rwa [pieces_nil] at h ⊢
  | literal c cs hc ih =>
    rw [pieces_cons hc] at h
    exact (apart_cons hc).mpr (ih h.2)
  | dollar name cs hname hcs ih =>
    rw [pieces_dollar hname hcs] at h
    have hnot := h.1 (startsWithDollar_dollar name [])
    exact (apart_dollar hname hcs).mpr ⟨fun _ => noName_fillChars hcs hnot f, ih h.2⟩

/-! ## Passes one after the other -/

theorem fill_fill_iff {template : String} :
    fill g (fill f template) = fill g template ↔
      fillChars g (fillChars f template.toList) = fillChars g template.toList := by
  rw [← String.toList_inj, toList_fill, toList_fill, toList_fill]

theorem apart_of_passes (hf : DollarFree f) {template : String}
    (h : ∀ g, Extends g f → DollarFree g → fill g (fill f template) = fill g template) :
    Apart f (pieces template.toList) := by
  have hself := h f (fun _ _ hv => hv) hf
  have hunknown := (fill_eq_self_iff hf _).mp hself
  simp only [mem_names_iff, toList_fill] at hunknown
  have herased := fill_fill_iff.mp (h (erasing f) (extends_erasing f) hf.erasing)
  exact (length_fillChars_erasing hf template.toList hunknown).2 (congrArg List.length herased)

/-! ## Variables -/

section Variables

variable {κ : Type} {s : Variables κ}

theorem dollarFree_empty : DollarFree (Variables.empty : Variables κ).get? := by
  rintro name value ⟨⟩

theorem DollarFree.write (h : DollarFree s.get?) (name : String) {value : String}
    (hv : '$' ∉ value.toList) : DollarFree (s.write name value).get? := by
  intro other text ho
  rw [Variables.get?_write] at ho
  split at ho
  · cases ho
    exact hv
  · exact h other text ho

theorem extends_write {name : String} (h : s.get? name = none) (value : String) :
    Extends (s.write name value).get? s.get? := by
  intro other text ho
  have hne : other ≠ name := by
    rintro rfl
    cases h.symm.trans ho
  rw [Variables.get?_write, if_neg hne, ho]

end Variables

/-- A template may be filled in two passes instead of one, whatever comes to be known in between,
exactly if no name goes on behind a dollar sign that the first pass leaves; that is so if no dollar
sign stands right behind another one or its name. What variables have filled is left alone by the
same variables exactly if they have none of the names that are there by then. -/
theorem passes_agree_iff {κ : Type} (template : String) :
    (∀ f, DollarFree f →
      ((∀ g, Extends g f → DollarFree g → fill g (fill f template) = fill g template) ↔
        Apart f (pieces template.toList))) ∧
    (Separate (pieces template.toList) → ∀ f, Apart f (pieces template.toList)) ∧
    ∀ s : Variables κ, DollarFree s.get? →
      (s.fill (s.fill template) = s.fill template ↔
        ∀ name ∈ names (s.fill template), s.get? name = none) := by
  refine ⟨fun f hf => ⟨apart_of_passes hf, fun h g hg _ => ?_⟩, fun h f => h.apart f,
    fun s hs => ?_⟩
  · exact fill_fill_iff.mpr (fillChars_fillChars hf hg h)
  · exact fill_eq_self_iff hs _

namespace Passes

def first : Variables Unit := Variables.empty.write "ROOT" "/tmp/proj"

def second : Variables Unit := first.write "ARCH" "arm"

def template : String := "$ROOT/sub/$ARCH/Makefile"

def joining : Variables Unit := Variables.empty.write "A" "b"

end Passes

open Passes in
theorem passes_agree_slashes :
    DollarFree first.get? ∧ Separate (pieces template.toList) ∧
      second.fill (first.fill template) = "/tmp/proj/sub/arm/Makefile" ∧
      first.fill (first.fill template) = first.fill template := by
  have hfirst : DollarFree first.get? := dollarFree_empty.write "ROOT" (by decide)
  have hsecond : DollarFree second.get? := hfirst.write "ARCH" (by decide)
  have hseparate : Separate (pieces template.toList) := by decide +kernel
  obtain ⟨hpasses, hapart, hagain⟩ := passes_agree_iff (κ := Unit) template
  refine ⟨hfirst, hseparate, ?_, (hagain first hfirst).mpr (by decide +kernel)⟩
  have hboth := (hpasses first.get? hfirst).mpr (hapart hseparate _) second.get?
    (extends_write rfl "arm") hsecond
  exact hboth.trans (by decide +kernel)

open Passes in
/-- The value goes on with a name that is not known, so that a later pass looks for another one: it
does not find the value of the first, and the same variables may have one for the other. -/
theorem passes_differ_adjacent :
    (∃ later : Variables Unit, Extends later.get? joining.get? ∧ DollarFree later.get? ∧
      later.fill (joining.fill "$X$A") = "$Xb" ∧ later.fill "$X$A" = "vb") ∧
    ∃ s : Variables Unit, DollarFree s.get? ∧
      s.fill "$X$A" = "$Xb" ∧ s.fill (s.fill "$X$A") = "v" := by
  have hjoining : DollarFree joining.get? := dollarFree_empty.write "A" (by decide)
  refine ⟨⟨joining.write "X" "v", extends_write rfl "v", hjoining.write "X" (by decide), ?_, ?_⟩,
    joining.write "Xb" "v", hjoining.write "Xb" (by decide), ?_, ?_⟩ <;> decide +kernel

end Template

end MakeConfig
