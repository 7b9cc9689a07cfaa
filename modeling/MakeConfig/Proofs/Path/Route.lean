import MakeConfig.Path.Route
import MakeConfig.Proofs.Text.Lines

/-! # Routes and their texts

The text of a route is read back as the same route, so paths in normal form that have the same
components are the same text. The directory of such a path has a text of its own, and a name that is
put behind it gives a path in normal form again.
-/

namespace MakeConfig

namespace Path

/-- A text that is one plain component of a path. -/
structure IsName (n : String) : Prop where
  component : component? n.toList = some (.name n)
  noSlash : '/' ∉ n.toList

instance (n : String) : Decidable (IsName n) :=
  decidable_of_iff (component? n.toList = some (.name n) ∧ '/' ∉ n.toList)
    ⟨fun h => ⟨h.1, h.2⟩, fun h => ⟨h.component, h.noSlash⟩⟩

theorem toList_of_component? {piece : List Char} {n : String}
    (h : component? piece = some (.name n)) : n.toList = piece := by
  unfold component? at h
  split at h
  · cases h
  · cases h
  · cases h
  · cases h
    exact String.toList_ofList

theorem isName_of_component? {piece : List Char} {n : String}
    (h : component? piece = some (.name n)) (hs : '/' ∉ piece) : IsName n := by
  have he := toList_of_component? h
  exact ⟨by rw [he]; exact h, by rw [he]; exact hs⟩

theorem IsName.ne_nil {n : String} (h : IsName n) : n.toList ≠ [] := by
  intro he
  have hc := h.component
  rw [he] at hc
  cases hc

theorem exists_piece_of_mem_components {p : Path} {n : String} (h : .name n ∈ p.components) :
    ∃ piece ∈ p.pieces, component? piece = some (.name n) := by
  unfold components at h
  split at h
  · cases h
  · next first rest hp =>
    rw [hp]
    have hbody : .name n ∈ rest.filterMap component? →
        ∃ piece ∈ first :: rest, component? piece = some (.name n) := by
      intro hm
      obtain ⟨piece, hm, hc⟩ := List.mem_filterMap.mp hm
      exact ⟨piece, List.mem_cons_of_mem first hm, hc⟩
    split at h
    · rcases List.mem_cons.mp h with h | h
      · cases h
      · exact hbody h
    split at h
    · rcases List.mem_cons.mp h with h | h
      · cases h
      · exact hbody h
    · rcases List.mem_append.mp h with h | h
      · exact ⟨first, List.mem_cons_self, Option.mem_toList.mp h⟩
      · exact hbody h

theorem isName_of_mem_components {p : Path} {n : String} (h : .name n ∈ p.components) :
    IsName n := by
  obtain ⟨piece, hp, hc⟩ := exists_piece_of_mem_components h
  exact isName_of_component? hc (Text.not_mem_of_mem_split hp)

theorem mem_text_of_mem_components {p : Path} {n : String} (h : .name n ∈ p.components) {c : Char}
    (hc : c ∈ n.toList) : c ∈ p.text.toList := by
  obtain ⟨piece, hp, hpiece⟩ := exists_piece_of_mem_components h
  exact Text.mem_of_mem_split hp (toList_of_component? hpiece ▸ hc)

end Path

namespace Route

/-- The names of a route are names, and nothing leads up from the root. -/
structure Sound (r : Route) : Prop where
  names : ∀ n ∈ r.names, Path.IsName n
  ascents : r.absolute = true → r.ascents = 0

theorem Sound.step {r : Route} (h : r.Sound) {c : Path.Component}
    (hc : ∀ n, c = .name n → Path.IsName n) : (r.step c).Sound := by
  cases c with
  | root => exact ⟨by rintro n ⟨⟩, fun _ => rfl⟩
  | here => exact h
  | up =>
    simp only [Route.step]
    split
    · exact ⟨fun n hn => h.names n ((List.dropLast_sublist _).subset hn), h.ascents⟩
    split
    · exact h
    · next habsolute => exact ⟨h.names, fun ha => absurd ha habsolute⟩
  | name m =>
    refine ⟨fun n hn => ?_, h.ascents⟩
    rcases List.mem_append.mp hn with hn | hn
    · exact h.names n hn
    · exact hc n (List.mem_singleton.mp hn ▸ rfl)

theorem Sound.follow {r : Route} (h : r.Sound) {cs : List Path.Component}
    (hcs : ∀ n, .name n ∈ cs → Path.IsName n) : (r.follow cs).Sound := by
  induction cs generalizing r with
  | nil => exact h
  | cons c cs ih =>
    refine ih (h.step ?_) fun n hn => hcs n (List.mem_cons_of_mem c hn)
    rintro n rfl
    exact hcs n List.mem_cons_self

theorem sound_start : start.Sound := ⟨by rintro n ⟨⟩, by rintro ⟨⟩⟩

theorem sound_ofPath (p : Path) : (ofPath p).Sound :=
  sound_start.follow fun _ => Path.isName_of_mem_components

/-! ## Components -/

def components (r : Route) : List Path.Component :=
  if r.absolute then .root :: r.names.map .name
  else if r.ascents = 0 ∧ r.names = [] then [.here]
  else List.replicate r.ascents .up ++ r.names.map .name

@[simp] theorem follow_nil (r : Route) : r.follow [] = r := rfl

@[simp] theorem follow_cons (r : Route) (c : Path.Component) (cs : List Path.Component) :
    r.follow (c :: cs) = (r.step c).follow cs := rfl

theorem follow_append (r : Route) (cs ds : List Path.Component) :
    r.follow (cs ++ ds) = (r.follow cs).follow ds := List.foldl_append

theorem follow_names (r : Route) (ns : List String) :
    r.follow (ns.map .name) = { r with names := r.names ++ ns } := by
  induction ns generalizing r with
  | nil => simp
  | cons n ns ih =>
    rw [List.map_cons, follow_cons, ih]
    simp [step]

theorem follow_ups (a k : Nat) :
    (⟨false, a, []⟩ : Route).follow (List.replicate k .up) = ⟨false, a + k, []⟩ := by
  induction k generalizing a with
  | zero => rfl
  | succ k ih =>
    have hstep : (⟨false, a, []⟩ : Route).step .up = ⟨false, a + 1, []⟩ := rfl
    rw [List.replicate_succ, follow_cons, hstep, ih, Nat.add_right_comm, Nat.add_assoc]

/-- Following the components of a route leads there. -/
theorem follow_components {r : Route} (h : r.Sound) : start.follow r.components = r := by
  obtain ⟨absolute, ascents, names⟩ := r
  cases absolute with
  | true =>
    obtain rfl : ascents = 0 := h.ascents rfl
    have hroot : start.follow (.root :: names.map .name) =
        (⟨true, 0, []⟩ : Route).follow (names.map .name) := rfl
    simp only [components, if_true, hroot, follow_names, List.nil_append]
  | false =>
    unfold components
    rw [if_neg (by simp)]
    split
    · next hbare =>
      obtain ⟨rfl, rfl⟩ : ascents = 0 ∧ names = [] := hbare
      rfl
    · have hups := follow_ups 0 ascents
      rw [Nat.zero_add] at hups
      simp only [follow_append, start, hups, follow_names, List.nil_append]

/-! ## Texts -/

/-- The pieces of the text of a route, unless that is a root or a dot. -/
def pieces (r : Route) : List (List Char) :=
  (if r.absolute then [[]] else []) ++ List.replicate r.ascents ['.', '.'] ++
    r.names.map String.toList

def Bare (r : Route) : Prop := r.names = [] ∧ (r.absolute = true ∨ r.ascents = 0)

theorem toList_text {r : Route} (h : r.Sound) (hb : ¬ r.Bare) :
    r.text.toList = List.intercalate ['/'] r.pieces := by
  obtain ⟨absolute, ascents, names⟩ := r
  cases absolute with
  | true =>
    obtain rfl : ascents = 0 := h.ascents rfl
    cases names with
    | nil => exact absurd ⟨rfl, .inl rfl⟩ hb
    | cons n ns => simp [text, pieces, String.toList_intercalate, List.intercalate_cons_cons]
  | false =>
    have hparts : ¬ (ascents = 0 ∧ names = []) := fun hp => hb ⟨hp.2, .inr hp.1⟩
    simp [text, pieces, hparts, String.toList_intercalate]

theorem not_mem_pieces {r : Route} (h : r.Sound) {piece : List Char} (hp : piece ∈ r.pieces) :
    '/' ∉ piece := by
  simp only [pieces, List.mem_append, List.mem_replicate, List.mem_map] at hp
  rcases hp with (hp | ⟨-, rfl⟩) | ⟨n, hn, rfl⟩
  · split at hp
    · rw [List.mem_singleton.mp hp]
      exact List.not_mem_nil
    · cases hp
  · decide
  · exact (h.names n hn).noSlash

theorem pieces_ne_nil {r : Route} (hb : ¬ r.Bare) : r.pieces ≠ [] := by
  intro hnil
  simp only [pieces, List.append_eq_nil_iff, List.map_eq_nil_iff, List.replicate_eq_nil_iff] at hnil
  exact hb ⟨hnil.2, .inr hnil.1.2⟩

theorem pieces_toPath {r : Route} (h : r.Sound) (hb : ¬ r.Bare) : r.toPath.pieces = r.pieces := by
  rw [Path.pieces, toPath, toList_text h hb]
  exact Text.split_intercalate (pieces_ne_nil hb) fun _ => not_mem_pieces h

theorem filterMap_component? {names : List String} (h : ∀ n ∈ names, Path.IsName n) (k : Nat) :
    (List.replicate k ['.', '.'] ++ names.map String.toList).filterMap Path.component? =
      List.replicate k .up ++ names.map .name := by
  have hnames : (names.map String.toList).filterMap Path.component? = names.map .name := by
    induction names with
    | nil => rfl
    | cons n ns ih =>
      rw [List.map_cons, List.filterMap_cons_some (h n List.mem_cons_self).component,
        ih fun m hm => h m (List.mem_cons_of_mem n hm), List.map_cons]
  have hups : (List.replicate k ['.', '.']).filterMap Path.component? =
      List.replicate k Path.Component.up := by
    induction k with
    | zero => rfl
    | succ k ih =>
      have hup : Path.component? ['.', '.'] = some .up := rfl
      rw [List.replicate_succ, List.filterMap_cons_some hup, ih, List.replicate_succ]
  rw [List.filterMap_append, hups, hnames]

theorem text_root (ascents : Nat) : text ⟨true, ascents, []⟩ = "/" := by
  simp [text]

theorem text_here : text ⟨false, 0, []⟩ = "." := by
  simp [text]

theorem components_of_bare {r : Route} (hb : r.Bare) : r.toPath.components = r.components := by
  obtain ⟨absolute, ascents, names⟩ := r
  obtain ⟨rfl, hb⟩ : names = [] ∧ (absolute = true ∨ ascents = 0) := hb
  cases absolute with
  | true =>
    rw [toPath, text_root]
    rfl
  | false =>
    obtain rfl : ascents = 0 := by simpa using hb
    rw [toPath, text_here]
    rfl

theorem components_of_first {p : Path} {first : List Char} {rest : List (List Char)}
    (hp : p.pieces = first :: rest) (ha : p.isAbsolute = false) (hdot : first ≠ ['.']) :
    p.components = (first :: rest).filterMap Path.component? := by
  simp only [Path.components, hp, ha, Bool.false_eq_true, if_false, hdot]
  cases hc : Path.component? first <;> simp [hc]

theorem components_toPath {r : Route} (h : r.Sound) : r.toPath.components = r.components := by
  by_cases hb : r.Bare
  · exact components_of_bare hb
  have hpieces := pieces_toPath h hb
  have htext := toList_text h hb
  obtain ⟨absolute, ascents, names⟩ := r
  cases absolute with
  | true =>
    obtain rfl : ascents = 0 := h.ascents rfl
    have hp : pieces ⟨true, 0, names⟩ = [] :: names.map String.toList := rfl
    have hbody := filterMap_component? h.names 0
    have habsolute : (toPath ⟨true, 0, names⟩).isAbsolute = true := by
      simp [Path.isAbsolute, toPath, text]
    rw [hp] at hpieces
    simp only [List.replicate_zero, List.nil_append] at hbody
    simp only [Path.components, hpieces, habsolute, if_true, hbody, components]
  | false =>
    have hparts : ¬ (ascents = 0 ∧ names = []) := fun hp => hb ⟨hp.2, .inr hp.1⟩
    have hbody := filterMap_component? h.names ascents
    have hcomponents : components ⟨false, ascents, names⟩ =
        (pieces ⟨false, ascents, names⟩).filterMap Path.component? := by
      simp [components, pieces, hparts, hbody]
    have hfirst : ∀ piece ∈ pieces ⟨false, ascents, names⟩, piece ≠ [] ∧ piece ≠ ['.'] := by
      simp only [pieces, Bool.false_eq_true, if_false, List.nil_append, List.mem_append,
        List.mem_replicate, List.mem_map]
      rintro piece (⟨-, rfl⟩ | ⟨n, hn, rfl⟩)
      · decide
      · have hc := (h.names n hn).component
        exact ⟨(h.names n hn).ne_nil, fun he => by rw [he] at hc; cases hc⟩
    cases hp : pieces ⟨false, ascents, names⟩ with
    | nil => exact absurd hp (pieces_ne_nil hb)
    | cons first rest =>
      rw [hp] at hpieces hcomponents hfirst htext
      have hslash : '/' ∉ first := not_mem_pieces h (hp ▸ List.mem_cons_self)
      have habsolute : (toPath ⟨false, ascents, names⟩).isAbsolute = false := by
        cases first with
        | nil => exact absurd rfl (hfirst [] List.mem_cons_self).1
        | cons c cs =>
          have hc : c ≠ '/' := fun he => hslash (he ▸ List.mem_cons_self)
          cases rest <;> simp [Path.isAbsolute, toPath, htext, List.intercalate_cons_cons, hc]
      rw [components_of_first hpieces habsolute (hfirst first List.mem_cons_self).2, hcomponents]

/-- A route is read back from its text. -/
theorem ofPath_toPath {r : Route} (h : r.Sound) : ofPath r.toPath = r := by
  rw [ofPath, components_toPath h, follow_components h]

end Route

namespace Path

/-! ## Parents -/

theorem trimPieces_of_component {piece : List Char} (h : (component? piece).isSome = true)
    (rest : List (List Char)) : trimPieces (piece :: rest) = piece :: rest := by
  cases rest with
  | nil => rfl
  | cons next rest =>
    cases hc : component? piece with
    | none => simp [hc] at h
    | some c => simp [trimPieces, hc]

/-- A path with given pieces. A single empty piece is the one before the root. -/
def ofPieces (pieces : List (List Char)) : Path :=
  if pieces = [[]] then ⟨"/"⟩ else ⟨String.ofList (List.intercalate ['/'] pieces)⟩

theorem parent?_eq_ofPieces {p : Path} {n : String} {rest kept : List (List Char)} (hn : IsName n)
    (hlast : p.components.getLast? = some (.name n)) (hp : p.pieces.reverse = n.toList :: rest)
    (htrim : trimPieces rest = kept.reverse) : p.parent? = some (ofPieces kept) := by
  have hname : trimPieces (n.toList :: rest) = n.toList :: rest :=
    trimPieces_of_component (by rw [hn.component]; rfl) rest
  simp only [parent?, hlast, hp, hname, htrim, ofPieces]
  by_cases hroot : kept = [[]]
  · simp [hroot]
  · rw [if_neg hroot]
    split
    · next he => exact absurd (List.reverse_eq_iff.mp he) hroot
    · rw [List.reverse_reverse]

end Path

namespace Route

/-! ## Directories -/

def child (r : Route) (n : String) : Route := { r with names := r.names ++ [n] }

/-- The path of a directory as the parent of the paths in it. -/
def directory (r : Route) : Path :=
  if r.pieces = [[]] then ⟨"/"⟩ else ⟨String.ofList (List.intercalate ['/'] r.pieces)⟩

theorem Sound.child {r : Route} (h : r.Sound) {n : String} (hn : Path.IsName n) :
    (r.child n).Sound := h.step fun _ he => Path.Component.name.inj he ▸ hn

theorem not_bare_child (r : Route) (n : String) : ¬ (r.child n).Bare := by
  simp [Bare, Route.child]

theorem pieces_child (r : Route) (n : String) : (r.child n).pieces = r.pieces ++ [n.toList] := by
  obtain ⟨absolute, ascents, names⟩ := r
  cases absolute <;> simp [pieces, Route.child]

theorem getLast?_components_child (r : Route) (n : String) :
    (r.child n).components.getLast? = some (.name n) := by
  obtain ⟨absolute, ascents, names⟩ := r
  cases absolute <;> simp [components, Route.child, List.getLast?_cons]

theorem pieces_cases {r : Route} (h : r.Sound) : r.pieces = [] ∨ r.pieces = [[]] ∨
    ∃ front last, r.pieces = front ++ [last] ∧ (Path.component? last).isSome = true := by
  obtain ⟨absolute, ascents, names⟩ := r
  rcases List.eq_nil_or_concat names with rfl | ⟨ns, n, rfl⟩
  · cases absolute with
    | true =>
      obtain rfl : ascents = 0 := h.ascents rfl
      exact .inr (.inl rfl)
    | false =>
      cases ascents with
      | zero => exact .inl rfl
      | succ a =>
        refine .inr (.inr ⟨List.replicate a ['.', '.'], ['.', '.'], ?_, rfl⟩)
        simp only [pieces, Bool.false_eq_true, if_false, List.nil_append, List.map_nil,
          List.append_nil, List.replicate_succ']
  · have hn : Path.IsName n := h.names n (by simp)
    refine .inr (.inr ⟨pieces ⟨absolute, ascents, ns⟩, n.toList, ?_, by rw [hn.component]; rfl⟩)
    rw [← pieces_child, Route.child, List.concat_eq_append]

theorem trimPieces_pieces {r : Route} (h : r.Sound) :
    Path.trimPieces r.pieces.reverse = r.pieces.reverse := by
  rcases pieces_cases h with hp | hp | ⟨front, last, hp, hlast⟩
  · rw [hp]
    rfl
  · rw [hp]
    rfl
  · rw [hp, List.reverse_append]
    exact Path.trimPieces_of_component hlast _

theorem parent?_child {r : Route} (h : r.Sound) {n : String} (hn : Path.IsName n) :
    (r.child n).toPath.parent? = some r.directory := by
  have hlast : (r.child n).toPath.components.getLast? = some (.name n) := by
    rw [components_toPath (h.child hn), getLast?_components_child]
  have hpieces : (r.child n).toPath.pieces.reverse = n.toList :: r.pieces.reverse := by
    rw [pieces_toPath (h.child hn) (not_bare_child r n), pieces_child, List.reverse_append]
    rfl
  exact Path.parent?_eq_ofPieces hn hlast hpieces (trimPieces_pieces h)

end Route

namespace Path

section JoinText

variable {base : Path} {n : String} (hn : IsName n)

include hn

theorem isAbsolute_of_isName : (⟨n⟩ : Path).isAbsolute = false := by
  rw [isAbsolute, beq_eq_false_iff_ne]
  exact fun hhead => hn.noSlash (List.mem_of_mem_head? hhead)

theorem joinText_of_open (h : base.text.toList = [] ∨ base.text.toList.getLast? = some '/') :
    base.joinText n = ⟨base.text ++ n⟩ := by
  simp only [joinText, join, isAbsolute_of_isName hn, Bool.false_eq_true, if_false,
    List.isEmpty_iff, h, if_true]

theorem joinText_of_closed (hne : base.text.toList ≠ [])
    (hslash : base.text.toList.getLast? ≠ some '/') :
    base.joinText n = ⟨base.text ++ "/" ++ n⟩ := by
  simp only [joinText, join, isAbsolute_of_isName hn, Bool.false_eq_true, if_false,
    List.isEmpty_iff, hne, hslash, or_self]

end JoinText

end Path

namespace Route

theorem getLast?_intercalate {front : List (List Char)} {last : List Char} (hl : last ≠ []) :
    (List.intercalate ['/'] (front ++ [last])).getLast? = last.getLast? := by
  cases front with
  | nil => rw [List.nil_append, List.intercalate_singleton]
  | cons first front =>
    rw [Text.intercalate_concat (by simp), List.getLast?_append, List.getLast?_cons_of_ne_nil hl]
    cases hlast : last.getLast? with
    | none => exact absurd (List.getLast?_eq_none_iff.mp hlast) hl
    | some c => rfl

theorem joinText_directory {r : Route} (h : r.Sound) {n : String} (hn : Path.IsName n) :
    r.directory.joinText n = (r.child n).toPath := by
  have htext := toList_text (h.child hn) (not_bare_child r n)
  rw [pieces_child] at htext
  rw [toPath]
  rcases pieces_cases h with hp | hp | ⟨front, last, hp, hlast⟩
  · have hdirectory : r.directory = ⟨""⟩ := by
      rw [directory, hp]
      rfl
    rw [hdirectory, Path.joinText_of_open hn (.inl rfl)]
    congr 1
    rw [← String.toList_inj, htext, hp]
    simp
  · have hdirectory : r.directory = ⟨"/"⟩ := by
      rw [directory, if_pos hp]
    rw [hdirectory, Path.joinText_of_open hn (.inr rfl)]
    congr 1
    rw [← String.toList_inj, htext, hp]
    simp [List.intercalate_cons_cons]
  · have hne : last ≠ [] := by
      rintro rfl
      cases hlast
    have hslash : '/' ∉ last := not_mem_pieces h (hp ▸ List.mem_append_right _ List.mem_cons_self)
    have hroot : r.pieces ≠ [[]] := by
      intro he
      have hl : (front ++ [last]).getLast? = some [] := by rw [← hp, he]; rfl
      rw [List.getLast?_concat] at hl
      exact hne (Option.some.inj hl)
    have hdirectory : r.directory = ⟨String.ofList (List.intercalate ['/'] r.pieces)⟩ := by
      rw [directory, if_neg hroot]
    have hlastchar : (List.intercalate ['/'] (front ++ [last])).getLast? = last.getLast? :=
      getLast?_intercalate hne
    rw [hdirectory, Path.joinText_of_closed hn]
    · congr 1
      rw [← String.toList_inj, htext, Text.intercalate_concat (by simp [hp])]
      simp
    · rw [String.toList_ofList, hp]
      intro hnil
      rw [hnil] at hlastchar
      exact hne (List.getLast?_eq_none_iff.mp hlastchar.symm)
    · rw [String.toList_ofList, hp, hlastchar]
      exact fun hc => hslash (List.mem_of_getLast? hc)

theorem child_injective {r r' : Route} {n : String} (h : r.child n = r'.child n) : r = r' := by
  obtain ⟨absolute, ascents, names⟩ := r
  obtain ⟨absolute', ascents', names'⟩ := r'
  simpa [Route.child] using h

theorem toPath_injective {r r' : Route} (h : r.Sound) (h' : r'.Sound) (he : r.toPath = r'.toPath) :
    r = r' := by
  rw [← ofPath_toPath h, he, ofPath_toPath h']

/-- Only a root, a dot and steps up name directories in their normal forms. -/
theorem namesDirectory_toPath {r : Route} (h : r.Sound) (hn : r.names = []) :
    r.toPath.namesDirectory = true := by
  obtain ⟨absolute, ascents, names⟩ := r
  obtain rfl : names = [] := hn
  cases absolute with
  | true =>
    rw [toPath, text_root]
    rfl
  | false =>
    cases ascents with
    | zero =>
      rw [toPath, text_here]
      rfl
    | succ a =>
      have hb : ¬ Bare ⟨false, a + 1, []⟩ := by simp [Bare]
      have hpieces : pieces ⟨false, a + 1, []⟩ = List.replicate (a + 1) ['.', '.'] := by
        simp only [pieces, Bool.false_eq_true, if_false, List.nil_append, List.map_nil,
          List.append_nil]
      rw [Path.namesDirectory, pieces_toPath h hb, hpieces, List.getLast?_replicate]
      rfl

/-! ## Characters -/

theorem mem_text {r : Route} (h : r.Sound) {c : Char} (hc : c ∈ r.text.toList) :
    c = '/' ∨ c = '.' ∨ ∃ n ∈ r.names, c ∈ n.toList := by
  by_cases hb : r.Bare
  · obtain ⟨absolute, ascents, names⟩ := r
    obtain ⟨rfl, hb⟩ : names = [] ∧ (absolute = true ∨ ascents = 0) := hb
    cases absolute with
    | true =>
      rw [text_root] at hc
      exact .inl (List.mem_singleton.mp hc)
    | false =>
      obtain rfl : ascents = 0 := by simpa using hb
      rw [text_here] at hc
      exact .inr (.inl (List.mem_singleton.mp hc))
  · rw [toList_text h hb] at hc
    rcases Text.mem_intercalate hc with hc | ⟨piece, hp, hc⟩
    · exact .inl hc
    simp only [pieces, List.mem_append, List.mem_replicate, List.mem_map] at hp
    rcases hp with (hp | ⟨-, rfl⟩) | ⟨n, hn, rfl⟩
    · split at hp
      · rw [List.mem_singleton.mp hp] at hc
        cases hc
      · cases hp
    · exact .inr (.inl (by simpa using hc))
    · exact .inr (.inr ⟨n, hn, hc⟩)

theorem mem_names_step {r : Route} {c : Path.Component} {n : String} (h : n ∈ (r.step c).names) :
    n ∈ r.names ∨ c = .name n := by
  cases c with
  | root => cases h
  | here => exact .inl h
  | up =>
    simp only [step] at h
    split at h
    · exact .inl ((List.dropLast_sublist _).subset h)
    split at h
    · exact .inl h
    · exact .inl h
  | name m =>
    rcases List.mem_append.mp h with h | h
    · exact .inl h
    · exact .inr (List.mem_singleton.mp h ▸ rfl)

theorem mem_names_follow {r : Route} {cs : List Path.Component} {n : String}
    (h : n ∈ (r.follow cs).names) : n ∈ r.names ∨ .name n ∈ cs := by
  induction cs generalizing r with
  | nil => exact .inl h
  | cons c cs ih =>
    rcases ih h with h | h
    · rcases mem_names_step h with h | rfl
      · exact .inl h
      · exact .inr List.mem_cons_self
    · exact .inr (List.mem_cons_of_mem c h)

end Route

namespace Path

/-- A path that is its own normal form. -/
def IsNormal (p : Path) : Prop := p.normal = p

theorem isNormal_toPath {r : Route} (h : r.Sound) : r.toPath.IsNormal :=
  congrArg Route.toPath (Route.ofPath_toPath h)

theorem isNormal_normal (p : Path) : p.normal.IsNormal := isNormal_toPath (Route.sound_ofPath p)

/-- Paths in normal form are spelled in one way. -/
theorem IsNormal.eq_of_same {p q : Path} (hp : p.IsNormal) (hq : q.IsNormal)
    (h : p.same q = true) : p = q := by
  rw [← hp, ← hq, normal, normal, Route.ofPath, Route.ofPath, beq_iff_eq.mp h]

theorem IsNormal.exists_child {p : Path} (hp : p.IsNormal) (hd : p.namesDirectory = false) :
    ∃ r n, r.Sound ∧ IsName n ∧ p = (Route.child r n).toPath := by
  have hsound := Route.sound_ofPath p
  rcases List.eq_nil_or_concat (Route.ofPath p).names with hnames | ⟨ns, n, hnames⟩
  · have hnd := Route.namesDirectory_toPath hsound hnames
    have hself : (Route.ofPath p).toPath = p := hp
    rw [hself, hd] at hnd
    cases hnd
  · rw [List.concat_eq_append] at hnames
    have hchild : Route.ofPath p = Route.child { Route.ofPath p with names := ns } n := by
      rw [Route.child, ← hnames]
    have hnames' : ∀ m ∈ ns ++ [n], IsName m := hnames ▸ hsound.names
    have hfront : Route.Sound { Route.ofPath p with names := ns } :=
      ⟨fun m hm => hnames' m (List.mem_append_left _ hm), hsound.ascents⟩
    refine ⟨_, n, hfront, hnames' n (by simp), ?_⟩
    rw [← hchild]
    exact hp.symm

theorem mem_text_normal {p : Path} {c : Char} (h : c ∈ p.normal.text.toList) :
    c = '/' ∨ c = '.' ∨ c ∈ p.text.toList := by
  rcases Route.mem_text (Route.sound_ofPath p) h with h | h | ⟨n, hn, hc⟩
  · exact .inl h
  · exact .inr (.inl h)
  · rcases Route.mem_names_follow hn with hn | hn
    · cases hn
    · exact .inr (.inr (mem_text_of_mem_components hn hc))

theorem mem_text_joinText {base : Path} {text : String} {c : Char}
    (h : c ∈ (base.joinText text).text.toList) :
    c = '/' ∨ c ∈ base.text.toList ∨ c ∈ text.toList := by
  unfold joinText join at h
  dsimp only at h
  split at h
  · exact .inr (.inr h)
  split at h
  · rw [String.toList_append, List.mem_append] at h
    exact .inr h
  · simp only [String.toList_append, List.mem_append] at h
    rcases h with (h | h) | h
    · exact .inr (.inl h)
    · exact .inl (List.mem_singleton.mp h)
    · exact .inr (.inr h)

end Path

end MakeConfig
