import Mathlib.Logic.Relation
import MakeConfig.Proofs.Lists
import MakeConfig.Proofs.Path.Route

/-! # Normal forms and joins

A joined path leads where its second part leads when it is taken from where the first part leads. So it
does not matter in which way the parts are spelled, and a join may as well be made of their normal
forms. A normal form has a dot only where there is nothing else, and steps up only at the start of a
relative path.
-/

namespace MakeConfig

namespace Route

def root : Route := ⟨true, 0, []⟩

theorem sound_root : root.Sound := ⟨by rintro n ⟨⟩, fun _ => rfl⟩

def origin (r : Route) (absolute : Bool) : Route := if absolute then root else r

/-! ## One route after another -/

/-- A route taken from where another one leads, unless it is absolute. -/
def andThen (r q : Route) : Route :=
  (r.origin q.absolute).follow (List.replicate q.ascents .up ++ q.names.map .name)

theorem step_up_step_name (r : Route) (n : String) : (r.step (.name n)).step .up = r := by
  simp [step]

theorem andThen_step (r : Route) {q : Route} (hq : q.Sound) (c : Path.Component) :
    r.andThen (q.step c) = (r.andThen q).step c := by
  obtain ⟨absolute, ascents, names⟩ := q
  cases c with
  | root => rfl
  | here => rfl
  | name n =>
    simp only [step, andThen, List.map_append, follow_append, List.map_cons, List.map_nil,
      follow_cons, follow_nil]
  | up =>
    rcases List.eq_nil_or_concat names with rfl | ⟨ns, n, rfl⟩
    · cases absolute with
      | true =>
        obtain rfl : ascents = 0 := hq.ascents rfl
        rfl
      | false => simp [step, andThen, origin, List.replicate_succ', follow_append]
    · simp [step, andThen, follow_append]

theorem andThen_follow (r : Route) {q : Route} (hq : q.Sound) {cs : List Path.Component}
    (hcs : ∀ n, .name n ∈ cs → Path.IsName n) :
    r.andThen (q.follow cs) = (r.andThen q).follow cs := by
  induction cs generalizing q with
  | nil => rfl
  | cons c cs ih =>
    have hstep : (q.step c).Sound := hq.step fun n he => hcs n (he ▸ List.mem_cons_self)
    rw [follow_cons, follow_cons, ih hstep fun n hn => hcs n (List.mem_cons_of_mem c hn),
      andThen_step r hq]

theorem absolute_follow (r : Route) {cs : List Path.Component} (h : .root ∉ cs) :
    (r.follow cs).absolute = r.absolute := by
  induction cs generalizing r with
  | nil => rfl
  | cons c cs ih =>
    obtain ⟨hc, hcs⟩ := not_or.mp (mt List.mem_cons.mpr h)
    rw [follow_cons, ih _ hcs]
    cases c with
    | root => exact absurd rfl hc
    | here | name n => rfl
    | up =>
      simp only [step]
      split
      · rfl
      · split <;> rfl

end Route

namespace Path

/-! ## Pieces -/

def steps (p : Path) : List Component := p.pieces.filterMap component?

theorem isName_of_mem_steps {p : Path} {n : String} (h : .name n ∈ p.steps) : IsName n := by
  obtain ⟨piece, hp, hc⟩ := List.mem_filterMap.mp h
  exact isName_of_component? hc (Text.not_mem_of_mem_split hp)

theorem root_not_mem_steps (p : Path) : .root ∉ p.steps := by
  rintro h
  obtain ⟨piece, -, hc⟩ := List.mem_filterMap.mp h
  unfold component? at hc
  split at hc <;> cases hc

theorem pieces_ne_nil (p : Path) : p.pieces ≠ [] := Text.split_ne_nil '/' _

theorem isAbsolute_iff {p : Path} :
    p.isAbsolute = true ↔ ∃ next rest, p.pieces = [] :: next :: rest := by
  unfold isAbsolute pieces
  cases htext : p.text.toList with
  | nil => simp [Text.split]
  | cons c cs =>
    cases hs : Text.split '/' cs with
    | nil => exact absurd hs (Text.split_ne_nil '/' cs)
    | cons first rest => by_cases hc : c = '/' <;> simp [Text.split, hs, hc]

theorem components_of_isAbsolute {p : Path} (h : p.isAbsolute = true) :
    p.components = .root :: p.steps := by
  obtain ⟨next, rest, hp⟩ := isAbsolute_iff.mp h
  have hfirst : component? [] = none := rfl
  simp only [components, steps, hp, h, if_true, List.filterMap_cons_none hfirst]

theorem ofPath_eq (p : Path) :
    Route.ofPath p = (Route.start.origin p.isAbsolute).follow p.steps := by
  cases ha : p.isAbsolute with
  | true =>
    rw [Route.ofPath, components_of_isAbsolute ha]
    rfl
  | false =>
    cases hp : p.pieces with
    | nil => exact absurd hp p.pieces_ne_nil
    | cons first rest =>
      by_cases hdot : first = ['.']
      · subst hdot
        have hhere : component? ['.'] = none := rfl
        simp only [Route.ofPath, components, steps, hp, ha, Bool.false_eq_true, if_false, if_true,
          List.filterMap_cons_none hhere]
        rfl
      · rw [Route.ofPath, Route.components_of_first hp ha hdot, steps, hp]
        rfl

theorem absolute_ofPath (p : Path) : (Route.ofPath p).absolute = p.isAbsolute := by
  rw [ofPath_eq, Route.absolute_follow _ p.root_not_mem_steps]
  cases p.isAbsolute <;> rfl

theorem andThen_ofPath (r : Route) (p : Path) :
    r.andThen (Route.ofPath p) = (r.origin p.isAbsolute).follow p.steps := by
  have hnames : ∀ n, .name n ∈ p.steps → IsName n := fun _ => isName_of_mem_steps
  rw [ofPath_eq]
  cases p.isAbsolute with
  | true => exact Route.andThen_follow r Route.sound_root hnames
  | false => exact Route.andThen_follow r Route.sound_start hnames

/-! ## Joins -/

theorem isAbsolute_join (base p : Path) :
    (base.join p).isAbsolute = (base.isAbsolute || p.isAbsolute) := by
  unfold join
  cases hp : p.isAbsolute with
  | true => simp [hp]
  | false =>
    unfold isAbsolute at hp ⊢
    cases hb : base.text.toList with
    | nil => simp [hb, hp]
    | cons c cs =>
      simp only [Bool.false_eq_true, if_false, List.isEmpty_cons, false_or, Bool.or_false]
      split <;> simp [hb]

theorem exists_pieces_join {p : Path} (hp : p.isAbsolute = false) (base : Path) :
    ∃ front, (base.join p).pieces = front ++ p.pieces ∧
      front.filterMap component? = base.steps := by
  have hidle : [[]].filterMap component? = [] := rfl
  unfold steps pieces join
  simp only [hp, Bool.false_eq_true, if_false]
  rcases List.eq_nil_or_concat base.text.toList with hb | ⟨front, last, hb⟩
  · exact ⟨[], by simp [hb], by simp [hb, Text.split, hidle]⟩
  · rw [List.concat_eq_append] at hb
    by_cases hlast : last = '/'
    · subst hlast
      refine ⟨Text.split '/' front, ?_, ?_⟩
      · simp [hb, Text.split_append_cons]
      · simp [hb, Text.split_append_cons, Text.split, hidle]
    · have hclosed : ¬ ((front ++ [last]).isEmpty = true ∨ (front ++ [last]).getLast? = some '/') := by
        simp [hlast]
      refine ⟨Text.split '/' (front ++ [last]), ?_, by rw [hb]⟩
      rw [hb, if_neg hclosed, String.toList_append, String.toList_append, hb, ← Text.split_append_cons]
      simp

theorem steps_join {p : Path} (hp : p.isAbsolute = false) (base : Path) :
    (base.join p).steps = base.steps ++ p.steps := by
  obtain ⟨front, hpieces, hfront⟩ := exists_pieces_join hp base
  rw [steps, hpieces, List.filterMap_append, hfront]
  rfl

/-- A joined path leads where the second part leads from where the first one does. -/
theorem ofPath_join (base p : Path) :
    Route.ofPath (base.join p) = (Route.ofPath base).andThen (Route.ofPath p) := by
  rw [andThen_ofPath]
  cases hp : p.isAbsolute with
  | true =>
    rw [join, if_pos hp, ofPath_eq, hp]
    rfl
  | false =>
    rw [ofPath_eq (base.join p), isAbsolute_join, hp, Bool.or_false, steps_join hp,
      Route.follow_append, ← ofPath_eq]
    rfl

/-! ## Spellings -/

/-- A path with something in it that says nothing: a piece that is no component, such as a slash more
or a dot, or a step up that a dot could stand for. -/
inductive Redundant : Path → Path → Prop where
  | idle {p q : Path} {before after : List (List Char)} {piece : List Char} :
      component? piece = none → p.pieces = before ++ piece :: after →
        q.pieces = before ++ after → p.isAbsolute = q.isAbsolute → Redundant p q
  | back {p q : Path} {before after : List (List Char)} {n : String} :
      IsName n → p.pieces = before ++ n.toList :: ['.', '.'] :: after →
        q.pieces = before ++ ['.'] :: after → Redundant p q
  | top {p q : Path} {after : List (List Char)} :
      p.pieces = [] :: ['.', '.'] :: after → q.pieces = [] :: ['.'] :: after → Redundant p q

/-- Paths that differ in redundant pieces. -/
def Respelled : Path → Path → Prop := Relation.EqvGen Redundant

theorem isAbsolute_eq_of_head {p q : Path} {first : List Char} {rest rest' : List (List Char)}
    (hp : p.pieces = first :: rest) (hq : q.pieces = first :: rest') (h : rest ≠ [])
    (h' : rest' ≠ []) : p.isAbsolute = q.isAbsolute := by
  rw [Bool.eq_iff_iff, isAbsolute_iff, isAbsolute_iff, hp, hq]
  cases rest with
  | nil => exact absurd rfl h
  | cons next rest =>
    cases rest' with
    | nil => exact absurd rfl h'
    | cons next' rest' => simp

theorem isAbsolute_eq_false_of_head {p : Path} {first : List Char} {rest : List (List Char)}
    (hp : p.pieces = first :: rest) (h : first ≠ []) : p.isAbsolute = false := by
  rw [Bool.eq_false_iff, ne_eq, isAbsolute_iff]
  rintro ⟨next, rest', he⟩
  rw [hp] at he
  exact h (List.cons.inj he).1

/-- What is redundant does not lead elsewhere. -/
theorem Redundant.ofPath_eq {p q : Path} (h : Redundant p q) : Route.ofPath p = Route.ofPath q := by
  rw [Path.ofPath_eq, Path.ofPath_eq]
  cases h with
  | idle hpiece hp hq ha =>
    rw [ha, steps, steps, hp, hq, List.filterMap_append, List.filterMap_append,
      List.filterMap_cons_none hpiece]
  | @back before after n hn hp hq =>
    have ha : p.isAbsolute = q.isAbsolute := by
      cases before with
      | nil =>
        rw [isAbsolute_eq_false_of_head hp hn.ne_nil,
          isAbsolute_eq_false_of_head hq (List.cons_ne_nil _ _)]
      | cons first before => exact isAbsolute_eq_of_head hp hq (by simp) (by simp)
    have hup : component? ['.', '.'] = some .up := rfl
    have hdot : component? ['.'] = none := rfl
    rw [ha, steps, steps, hp, hq, List.filterMap_append, List.filterMap_append,
      List.filterMap_cons_some hn.component, List.filterMap_cons_some hup,
      List.filterMap_cons_none hdot, Route.follow_append, Route.follow_append, Route.follow_cons,
      Route.follow_cons, Route.step_up_step_name]
  | @top after hp hq =>
    have ha : p.isAbsolute = true := isAbsolute_iff.mpr ⟨_, _, hp⟩
    have ha' : q.isAbsolute = true := isAbsolute_iff.mpr ⟨_, _, hq⟩
    rw [ha, ha', steps, steps, hp, hq]
    rfl

theorem Respelled.ofPath_eq {p q : Path} (h : Respelled p q) : Route.ofPath p = Route.ofPath q := by
  induction h with
  | rel _ _ h => exact h.ofPath_eq
  | refl _ => rfl
  | symm _ _ _ ih => exact ih.symm
  | trans _ _ _ _ _ ih ih' => exact ih.trans ih'

/-! ## Normal forms -/

theorem ofPath_normal (p : Path) : Route.ofPath p.normal = Route.ofPath p :=
  Route.ofPath_toPath (Route.sound_ofPath p)

theorem isAbsolute_normal (p : Path) : p.normal.isAbsolute = p.isAbsolute := by
  rw [← absolute_ofPath, ofPath_normal, absolute_ofPath]

theorem normal_join (base p : Path) : (base.join p).normal = (base.normal.join p.normal).normal := by
  rw [normal, normal, ofPath_join, ofPath_join, ofPath_normal, ofPath_normal]

theorem joinNormal_congr {base base' p p' : Path}
    (hbase : Route.ofPath base = Route.ofPath base') (hp : Route.ofPath p = Route.ofPath p') :
    base.joinNormal p.text = base'.joinNormal p'.text := by
  have hboth : Route.ofPath (base.join p) = Route.ofPath (base'.join p') := by
    rw [ofPath_join, ofPath_join, hbase, hp]
  exact congrArg Route.toPath hboth

end Path

namespace Route

variable {r : Route} (h : r.Sound)

include h

theorem not_mem_names {piece : List Char} (hpiece : ∀ n, Path.component? piece ≠ some (.name n)) :
    piece ∉ r.names.map String.toList := by
  intro hm
  obtain ⟨n, hn, rfl⟩ := List.mem_map.mp hm
  exact hpiece n (h.names n hn).component

theorem text_of_dot (hdot : ['.'] ∈ r.toPath.pieces) : r.toPath.text = "." := by
  by_cases hb : r.Bare
  · obtain ⟨absolute, ascents, names⟩ := r
    obtain ⟨rfl, hb⟩ : names = [] ∧ (absolute = true ∨ ascents = 0) := hb
    cases absolute with
    | true =>
      rw [toPath, text_root] at hdot
      exact absurd hdot (by decide)
    | false =>
      obtain rfl : ascents = 0 := by simpa using hb
      exact text_here
  · have hnames : ['.'] ∉ r.names.map String.toList := not_mem_names h (by rintro n ⟨⟩)
    rw [pieces_toPath h hb, pieces] at hdot
    rcases List.mem_append.mp hdot with hdot | hdot
    · rcases List.mem_append.mp hdot with hdot | hdot
      · split at hdot <;> simp at hdot
      · simp [List.mem_replicate] at hdot
    · exact absurd hdot hnames

theorem ups_in_front {before after : List (List Char)}
    (hup : r.toPath.pieces = before ++ ['.', '.'] :: after) :
    r.absolute = false ∧ ∀ piece ∈ before, piece = ['.', '.'] := by
  have hm : ['.', '.'] ∈ r.toPath.pieces := hup ▸ List.mem_append_right before List.mem_cons_self
  have hnames : ['.', '.'] ∉ r.names.map String.toList := not_mem_names h (by rintro n ⟨⟩)
  by_cases hb : r.Bare
  · obtain ⟨absolute, ascents, names⟩ := r
    obtain ⟨rfl, hb⟩ : names = [] ∧ (absolute = true ∨ ascents = 0) := hb
    cases absolute with
    | true =>
      rw [toPath, text_root] at hm
      exact absurd hm (by decide)
    | false =>
      obtain rfl : ascents = 0 := by simpa using hb
      rw [toPath, text_here] at hm
      exact absurd hm (by decide)
  · rw [pieces_toPath h hb, pieces] at hup hm
    cases ha : r.absolute with
    | true => simp [ha, h.ascents ha, hnames] at hm
    | false =>
      simp only [ha, Bool.false_eq_true, if_false, List.nil_append] at hup
      exact ⟨rfl, eq_of_replicate_append hnames hup⟩

end Route

namespace Path

/-- Normal forms are normal and lead where the path leads. They have a dot only if they are one, and
steps up only at the start of a relative path. They stand for the path in every join, so redundant
pieces of either part do not matter, and from an absolute base a join leads down from the root. -/
theorem normal_canonical (p : Path) :
    p.normal.normal = p.normal ∧
    Route.ofPath p.normal = Route.ofPath p ∧
    p.normal.isAbsolute = p.isAbsolute ∧
    (['.'] ∈ p.normal.pieces → p.normal.text = ".") ∧
    (∀ before after, p.normal.pieces = before ++ ['.', '.'] :: after →
      p.normal.isAbsolute = false ∧ ∀ piece ∈ before, piece = ['.', '.']) ∧
    ∀ base : Path,
      (base.join p).normal = (base.normal.join p.normal).normal ∧
      (∀ base' p', Respelled base base' → Respelled p p' →
        base.joinNormal p.text = base'.joinNormal p'.text) ∧
      (base.isAbsolute = true → (base.joinNormal p.text).isAbsolute = true ∧
        ['.'] ∉ (base.joinNormal p.text).pieces ∧ ['.', '.'] ∉ (base.joinNormal p.text).pieces) := by
  have hups : ∀ (q : Path) before after, q.normal.pieces = before ++ ['.', '.'] :: after →
      q.normal.isAbsolute = false ∧ ∀ piece ∈ before, piece = ['.', '.'] := by
    intro q before after hq
    rw [isAbsolute_normal, ← absolute_ofPath]
    exact Route.ups_in_front (Route.sound_ofPath q) hq
  refine ⟨isNormal_normal p, ofPath_normal p, isAbsolute_normal p,
    Route.text_of_dot (Route.sound_ofPath p), hups p,
    fun base => ⟨normal_join base p, fun base' p' hbase hp => ?_, fun ha => ?_⟩⟩
  · exact joinNormal_congr hbase.ofPath_eq hp.ofPath_eq
  · have habsolute : (base.join p).normal.isAbsolute = true := by
      rw [isAbsolute_normal, isAbsolute_join, ha, Bool.true_or]
    refine ⟨habsolute, fun hdot => ?_, fun hup => ?_⟩
    · have htext := Route.text_of_dot (Route.sound_ofPath (base.join p)) hdot
      rw [← normal] at htext
      rw [isAbsolute, htext] at habsolute
      cases habsolute
    · obtain ⟨before, after, hpieces⟩ := List.append_of_mem hup
      cases habsolute.symm.trans (hups _ before after hpieces).1

namespace Spelled

def base : Path := ⟨"/p//conf/"⟩

def plainBase : Path := ⟨"/p/conf"⟩

def path : Path := ⟨"./x/../../lib"⟩

def plainPath : Path := ⟨"././../lib"⟩

theorem respelled_base : Respelled base plainBase := by
  have hslash : Redundant base ⟨"/p/conf/"⟩ :=
    @Redundant.idle _ _ [[], ['p']] ["conf".toList, []] [] rfl rfl rfl rfl
  have hend : Redundant ⟨"/p/conf/"⟩ plainBase :=
    @Redundant.idle _ _ [[], ['p'], "conf".toList] [] [] rfl rfl rfl rfl
  exact .trans _ _ _ (.rel _ _ hslash) (.rel _ _ hend)

theorem respelled_path : Respelled path plainPath := by
  have hback : Redundant path plainPath :=
    @Redundant.back _ _ [['.']] [['.', '.'], "lib".toList] "x" (by decide) rfl rfl
  exact .rel _ _ hback

end Spelled

open Spelled in
theorem normal_canonical_spelled :
    Respelled base plainBase ∧ Respelled path plainPath ∧ base.isAbsolute = true ∧
      base.joinNormal path.text = plainBase.joinNormal plainPath.text ∧
      ['.', '.'] ∉ (base.joinNormal path.text).pieces ∧
      path.normal.normal = ⟨"../lib"⟩ ∧ Route.ofPath ⟨"../lib"⟩ = Route.ofPath path := by
  obtain ⟨hnormal, hleads, -, -, -, hjoin⟩ := normal_canonical path
  obtain ⟨-, hrespelled, habsolute⟩ := hjoin base
  obtain ⟨-, -, hup⟩ := habsolute (by decide)
  have hform : path.normal = ⟨"../lib"⟩ := by decide
  refine ⟨respelled_base, respelled_path, by decide, ?_, hup, hnormal.trans hform, hform ▸ hleads⟩
  exact hrespelled plainBase plainPath respelled_base respelled_path

end Path

end MakeConfig
