import MakeConfig.Proofs.Path.Normal

/-! # Parents and joins

A path may be taken relative to one base and then to another one, and a path that can name a file is a
name behind its parent. So what lies beside a file is found from the parent of its path.
-/

namespace MakeConfig

namespace Path

/-! ## Joins -/

theorem namesDirectory_join {p : Path} (hp : p.isAbsolute = false) (base : Path) :
    (base.join p).namesDirectory = p.namesDirectory := by
  obtain ⟨front, hpieces, -⟩ := exists_pieces_join hp base
  rw [namesDirectory, namesDirectory, hpieces, List.getLast?_append_of_ne_nil _ p.pieces_ne_nil]

/-- What stands between a base and what is taken relative to it. -/
def gap (base : Path) : String :=
  if base.text.toList.isEmpty ∨ base.text.toList.getLast? = some '/' then "" else "/"

theorem text_join {p : Path} (hp : p.isAbsolute = false) (base : Path) :
    (base.join p).text = base.text ++ base.gap ++ p.text := by
  simp only [join, gap, hp, Bool.false_eq_true, if_false]
  split <;> simp

theorem gap_join {p : Path} (hp : p.isAbsolute = false) (base : Path) :
    (base.join p).gap = p.gap := by
  have hlast : (base.text ++ base.gap).toList = [] ∨
      (base.text ++ base.gap).toList.getLast? = some '/' := by
    rw [gap]
    split
    · next hopen => simpa using hopen
    · simp
  unfold gap
  rw [text_join hp, String.toList_append]
  cases p.text.toList with
  | nil =>
    rw [List.append_nil, if_pos (hlast.imp_left List.isEmpty_iff.mpr)]
    rfl
  | cons c cs => simp

theorem join_of_isAbsolute {p : Path} (hp : p.isAbsolute = true) (base : Path) : base.join p = p :=
  if_pos hp

/-- A path may be taken relative to a base and then to another one, or to the join of both. -/
theorem join_assoc (a b c : Path) : (a.join b).join c = a.join (b.join c) := by
  cases hc : c.isAbsolute with
  | true => simp only [join_of_isAbsolute hc]
  | false =>
    cases hb : b.isAbsolute with
    | true =>
      have hbc : (b.join c).isAbsolute = true := by rw [isAbsolute_join, hb, Bool.true_or]
      rw [join_of_isAbsolute hb, join_of_isAbsolute hbc]
    | false =>
      have hbc : (b.join c).isAbsolute = false := by rw [isAbsolute_join, hb, hc, Bool.or_false]
      have htext : ((a.join b).join c).text = (a.join (b.join c)).text := by
        rw [text_join hc, text_join hb, text_join hbc, text_join hc, gap_join hb]
        simp only [String.append_assoc]
      exact congrArg Path.mk htext

/-! ## Parents -/

theorem exists_trimmed (pieces : List (List Char)) :
    ∃ kept idle, trimPieces pieces = kept.reverse ∧ pieces.reverse = kept ++ idle ∧
      (∀ piece ∈ idle, component? piece = none) ∧ (kept = [] → pieces = []) := by
  fun_induction trimPieces pieces with
  | case1 => exact ⟨[], [], rfl, rfl, by simp, fun h => h⟩
  | case2 first => exact ⟨[first], [], rfl, rfl, by simp, by simp⟩
  | case3 piece rest hrest hc ih =>
    obtain ⟨kept, idle, htrim, hsplit, hidle, hleft⟩ := ih
    refine ⟨kept, idle ++ [piece], htrim, ?_, ?_, fun hnil => absurd (hleft hnil) hrest⟩
    · rw [List.reverse_cons, hsplit, List.append_assoc]
    · rintro q hq
      rcases List.mem_append.mp hq with hq | hq
      · exact hidle q hq
      · exact List.mem_singleton.mp hq ▸ Option.isNone_iff_eq_none.mp hc
  | case4 piece rest hrest hc =>
    exact ⟨(piece :: rest).reverse, [], by simp, by simp, by simp, by simp⟩

theorem getLast?_components {p : Path} {front : List (List Char)} {n : String} (hn : IsName n)
    (hp : p.pieces = front ++ [n.toList]) : p.components.getLast? = some (.name n) := by
  have hbody : [n.toList].filterMap component? = [.name n] := by
    rw [List.filterMap_cons_some hn.component, List.filterMap_nil]
  unfold components
  rw [hp]
  cases front with
  | nil =>
    have ha : p.isAbsolute = false := by
      rw [Bool.eq_false_iff, ne_eq, isAbsolute_iff, hp]
      simp
    have hdot : n.toList ≠ ['.'] := fun he => by
      have hc := hn.component
      rw [he] at hc
      cases hc
    simp [ha, hdot, hn.component]
  | cons first rest =>
    simp only [List.cons_append, List.filterMap_append, hbody]
    split
    · rw [← List.cons_append, List.getLast?_concat]
    split
    · rw [← List.cons_append, List.getLast?_concat]
    · rw [← List.append_assoc, List.getLast?_concat]

section OfPieces

variable {kept : List (List Char)} (h : ∀ piece ∈ kept, '/' ∉ piece)

include h

theorem pieces_ofPieces (hne : kept ≠ []) (hroot : kept ≠ [[]]) : (ofPieces kept).pieces = kept := by
  rw [ofPieces, if_neg hroot, pieces, String.toList_ofList]
  exact Text.split_intercalate hne h

theorem steps_ofPieces : (ofPieces kept).steps = kept.filterMap component? := by
  by_cases hne : kept = []
  · subst hne
    rfl
  by_cases hroot : kept = [[]]
  · subst hroot
    rfl
  · rw [steps, pieces_ofPieces h hne hroot]

theorem isAbsolute_ofPieces {p : Path} {rest : List (List Char)} (hp : p.pieces = kept ++ rest)
    (hrest : rest ≠ []) (hfirst : kept = [] → p.isAbsolute = false) :
    (ofPieces kept).isAbsolute = p.isAbsolute := by
  cases kept with
  | nil =>
    rw [hfirst rfl]
    rfl
  | cons first kept =>
    by_cases hroot : first :: kept = [[]]
    · obtain ⟨rfl, rfl⟩ := List.cons.inj hroot
      obtain ⟨next, more, rfl⟩ := List.exists_cons_of_ne_nil hrest
      exact (isAbsolute_iff.mpr ⟨next, more, hp⟩).symm
    · have hpieces := pieces_ofPieces h (List.cons_ne_nil _ _) hroot
      by_cases hempty : first = []
      · subst hempty
        have hkept : kept ≠ [] := fun he => hroot (he ▸ rfl)
        exact isAbsolute_eq_of_head hpieces hp hkept (by simp [hkept])
      · rw [isAbsolute_eq_false_of_head hpieces hempty, isAbsolute_eq_false_of_head hp hempty]

end OfPieces

/-- The parent of a path to a name leads where the pieces before the name lead. -/
theorem exists_parent_of_pieces {p : Path} {front : List (List Char)} {n : String} (hn : IsName n)
    (hp : p.pieces = front ++ [n.toList]) : ∃ directory, p.parent? = some directory ∧
      directory.isAbsolute = p.isAbsolute ∧ directory.steps = front.filterMap component? := by
  obtain ⟨kept, idle, htrim, hsplit, hidle, hleft⟩ := exists_trimmed front.reverse
  rw [List.reverse_reverse] at hsplit
  have hkept : p.pieces = kept ++ (idle ++ [n.toList]) := by
    rw [hp, hsplit, List.append_assoc]
  have hslash : ∀ piece ∈ kept, '/' ∉ piece := fun piece hm =>
    Text.not_mem_of_mem_split (hkept ▸ List.mem_append_left _ hm : piece ∈ p.pieces)
  have hparent : p.parent? = some (ofPieces kept) :=
    parent?_eq_ofPieces hn (getLast?_components hn hp) (by rw [hp, List.reverse_append]; rfl) htrim
  refine ⟨ofPieces kept, hparent, ?_, ?_⟩
  · refine isAbsolute_ofPieces hslash hkept (by simp) fun hnil => ?_
    obtain rfl : front = [] := List.reverse_eq_nil_iff.mp (hleft hnil)
    exact isAbsolute_eq_false_of_head hp hn.ne_nil
  · rw [steps_ofPieces hslash, hsplit, List.filterMap_append, List.filterMap_eq_nil_iff.mpr hidle,
      List.append_nil]

/-- A path that can name a file is a name behind its parent. -/
theorem exists_parent {p : Path} (hd : p.namesDirectory = false) :
    ∃ directory n, IsName n ∧ p.parent? = some directory ∧
      directory.isAbsolute = p.isAbsolute ∧ p.steps = directory.steps ++ [.name n] := by
  rcases List.eq_nil_or_concat p.pieces with hp | ⟨front, last, hp⟩
  · exact absurd hp p.pieces_ne_nil
  rw [List.concat_eq_append] at hp
  have hname : component? last = some (.name (String.ofList last)) := by
    rw [namesDirectory, hp, List.getLast?_concat] at hd
    unfold component?
    split <;> simp_all
  have hn : IsName (String.ofList last) := isName_of_component? hname
    (Text.not_mem_of_mem_split (hp ▸ List.mem_concat_self : last ∈ p.pieces))
  have hp' : p.pieces = front ++ [(String.ofList last).toList] := by rw [hp, String.toList_ofList]
  obtain ⟨directory, hparent, ha, hsteps⟩ := exists_parent_of_pieces hn hp'
  refine ⟨directory, _, hn, hparent, ha, ?_⟩
  rw [steps, hp, List.filterMap_append, hsteps, List.filterMap_cons_some hname, List.filterMap_nil]

section Names

variable {n : String} (hn : IsName n)

include hn

theorem pieces_of_isName : (⟨n⟩ : Path).pieces = [n.toList] := Text.split_of_not_mem hn.noSlash

theorem namesDirectory_of_isName : (⟨n⟩ : Path).namesDirectory = false := by
  have hc := hn.component
  rw [namesDirectory, pieces_of_isName hn, List.getLast?_singleton]
  unfold component? at hc
  split at hc <;> simp_all

theorem steps_of_isName : (⟨n⟩ : Path).steps = [.name n] := by
  rw [steps, pieces_of_isName hn, List.filterMap_cons_some hn.component, List.filterMap_nil]

end Names

/-! ## From an absolute base -/

section Absolute

variable {base p directory : Path} {n : String} (ha : base.isAbsolute = true)

include ha

theorem isAbsolute_join_of_base (p : Path) : (base.join p).isAbsolute = true := by
  rw [isAbsolute_join, ha, Bool.true_or]

theorem components_join_of_steps {c : Component} (habs : directory.isAbsolute = p.isAbsolute)
    (hsteps : p.steps = directory.steps ++ [c]) :
    (base.join p).components = (base.join directory).components ++ [c] := by
  rw [components_of_isAbsolute (isAbsolute_join_of_base ha p),
    components_of_isAbsolute (isAbsolute_join_of_base ha directory), List.cons_append]
  cases hp : p.isAbsolute with
  | true => rw [join_of_isAbsolute hp, join_of_isAbsolute (habs.trans hp), hsteps]
  | false => rw [steps_join hp, steps_join (habs.trans hp), hsteps, List.append_assoc]

theorem components_joinText (hn : IsName n) :
    (base.joinText n).components = base.components ++ [.name n] := by
  rw [joinText, components_of_isAbsolute (isAbsolute_join_of_base ha ⟨n⟩),
    components_of_isAbsolute ha, steps_join (isAbsolute_of_isName hn), steps_of_isName hn,
    List.cons_append]

theorem exists_parent_joinText (hn : IsName n) : ∃ d, (base.joinText n).parent? = some d ∧
    d.isAbsolute = true ∧ d.components = base.components := by
  have hrelative := isAbsolute_of_isName hn
  have hd : (base.joinText n).namesDirectory = false := by
    rw [joinText, namesDirectory_join hrelative, namesDirectory_of_isName hn]
  obtain ⟨d, m, -, hparent, habs, hsteps⟩ := exists_parent hd
  rw [joinText, isAbsolute_join_of_base ha] at habs
  rw [joinText, steps_join hrelative, steps_of_isName hn] at hsteps
  refine ⟨d, hparent, habs, ?_⟩
  rw [components_of_isAbsolute habs, components_of_isAbsolute ha,
    (List.append_inj' hsteps rfl).1]

end Absolute

end Path

end MakeConfig
