import MakeConfig.Text.Blank

/-! # Lines that are written and read

A text of lines, each with a line feed at its end, is cut into these lines again, but for a carriage
return before the line feed. Blanks at the end of a line do not outlast a cut at both ends.
-/

namespace MakeConfig.Text

def ended (ls : List (List Char)) : List Char := ls.flatMap (· ++ ['\n'])

theorem split_append {sep : Char} {cs : List Char} (h : sep ∉ cs) (rest : List Char) :
    split sep (cs ++ sep :: rest) = cs :: split sep rest := by
  induction cs with
  | nil => simp [split]
  | cons c cs ih =>
    have hc : c ≠ sep := fun he => h (he ▸ List.mem_cons_self)
    have hcs : sep ∉ cs := fun hm => h (List.mem_cons_of_mem c hm)
    rw [List.cons_append, split, if_neg hc, ih hcs]

theorem split_append_cons (sep : Char) (cs rest : List Char) :
    split sep (cs ++ sep :: rest) = split sep cs ++ split sep rest := by
  induction cs with
  | nil => simp [split]
  | cons c cs ih =>
    rw [List.cons_append, split, split, ih]
    split
    · rfl
    · cases hs : split sep cs with
      | nil => exact absurd hs (split_ne_nil sep cs)
      | cons part parts => rfl

theorem split_of_not_mem {sep : Char} {cs : List Char} (h : sep ∉ cs) : split sep cs = [cs] := by
  induction cs with
  | nil => rfl
  | cons c cs ih =>
    have hc : c ≠ sep := fun he => h (he ▸ List.mem_cons_self)
    have hcs : sep ∉ cs := fun hm => h (List.mem_cons_of_mem c hm)
    rw [split, if_neg hc, ih hcs]

/-- Parts that are put together are found again. -/
theorem split_intercalate {sep : Char} {parts : List (List Char)} (hne : parts ≠ [])
    (h : ∀ part ∈ parts, sep ∉ part) : split sep (List.intercalate [sep] parts) = parts := by
  induction parts with
  | nil => exact absurd rfl hne
  | cons part parts ih =>
    have hpart := h part List.mem_cons_self
    cases parts with
    | nil => rw [List.intercalate_singleton, split_of_not_mem hpart]
    | cons next parts =>
      rw [List.intercalate_cons_cons, List.append_assoc, List.singleton_append, split_append hpart,
        ih (by simp) fun q hq => h q (List.mem_cons_of_mem part hq)]

theorem intercalate_concat {sep : Char} {parts : List (List Char)} (hne : parts ≠ [])
    (part : List Char) : List.intercalate [sep] (parts ++ [part]) =
      List.intercalate [sep] parts ++ sep :: part := by
  induction parts with
  | nil => exact absurd rfl hne
  | cons first parts ih =>
    cases parts with
    | nil => simp [List.intercalate_cons_cons]
    | cons next parts =>
      have hrest := ih (by simp)
      rw [List.cons_append] at hrest
      rw [List.cons_append, List.cons_append, List.intercalate_cons_cons, hrest,
        List.intercalate_cons_cons, List.append_assoc _ _ (sep :: part)]

theorem mem_intercalate {sep c : Char} {parts : List (List Char)}
    (h : c ∈ List.intercalate [sep] parts) : c = sep ∨ ∃ part ∈ parts, c ∈ part := by
  induction parts with
  | nil => cases h
  | cons first parts ih =>
    cases parts with
    | nil =>
      rw [List.intercalate_singleton] at h
      exact .inr ⟨first, List.mem_cons_self, h⟩
    | cons next parts =>
      rw [List.intercalate_cons_cons] at h
      rcases List.mem_append.mp h with h | h
      · rcases List.mem_append.mp h with h | h
        · exact .inr ⟨first, List.mem_cons_self, h⟩
        · exact .inl (List.mem_singleton.mp h)
      · rcases ih h with h | ⟨part, hp, h⟩
        · exact .inl h
        · exact .inr ⟨part, List.mem_cons_of_mem first hp, h⟩

theorem mem_of_mem_split {sep c : Char} {cs part : List Char} (hp : part ∈ split sep cs)
    (hc : c ∈ part) : c ∈ cs := by
  induction cs generalizing part with
  | nil =>
    obtain rfl := List.mem_singleton.mp hp
    exact hc
  | cons d cs ih =>
    rw [split] at hp
    split at hp
    · rcases List.mem_cons.mp hp with rfl | hp
      · cases hc
      · exact List.mem_cons_of_mem d (ih hp hc)
    · split at hp
      · next hs => exact absurd hs (split_ne_nil sep cs)
      · next first parts hs =>
        rw [hs] at ih
        rcases List.mem_cons.mp hp with rfl | hp
        · rcases List.mem_cons.mp hc with rfl | hc
          · exact List.mem_cons_self
          · exact List.mem_cons_of_mem d (ih List.mem_cons_self hc)
        · exact List.mem_cons_of_mem d (ih (List.mem_cons_of_mem first hp) hc)

theorem split_ended {ls : List (List Char)} (h : ∀ l ∈ ls, '\n' ∉ l) :
    split '\n' (ended ls) = ls ++ [[]] := by
  induction ls with
  | nil => rfl
  | cons l ls ih =>
    have hcons : ended (l :: ls) = l ++ '\n' :: ended ls := by simp [ended]
    rw [hcons, split_append (h l List.mem_cons_self),
      ih fun k hk => h k (List.mem_cons_of_mem l hk), List.cons_append]

theorem not_mem_of_mem_split {sep : Char} {cs part : List Char} (h : part ∈ split sep cs) :
    sep ∉ part := by
  induction cs generalizing part with
  | nil =>
    obtain rfl := List.mem_singleton.mp h
    exact List.not_mem_nil
  | cons c cs ih =>
    rw [split] at h
    split at h
    · rcases List.mem_cons.mp h with rfl | h
      · exact List.not_mem_nil
      · exact ih h
    · next hc =>
      split at h
      · next hs => exact absurd hs (split_ne_nil sep cs)
      · next first parts hs =>
        rcases List.mem_cons.mp h with rfl | h
        · have hfirst : sep ∉ first := ih (hs ▸ List.mem_cons_self)
          exact fun hm => (List.mem_cons.mp hm).elim (fun he => hc he.symm) hfirst
        · exact ih (hs ▸ List.mem_cons_of_mem first h)

/-- Lines are found again exactly if none of them has a line feed in it. -/
theorem split_ended_iff {ls : List (List Char)} :
    split '\n' (ended ls) = ls ++ [[]] ↔ ∀ l ∈ ls, '\n' ∉ l := by
  constructor
  · intro h l hl
    exact not_mem_of_mem_split (h ▸ List.mem_append_left _ hl)
  · exact split_ended

theorem count_ended (ls : List (List Char)) :
    (ended ls).count '\n' = ls.length + ls.flatten.count '\n' := by
  induction ls with
  | nil => rfl
  | cons l ls ih =>
    have hcons : ended (l :: ls) = l ++ ['\n'] ++ ended ls := rfl
    rw [hcons, List.count_append, List.count_append, ih, List.flatten_cons, List.count_append,
      List.count_singleton_self, List.length_cons]
    omega

theorem lines_ended {ls : List (List Char)} (h : ∀ l ∈ ls, '\n' ∉ l) :
    lines (ended ls) = ls.map endLine := by
  simp [lines, split_ended h]

/-! ## Blanks at the ends -/

theorem trimRight_append {c : Char} (h : isBlank c = false) (before after : List Char) :
    trimRight (before ++ c :: after) = before ++ c :: trimRight after := by
  unfold trimRight
  rw [List.reverse_append, List.reverse_cons, List.append_assoc, List.dropWhile_append]
  split
  · next hempty =>
    rw [List.isEmpty_iff] at hempty
    simp [hempty, h]
  · simp

theorem trimRight_concat {c : Char} (h : isBlank c = true) (cs : List Char) :
    trimRight (cs ++ [c]) = trimRight cs := by
  simp [trimRight, h]

theorem trim_cons {c : Char} (h : isBlank c = false) (cs : List Char) :
    trim (c :: cs) = c :: trimRight cs := by
  rw [trim, trimLeft, List.dropWhile_cons_of_neg (by simp [h])]
  exact trimRight_append h [] cs

theorem trim_concat {c : Char} (h : isBlank c = true) (cs : List Char) :
    trim (cs ++ [c]) = trim cs := by
  unfold trim trimLeft
  rw [List.dropWhile_append]
  split
  · next hempty =>
    rw [List.isEmpty_iff] at hempty
    simp [hempty, h]
  · exact trimRight_concat h _

theorem trim_endLine (line : List Char) : trim (endLine line) = trim line := by
  unfold endLine dropLast?
  split
  · next hlast =>
    obtain ⟨front, rfl⟩ := List.getLast?_eq_some_iff.mp hlast
    rw [Option.getD_some, List.dropLast_concat, trim_concat (by decide)]
  · rfl

theorem trimRight_eq_self_iff (cs : List Char) :
    trimRight cs = cs ↔ ∀ c, cs.getLast? = some c → isBlank c = false := by
  constructor
  · intro h c hc
    obtain ⟨front, rfl⟩ := List.getLast?_eq_some_iff.mp hc
    cases hb : isBlank c with
    | false => rfl
    | true =>
      rw [trimRight_concat hb] at h
      have hle : (trimRight front).length ≤ front.length := by
        simpa [trimRight] using (List.dropWhile_suffix isBlank (l := front.reverse)).length_le
      rw [h, List.length_append, List.length_singleton] at hle
      omega
  · intro h
    cases hl : cs.getLast? with
    | none =>
      rw [List.getLast?_eq_none_iff] at hl
      rw [hl]
      rfl
    | some c =>
      obtain ⟨front, rfl⟩ := List.getLast?_eq_some_iff.mp hl
      exact trimRight_append (h c hl) front []

theorem trim_of_no_blank {cs : List Char} (h : ∀ c ∈ cs, isBlank c = false) : trim cs = cs := by
  cases cs with
  | nil => rfl
  | cons c cs =>
    rw [trim_cons (h c List.mem_cons_self), (trimRight_eq_self_iff cs).mpr]
    intro d hd
    exact h d (List.mem_cons_of_mem c (List.mem_of_getLast? hd))

def Blanks (cs : List Char) : Prop := ∀ c ∈ cs, isBlank c = true

instance (cs : List Char) : Decidable (Blanks cs) := List.decidableBAll _ cs

theorem trim_blanks_append {before : List Char} (h : Blanks before) (cs : List Char) :
    trim (before ++ cs) = trim cs := by
  rw [trim, trimLeft, List.dropWhile_append_of_pos h]
  rfl

theorem trim_append_blanks {after : List Char} (h : Blanks after) (cs : List Char) :
    trim (cs ++ after) = trim cs := by
  induction after generalizing cs with
  | nil => rw [List.append_nil]
  | cons c after ih =>
    have hc : isBlank c = true := h c List.mem_cons_self
    have hafter : Blanks after := fun d hd => h d (List.mem_cons_of_mem c hd)
    rw [← List.singleton_append, ← List.append_assoc, ih hafter, trim_concat hc]

theorem exists_blanks (cs : List Char) :
    ∃ before after, Blanks before ∧ Blanks after ∧ cs = before ++ (trim cs ++ after) := by
  refine ⟨cs.takeWhile isBlank, ((trimLeft cs).reverse.takeWhile isBlank).reverse,
    List.all_eq_true.mp List.all_takeWhile, fun c hc => ?_, ?_⟩
  · exact List.all_eq_true.mp List.all_takeWhile c (List.mem_reverse.mp hc)
  · have hright : trim cs ++ ((trimLeft cs).reverse.takeWhile isBlank).reverse = trimLeft cs := by
      rw [trim, trimRight, ← List.reverse_append, List.takeWhile_append_dropWhile,
        List.reverse_reverse]
    rw [hright, trimLeft, List.takeWhile_append_dropWhile]

/-- A text without blanks is what a cut leaves exactly if there are only blanks around it. -/
theorem trim_eq_iff {cs body : List Char} (h : ∀ c ∈ body, isBlank c = false) :
    trim cs = body ↔
      ∃ before after, Blanks before ∧ Blanks after ∧ cs = before ++ (body ++ after) := by
  constructor
  · rintro rfl
    exact exists_blanks cs
  · rintro ⟨before, after, hbefore, hafter, rfl⟩
    rw [trim_blanks_append hbefore, trim_append_blanks hafter, trim_of_no_blank h]

theorem trim_eq_nil_iff {cs : List Char} : trim cs = [] ↔ Blanks cs := by
  have hnil : ∀ c ∈ ([] : List Char), isBlank c = false := fun _ hc => absurd hc List.not_mem_nil
  rw [trim_eq_iff hnil]
  constructor
  · rintro ⟨before, after, hbefore, hafter, rfl⟩ c hc
    exact (List.mem_append.mp hc).elim (hbefore c) (hafter c)
  · intro h
    exact ⟨cs, [], h, fun _ hc => absurd hc List.not_mem_nil, (List.append_nil cs).symm⟩

theorem trim_append {front : List Char} (h : ∀ d ∈ front, isBlank d = false) {c : Char}
    (hc : isBlank c = false) (rest : List Char) :
    trim (front ++ c :: rest) = front ++ c :: trimRight rest := by
  cases front with
  | nil => exact trim_cons hc rest
  | cons d front =>
    rw [List.cons_append, trim_cons (h d List.mem_cons_self), trimRight_append hc, List.cons_append]

/-! ## A first separator -/

theorem splitOnce?_append {sep : Char} {cs : List Char} (h : sep ∉ cs) (rest : List Char) :
    splitOnce? sep (cs ++ sep :: rest) = some (cs, rest) := by
  induction cs with
  | nil => simp [splitOnce?]
  | cons c cs ih =>
    have hc : c ≠ sep := fun he => h (he ▸ List.mem_cons_self)
    have hcs : sep ∉ cs := fun hm => h (List.mem_cons_of_mem c hm)
    rw [List.cons_append, splitOnce?, if_neg hc, ih hcs, Option.map_some]

theorem splitOnce?_eq_none_iff {sep : Char} {cs : List Char} :
    splitOnce? sep cs = none ↔ sep ∉ cs := by
  induction cs with
  | nil => simp [splitOnce?]
  | cons c cs ih =>
    by_cases hc : c = sep
    · simp [splitOnce?, hc]
    · simp [splitOnce?, hc, ih, Ne.symm hc]

theorem splitOnce?_eq_some_iff {sep : Char} {cs head rest : List Char} :
    splitOnce? sep cs = some (head, rest) ↔ sep ∉ head ∧ cs = head ++ sep :: rest := by
  constructor
  · intro h
    by_cases hmem : sep ∈ cs
    · obtain ⟨before, after, rfl, hbefore⟩ := List.eq_append_cons_of_mem hmem
      rw [splitOnce?_append hbefore] at h
      cases h
      exact ⟨hbefore, rfl⟩
    · rw [splitOnce?_eq_none_iff.mpr hmem] at h
      cases h
  · rintro ⟨h, rfl⟩
    exact splitOnce?_append h rest

theorem dropLast?_eq_some_iff {last : Char} {cs front : List Char} :
    dropLast? last cs = some front ↔ cs = front ++ [last] := by
  unfold dropLast?
  rw [Option.ite_none_right_eq_some, List.getLast?_eq_some_iff]
  constructor
  · rintro ⟨⟨front', rfl⟩, h⟩
    rw [List.dropLast_concat] at h
    cases h
    rfl
  · rintro rfl
    exact ⟨⟨front, rfl⟩, by rw [List.dropLast_concat]⟩

end MakeConfig.Text
