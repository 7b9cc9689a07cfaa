import MakeConfig.Item.Derivation
import MakeConfig.Proofs.Item.Forms

/-! # The table of derivations

A derivation is read from a text exactly if the text, but for its blanks, is a word of the table. A
word stands alone or is called, and the call has one pair of parentheses, at its end. Any other text
is given back as it is.
-/

namespace MakeConfig

open Numeral

namespace Derivation

/-- The words of the table. -/
inductive Word : Derivation → List Char → Prop where
  | self {t : List Char} : t = "self".toList ∨ t = "this".toList → Word self t
  | now {t : List Char} :
      t = "now".toList ∨ t = "ctime".toList ∨ t = "now()".toList ∨ t = "ctime()".toList → Word now t
  | random {sign ds : List Char} {n : Nat} : Sign sign false → Denotes 10 ds n → 1 ≤ n → n ≤ 16 →
      Word (random n) ("rand(".toList ++ (sign ++ ds) ++ ")".toList)
  | convert {c : Conversion} {given : String} : given ∈ ["", "()", "(this)", "(self)"] →
      Word (convert c) (c.keyword ++ given).toList

/-! ## Words and their arguments -/

/-- A word with its argument in parentheses, or alone. -/
def spelled (word : String) : Option (List Char) → List Char
  | none => word.toList
  | some argument => word.toList ++ '(' :: (argument ++ [')'])

theorem call?_eq_some_iff {cs : List Char} {word : String} {argument : Option (List Char)} :
    call? cs = some (word, argument) ↔ '(' ∉ word.toList ∧ cs = spelled word argument := by
  constructor
  · intro h
    unfold call? at h
    split at h
    · next hs =>
      cases h
      simpa [spelled] using Text.splitOnce?_eq_none_iff.mp hs
    · next head rest hs =>
      obtain ⟨hhead, rfl⟩ := Text.splitOnce?_eq_some_iff.mp hs
      obtain ⟨inner, hinner, he⟩ := Option.map_eq_some_iff.mp h
      obtain rfl := Text.dropLast?_eq_some_iff.mp hinner
      cases he
      simpa [spelled] using hhead
  · rintro ⟨hword, rfl⟩
    unfold call?
    cases argument with
    | none => simp [spelled, Text.splitOnce?_eq_none_iff.mpr hword]
    | some inner =>
      have hinner : Text.dropLast? ')' (inner ++ [')']) = some inner :=
        Text.dropLast?_eq_some_iff.mpr rfl
      simp [spelled, Text.splitOnce?_append hword, hinner]

theorem bytes?_eq_some_iff {cs : List Char} {n : Nat} :
    bytes? cs = some n ↔
      1 ≤ n ∧ n ≤ 16 ∧ ∃ sign ds, Sign sign false ∧ Denotes 10 ds n ∧ cs = sign ++ ds := by
  unfold bytes?
  rw [Option.filter_eq_some_iff, natural?_eq_some_iff, decide_eq_true_iff]
  simp only [digits?_eq_some_iff_denotes]
  constructor
  · rintro ⟨⟨sign, ds, hsign, hcs, hds, hlt⟩, hpos⟩
    exact ⟨hpos, Nat.le_of_lt_succ hlt, sign, ds, hsign, hds, hcs⟩
  · rintro ⟨hpos, hle, sign, ds, hsign, hds, hcs⟩
    exact ⟨⟨sign, ds, hsign, hcs, hds, Nat.lt_succ_of_le hle⟩, hpos⟩

theorem ofKeyword?_eq_some_iff {word : String} {c : Conversion} :
    Conversion.ofKeyword? word = some c ↔ c.keyword = word := by
  constructor
  · intro h
    simpa using List.find?_some h
  · rintro rfl
    cases c <;> rfl

/-- What a word stands for with its argument. -/
inductive Call : Derivation → String → Option (List Char) → Prop where
  | self {word : String} : word = "self" ∨ word = "this" → Call self word none
  | now {word : String} {argument : Option (List Char)} : word = "now" ∨ word = "ctime" →
      argument = none ∨ argument = some [] → Call now word argument
  | random {argument : List Char} {n : Nat} : bytes? argument = some n →
      Call (random n) "rand" (some argument)
  | convert {c : Conversion} {argument : Option (List Char)} : isValueArgument argument = true →
      Call (convert c) c.keyword argument

theorem keyword_ne (c : Conversion) :
    ¬ (c.keyword = "self" ∨ c.keyword = "this") ∧ ¬ (c.keyword = "now" ∨ c.keyword = "ctime") ∧
      c.keyword ≠ "rand" := by
  cases c <;> decide

theorem ofCall?_eq_some_iff {word : String} {argument : Option (List Char)} {d : Derivation} :
    ofCall? word argument = some d ↔ Call d word argument := by
  constructor
  · intro h
    unfold ofCall? at h
    split at h
    · next hword =>
      obtain ⟨hnone, hd⟩ := Option.ite_none_right_eq_some.mp h
      cases hd
      obtain rfl := Option.isNone_iff_eq_none.mp hnone
      exact .self hword
    split at h
    · next hword =>
      obtain ⟨hargument, hd⟩ := Option.ite_none_right_eq_some.mp h
      cases hd
      exact .now hword (hargument.imp_left Option.isNone_iff_eq_none.mp)
    split at h
    · next hword =>
      obtain ⟨n, hn, rfl⟩ := Option.map_eq_some_iff.mp h
      obtain ⟨inner, rfl, hinner⟩ := Option.bind_eq_some_iff.mp hn
      exact hword ▸ .random hinner
    · obtain ⟨hargument, hc⟩ := Option.ite_none_right_eq_some.mp h
      obtain ⟨c, hkeyword, rfl⟩ := Option.map_eq_some_iff.mp hc
      exact ofKeyword?_eq_some_iff.mp hkeyword ▸ .convert hargument
  · rintro (hword | ⟨hword, hargument⟩ | hn | hargument)
    · rcases hword with rfl | rfl <;> rfl
    · rcases hword with rfl | rfl <;> rcases hargument with rfl | rfl <;> rfl
    · simp [ofCall?, hn]
    · next c =>
      obtain ⟨hself, hnow, hrand⟩ := keyword_ne c
      rw [ofCall?, if_neg hself, if_neg hnow, if_neg hrand, if_pos hargument,
        ofKeyword?_eq_some_iff.mpr rfl, Option.map_some]

/-! ## The words of the table are these calls -/

theorem isValueArgument_iff {argument : Option (List Char)} :
    isValueArgument argument = true ↔ argument = none ∨ argument = some [] ∨
      argument = some "this".toList ∨ argument = some "self".toList := by
  cases argument with
  | none => simp [isValueArgument]
  | some inner => simp [isValueArgument, ← String.toList_inj]

theorem word_of_call {word : String} {argument : Option (List Char)} {d : Derivation}
    (h : Call d word argument) : Word d (spelled word argument) := by
  cases h with
  | self hword => rcases hword with rfl | rfl <;> exact .self (by decide)
  | now hword hargument =>
    rcases hword with rfl | rfl <;> rcases hargument with rfl | rfl <;> exact .now (by decide)
  | @random _ n hn =>
    obtain ⟨hpos, hle, sign, ds, hsign, hds, rfl⟩ := bytes?_eq_some_iff.mp hn
    simpa [spelled] using Word.random hsign hds hpos hle
  | @convert c _ hargument =>
    have hword : ∀ given ∈ ["", "()", "(this)", "(self)"],
        Word (convert c) (c.keyword.toList ++ given.toList) := by
      intro given hgiven
      rw [← String.toList_append]
      exact .convert hgiven
    rcases isValueArgument_iff.mp hargument with rfl | rfl | rfl | rfl
    · simpa [spelled] using hword "" (by decide)
    · exact hword "()" (by decide)
    · exact hword "(this)" (by decide)
    · exact hword "(self)" (by decide)

theorem call_of_word {t : List Char} {d : Derivation} (h : Word d t) :
    ∃ word argument, Call d word argument ∧ '(' ∉ word.toList ∧ t = spelled word argument := by
  cases h with
  | self ht =>
    rcases ht with rfl | rfl
    · exact ⟨"self", none, .self (.inl rfl), by decide, rfl⟩
    · exact ⟨"this", none, .self (.inr rfl), by decide, rfl⟩
  | now ht =>
    rcases ht with rfl | rfl | rfl | rfl
    · exact ⟨"now", none, .now (.inl rfl) (.inl rfl), by decide, rfl⟩
    · exact ⟨"ctime", none, .now (.inr rfl) (.inl rfl), by decide, rfl⟩
    · exact ⟨"now", some [], .now (.inl rfl) (.inr rfl), by decide, rfl⟩
    · exact ⟨"ctime", some [], .now (.inr rfl) (.inr rfl), by decide, rfl⟩
  | @random sign ds n hsign hds hpos hle =>
    have hn : bytes? (sign ++ ds) = some n :=
      bytes?_eq_some_iff.mpr ⟨hpos, hle, sign, ds, hsign, hds, rfl⟩
    exact ⟨"rand", some (sign ++ ds), .random hn, by decide, by simp [spelled]⟩
  | @convert c given hgiven =>
    have hword : '(' ∉ c.keyword.toList := by cases c <;> decide
    simp only [List.mem_cons, List.not_mem_nil, or_false] at hgiven
    rcases hgiven with rfl | rfl | rfl | rfl
    · exact ⟨c.keyword, none, .convert rfl, hword, by simp [spelled]⟩
    · exact ⟨c.keyword, some [], .convert rfl, hword, by simp [spelled]⟩
    · exact ⟨c.keyword, some "this".toList, .convert (by decide), hword, by simp [spelled]⟩
    · exact ⟨c.keyword, some "self".toList, .convert (by decide), hword, by simp [spelled]⟩

theorem ofText?_eq_some_iff {text : String} {d : Derivation} :
    ofText? text = some d ↔ Word d (Text.withoutBlanks text.toList) := by
  unfold ofText?
  rw [Option.bind_eq_some_iff]
  constructor
  · rintro ⟨⟨word, argument⟩, hcall, hd⟩
    rw [(call?_eq_some_iff.mp hcall).2]
    exact word_of_call (ofCall?_eq_some_iff.mp hd)
  · intro h
    obtain ⟨word, argument, hd, hword, ht⟩ := call_of_word h
    exact ⟨(word, argument), call?_eq_some_iff.mpr ⟨hword, ht⟩, ofCall?_eq_some_iff.mpr hd⟩

/-! ## What is written is read -/

theorem all_text (d : Derivation) : (d.text.toList.all fun c => !Text.isBlank c) = true := by
  cases d with
  | self | now => decide
  | convert conversion => cases conversion <;> decide
  | random n =>
    have hdigits : ((digits 10 n).all fun c => !Text.isBlank c) = true := by
      rw [List.all_eq_true]
      intro c hc
      rw [isBlank_of_mem_digits (by decide) (by decide) hc, Bool.not_false]
    have hword : ("rand(".toList.all fun c => !Text.isBlank c) = true := by decide
    have hlast : (")".toList.all fun c => !Text.isBlank c) = true := by decide
    rw [text, natText, String.toList_append, String.toList_append, List.all_append, List.all_append,
      hword, hlast, String.toList_ofList, hdigits, Bool.and_self, Bool.and_self]

theorem withoutBlanks_text (d : Derivation) : Text.withoutBlanks d.text.toList = d.text.toList :=
  List.filter_eq_self.mpr (List.all_eq_true.mp d.all_text)

theorem Word.text {d : Derivation} {t : List Char} (h : Word d t) : Word d d.text.toList := by
  cases h with
  | self => exact .self (.inl rfl)
  | now => exact .now (.inr (.inr (.inl rfl)))
  | @random _ _ n _ _ hpos hle =>
    have hdigits : Denotes 10 (digits 10 n) n :=
      digits?_eq_some_iff_denotes.mp (digits?_digits (by decide) (by decide) n)
    simpa [Derivation.text, natText] using Word.random .none hdigits hpos hle
  | @convert c =>
    have hword : Word (.convert c) (c.keyword ++ "").toList := .convert (by decide)
    rwa [String.append_empty] at hword

theorem read_eq_ok_iff {text : String} {d : Derivation} :
    read text = .ok d ↔ ofText? text = some d := by
  unfold read
  cases ofText? text <;> simp

theorem read_eq_error_iff {text : String} {u : Unknown} :
    read text = .error u ↔ u = ⟨text⟩ ∧ ofText? text = none := by
  unfold read
  cases ofText? text <;> simp [eq_comm]

/-- A text is read as what its word in the table stands for, and is given back as it is if it has
none there. What is read is also read from its own text. -/
theorem read_from_table (text : String) :
    (∀ d, read text = .ok d ↔ Word d (Text.withoutBlanks text.toList)) ∧
    (∀ u, read text = .error u ↔
      u = ⟨text⟩ ∧ ∀ d, ¬ Word d (Text.withoutBlanks text.toList)) ∧
    ∀ d, read text = .ok d → read d.text = .ok d := by
  have hok : ∀ text d, read text = .ok d ↔ Word d (Text.withoutBlanks text.toList) :=
    fun _ _ => read_eq_ok_iff.trans ofText?_eq_some_iff
  refine ⟨hok text, fun u => ?_, fun d hd => ?_⟩
  · simp only [read_eq_error_iff, Option.eq_none_iff_forall_ne_some, ne_eq, ofText?_eq_some_iff]
  · rw [hok, withoutBlanks_text]
    exact ((hok text d).mp hd).text

/-- Blanks, a plus sign and zeros in front do not count. The word for the value is not called. -/
theorem read_from_table_spelled :
    read " rand ( +00 16 )" = .ok (.random 16) ∧ read "rand(16)" = .ok (.random 16) ∧
    read " self()" = .error ⟨" self()"⟩ ∧ ∀ d, ¬ Word d "self()".toList := by
  have hrandom : read " rand ( +00 16 )" = .ok (.random 16) := by rfl
  have hcall : read " self()" = .error ⟨" self()"⟩ := by rfl
  refine ⟨hrandom, (read_from_table _).2.2 _ hrandom, hcall, ?_⟩
  exact (((read_from_table _).2.1 _).mp hcall).2

end Derivation

end MakeConfig
