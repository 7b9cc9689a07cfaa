import Mathlib.Data.List.Forall2
import Mathlib.Data.Nat.Digits.Defs
import MakeConfig.Proofs.Item.Canonical

/-! # Forms of values

Each kind has its own form in which values are given, and what is not of this form is refused.
Numbers are given by digits, as many as one likes, and it is their value that has to fit. That goes
for indices as well, which have 64 bits.
-/

namespace MakeConfig

/-! ## Numerals -/

namespace Numeral

section Digits

variable {radix n : Nat} {cs : List Char}

/-- The number that digits of a radix stand for. There is one digit at least. -/
def Denotes (radix : Nat) (cs : List Char) (n : Nat) : Prop :=
  cs ≠ [] ∧ ∃ ds : List Nat,
    List.Forall₂ (fun c d => digit? radix c = some d) cs ds ∧ Nat.ofDigits radix ds.reverse = n

theorem digitsFrom?_eq_some_iff {acc : Nat} :
    digitsFrom? radix acc cs = some n ↔ ∃ ds : List Nat,
      List.Forall₂ (fun c d => digit? radix c = some d) cs ds ∧
        acc * radix ^ cs.length + Nat.ofDigits radix ds.reverse = n := by
  induction cs generalizing acc with
  | nil => simp [digitsFrom?]
  | cons c cs ih =>
    have hshift : ∀ (d : Nat) (ds : List Nat), cs.length = ds.length →
        (acc * radix + d) * radix ^ cs.length + Nat.ofDigits radix ds.reverse =
          acc * radix ^ (c :: cs).length + Nat.ofDigits radix (d :: ds).reverse := by
      intro d ds hlength
      rw [List.reverse_cons, Nat.ofDigits_append, Nat.ofDigits_singleton, List.length_reverse,
        ← hlength, List.length_cons]
      ring
    rw [digitsFrom?, Option.bind_eq_some_iff]
    simp only [ih]
    constructor
    · rintro ⟨d, hd, ds, hds, rfl⟩
      exact ⟨d :: ds, .cons hd hds, (hshift d ds hds.length_eq).symm⟩
    · rintro ⟨_, hall, rfl⟩
      cases hall with
      | @cons _ d _ ds hd hds => exact ⟨d, hd, ds, hds, hshift d ds hds.length_eq⟩

theorem digits?_eq_some_iff_denotes : digits? radix cs = some n ↔ Denotes radix cs n := by
  rw [digits?_eq_some_iff, digitsFrom?_eq_some_iff]
  simp only [Nat.zero_mul, Nat.zero_add]
  rfl

theorem isBlank_of_denotes (h : Denotes radix cs n) {c : Char} (hc : c ∈ cs) :
    Text.isBlank c = false := by
  obtain ⟨d, hd⟩ := digit?_of_mem (digits?_eq_some_iff_denotes.mpr h) hc
  exact isBlank_of_digit? hd

end Digits

def Around (raw : String) (body : List Char) : Prop :=
  ∃ before after, Text.Blanks before ∧ Text.Blanks after ∧ raw.toList = before ++ (body ++ after)

theorem trim_eq_iff_around {raw : String} {sign ds : List Char} {minus : Bool} {radix n : Nat}
    (hsign : Sign sign minus) (hds : Denotes radix ds n) :
    Text.trim raw.toList = sign ++ ds ↔ Around raw (sign ++ ds) :=
  Text.trim_eq_iff fun _ hc => (List.mem_append.mp hc).elim (isBlank_of_sign hsign)
    (isBlank_of_denotes hds)

end Numeral

/-! ## Accepted forms -/

namespace Kind

open Numeral

/-- A text is of the form in which a kind is given values, and stands for a canonical text. -/
inductive Given : Kind → String → String → Prop where
  | bool {raw : String} : raw = "y" ∨ raw = "n" → Given .bool raw raw
  | tristate {raw : String} : raw = "y" ∨ raw = "m" ∨ raw = "n" → Given .tristate raw raw
  | choice {options : List String} {raw option : String} {sign ds : List Char} {i : Nat} :
      Sign sign false → Denotes 10 ds i → Around raw (sign ++ ds) → i < wordBound →
        options[i]? = some option → Given (.choice options) raw option
  | hex {range : Option (Nat × Nat)} {raw : String} {ds : List Char} {v : Nat} :
      Denotes 16 ds v → raw.toList = '0' :: 'x' :: ds → v < wordBound → InRange range v →
        Given (.hex range) raw raw
  | integer {range : Option (Int × Int)} {raw : String} {sign ds : List Char} {minus : Bool}
      {n : Nat} :
      Sign sign minus → Denotes 10 ds n → Around raw (sign ++ ds) → IsInt64 (signed minus n) →
        InRange range (signed minus n) → Given (.integer range) raw (intText (signed minus n))
  | text {raw : String} : raw ≠ "" → Given .text raw raw

variable {raw value : String}

theorem hexDigits?_eq_some_iff {cs ds : List Char} :
    hexDigits? cs = some ds ↔ cs = '0' :: 'x' :: ds ∧ ds ≠ [] ∧ ds.all isHexDigit = true := by
  unfold hexDigits?
  split
  · next ds' =>
    simp only [Option.ite_none_right_eq_some, Option.some.injEq, List.cons.injEq, true_and]
    constructor
    · rintro ⟨h, rfl⟩
      exact ⟨rfl, h⟩
    · rintro ⟨rfl, h⟩
      exact ⟨h, rfl⟩
  · next hnot =>
    simp only [reduceCtorEq, false_iff]
    rintro ⟨rfl, -⟩
    exact hnot ds rfl

theorem hexDigits?_of_denotes {ds : List Char} {v : Nat} (h : Denotes 16 ds v) :
    hexDigits? ('0' :: 'x' :: ds) = some ds := by
  have hds := digits?_eq_some_iff_denotes.mpr h
  refine hexDigits?_eq_some_iff.mpr ⟨rfl, h.1, List.all_eq_true.mpr fun c hc => ?_⟩
  obtain ⟨d, hd⟩ := digit?_of_mem hds hc
  rw [isHexDigit, hd]
  rfl

theorem acceptHex_iff_given {range : Option (Nat × Nat)} :
    acceptHex range raw = .ok value ↔ Given (.hex range) raw value := by
  rw [acceptHex_eq_ok_iff]
  constructor
  · rintro ⟨ds, v, hds, hv, hfits, hrange, rfl⟩
    exact .hex (digits?_eq_some_iff_denotes.mp hv) (hexDigits?_eq_some_iff.mp hds).1 hfits hrange
  · intro h
    cases h with
    | @hex _ _ ds v hv hraw hfits hrange =>
      refine ⟨ds, v, ?_, digits?_eq_some_iff_denotes.mpr hv, hfits, hrange, rfl⟩
      rw [hraw, hexDigits?_of_denotes hv]

theorem acceptInteger_iff_given {range : Option (Int × Int)} :
    acceptInteger range raw = .ok value ↔ Given (.integer range) raw value := by
  rw [acceptInteger_eq_ok_iff]
  simp only [signed64?_eq_some_iff, digits?_eq_some_iff_denotes]
  constructor
  · rintro ⟨_, ⟨sign, minus, ds, n, hsign, htrim, hn, rfl, hfits⟩, hrange, rfl⟩
    exact .integer hsign hn ((trim_eq_iff_around hsign hn).mp htrim) hfits hrange
  · intro h
    cases h with
    | @integer _ _ sign ds minus n hsign hn hraw hfits hrange =>
      have htrim := (trim_eq_iff_around hsign hn).mpr hraw
      exact ⟨_, ⟨sign, minus, ds, n, hsign, htrim, hn, rfl, hfits⟩, hrange, rfl⟩

theorem acceptIndex_iff_given {options : List String} :
    acceptIndex options raw = .ok value ↔ Given (.choice options) raw value := by
  rw [acceptIndex_eq_ok_iff]
  simp only [natural?_eq_some_iff, digits?_eq_some_iff_denotes]
  constructor
  · rintro ⟨i, ⟨sign, ds, hsign, htrim, hi, hfits⟩, ho⟩
    exact .choice hsign hi ((trim_eq_iff_around hsign hi).mp htrim) hfits ho
  · intro h
    cases h with
    | @choice _ _ _ sign ds i hsign hi hraw hfits ho =>
      exact ⟨i, ⟨sign, ds, hsign, (trim_eq_iff_around hsign hi).mpr hraw, hi, hfits⟩, ho⟩

theorem ite_eq_ok_iff {p : Prop} [Decidable p] {reason : Reason} :
    (if p then Except.ok raw else .error reason) = .ok value ↔ p ∧ raw = value := by
  split <;> simp [*]

theorem accept_eq_ok_iff_given {kind : Kind} :
    kind.accept raw = .ok value ↔ kind.Given raw value := by
  cases kind with
  | bool =>
    rw [accept, ite_eq_ok_iff]
    constructor
    · rintro ⟨h, rfl⟩
      exact .bool h
    · intro h
      cases h with
      | bool h => exact ⟨h, rfl⟩
  | tristate =>
    rw [accept, ite_eq_ok_iff]
    constructor
    · rintro ⟨h, rfl⟩
      exact .tristate h
    · intro h
      cases h with
      | tristate h => exact ⟨h, rfl⟩
  | choice options => exact acceptIndex_iff_given
  | hex range => exact acceptHex_iff_given
  | integer range => exact acceptInteger_iff_given
  | text =>
    rw [accept, ← ite_not, ite_eq_ok_iff]
    constructor
    · rintro ⟨h, rfl⟩
      exact .text h
    · intro h
      cases h with
      | text h => exact ⟨h, rfl⟩

end Kind

/-! ## Leading zeros -/

namespace Numeral

variable {radix d : Nat} {c : Char}

theorem digitsFrom?_replicate (hr : 0 < radix) (k : Nat) :
    digitsFrom? radix 0 (List.replicate k '0') = some 0 := by
  have hzero : digit? radix '0' = some 0 := by simp [digit?, hr]
  induction k with
  | zero => rfl
  | succ k ih => rw [List.replicate_succ, digitsFrom?, hzero, Option.bind_some, Nat.zero_mul, ih]

theorem digits?_zeros (hr : 0 < radix) (k : Nat) {cs : List Char} (hne : cs ≠ []) :
    digits? radix (List.replicate k '0' ++ cs) = digits? radix cs := by
  have hall : List.replicate k '0' ++ cs ≠ [] := fun h => hne (List.append_eq_nil_iff.mp h).2
  rw [digits?, digits?, if_neg (mt List.isEmpty_iff.mp hall), if_neg (mt List.isEmpty_iff.mp hne),
    digitsFrom?_append, digitsFrom?_replicate hr, Option.bind_some]

section Padded

variable (hc : digit? radix c = some d) (k : Nat) (rest : List Char)

include hc

theorem unsigned_padded : Unsigned (List.replicate k '0' ++ c :: rest) := by
  cases k with
  | zero => exact unsigned_of_digit? hc rest
  | succ k =>
    have hzero : digit? 10 '0' = some 0 := by decide
    exact unsigned_of_digit? hzero _

theorem digits?_padded :
    digits? radix (List.replicate k '0' ++ c :: rest) = digits? radix (c :: rest) :=
  digits?_zeros (Nat.zero_lt_of_lt (lt_of_digit? hc)) k (List.cons_ne_nil c rest)

section Front

variable {before sign : List Char} {minus : Bool} (hbefore : Text.Blanks before)
  (h : Sign sign minus)

include hbefore h

theorem trim_padded :
    Text.trim (before ++ (sign ++ (List.replicate k '0' ++ c :: rest))) =
      sign ++ (List.replicate k '0' ++ c :: Text.trimRight rest) := by
  have hfront : ∀ b ∈ sign ++ List.replicate k '0', Text.isBlank b = false := by
    intro b hb
    rcases List.mem_append.mp hb with hb | hb
    · exact isBlank_of_sign h hb
    · obtain rfl := (List.mem_replicate.mp hb).2
      rfl
  rw [Text.trim_blanks_append hbefore, ← List.append_assoc,
    Text.trim_append hfront (isBlank_of_digit? hc), List.append_assoc]

theorem trim_unpadded :
    Text.trim (before ++ (sign ++ c :: rest)) = sign ++ c :: Text.trimRight rest :=
  trim_padded hc 0 rest hbefore h

theorem signed64?_padded :
    signed64? radix (Text.trim (before ++ (sign ++ (List.replicate k '0' ++ c :: rest)))) =
      signed64? radix (Text.trim (before ++ (sign ++ c :: rest))) := by
  rw [trim_padded hc k rest hbefore h, trim_unpadded hc rest hbefore h,
    signed64?_append h fun _ => unsigned_padded hc k _,
    signed64?_append h fun _ => unsigned_of_digit? hc _, digits?_padded hc k]

end Front

theorem natural?_padded {bound : Nat} {before sign : List Char} (hbefore : Text.Blanks before)
    (h : Sign sign false) :
    natural? bound radix (Text.trim (before ++ (sign ++ (List.replicate k '0' ++ c :: rest)))) =
      natural? bound radix (Text.trim (before ++ (sign ++ c :: rest))) := by
  rw [trim_padded hc k rest hbefore h, trim_unpadded hc rest hbefore h,
    natural?_append h fun _ => unsigned_padded hc k _,
    natural?_append h fun _ => unsigned_of_digit? hc _, digits?_padded hc k]

end Padded

end Numeral

namespace Kind

open Numeral

/-- A text may stand in front of the digits in which a kind has its numbers. -/
inductive Front : Kind → Nat → List Char → Prop where
  | choice {options : List String} {before sign : List Char} :
      Text.Blanks before → Sign sign false → Front (.choice options) 10 (before ++ sign)
  | hex {range : Option (Nat × Nat)} : Front (.hex range) 16 ['0', 'x']
  | integer {range : Option (Int × Int)} {before sign : List Char} {minus : Bool} :
      Text.Blanks before → Sign sign minus → Front (.integer range) 10 (before ++ sign)

theorem exists_acceptHex_iff {range : Option (Nat × Nat)} {ds : List Char} :
    (∃ value, acceptHex range (String.ofList ('0' :: 'x' :: ds)) = .ok value) ↔
      ∃ v, digits? 16 ds = some v ∧ v < wordBound ∧ InRange range v := by
  simp only [acceptHex_iff_given, digits?_eq_some_iff_denotes]
  constructor
  · rintro ⟨_, h⟩
    cases h with
    | @hex _ _ ds' v hv hraw hfits hrange =>
      rw [String.toList_ofList] at hraw
      cases hraw
      exact ⟨v, hv, hfits, hrange⟩
  · rintro ⟨v, hv, hfits, hrange⟩
    exact ⟨_, .hex hv String.toList_ofList hfits hrange⟩

/-- Zeros in front of the digits make no difference to what is accepted. -/
theorem accepts_padded_iff {kind : Kind} {radix d : Nat} {front : List Char}
    (h : kind.Front radix front) {c : Char} (hc : digit? radix c = some d) (k : Nat)
    (rest : List Char) :
    (∃ value, kind.accept (String.ofList (front ++ (List.replicate k '0' ++ c :: rest))) =
        .ok value) ↔
      ∃ value, kind.accept (String.ofList (front ++ c :: rest)) = .ok value := by
  cases h with
  | choice hbefore hsign =>
    simp only [accept, acceptIndex, String.toList_ofList, List.append_assoc,
      natural?_padded hc k rest hbefore hsign]
  | hex =>
    simp only [accept, List.cons_append, List.nil_append, exists_acceptHex_iff,
      digits?_padded hc k rest]
  | integer hbefore hsign =>
    simp only [accept, acceptInteger, String.toList_ofList, List.append_assoc,
      signed64?_padded hc k rest hbefore hsign]

end Kind

/-! ## Items -/

namespace Item

open Numeral

variable {item : Item} {raw value : String}

theorem exists_error_iff :
    (∃ reason, item.validate raw = .error ⟨item.name, reason⟩) ↔
      ∀ value, item.validate raw ≠ .ok value := by
  unfold validate
  cases item.kind.accept raw <;> simp

/-- An item accepts exactly what is of the form of its kind, and whatever else it refuses under its
name. Digits may have any number of zeros in front of them. -/
theorem validates_given_forms (item : Item) :
    (∀ raw value, item.validate raw = .ok value ↔ item.kind.Given raw value) ∧
    (∀ raw, (∃ reason, item.validate raw = .error ⟨item.name, reason⟩) ↔
      ∀ value, ¬ item.kind.Given raw value) ∧
    ∀ radix front, item.kind.Front radix front → ∀ c d, digit? radix c = some d → ∀ k rest,
      ((∃ value, item.validate (String.ofList (front ++ (List.replicate k '0' ++ c :: rest))) =
          .ok value) ↔
        ∃ value, item.validate (String.ofList (front ++ c :: rest)) = .ok value) := by
  have hgiven : ∀ raw value, item.validate raw = .ok value ↔ item.kind.Given raw value :=
    fun _ _ => validate_eq_ok_iff.trans Kind.accept_eq_ok_iff_given
  refine ⟨hgiven, fun raw => ?_, fun radix front hfront c d hc k rest => ?_⟩
  · simp only [exists_error_iff, ne_eq, hgiven]
  · simp only [validate_eq_ok_iff]
    exact Kind.accepts_padded_iff hfront hc k rest

def level : Item where
  name := "LEVEL"
  kind := .integer (some (-5, 10))
  default? := none
  user? := none
  prompt := ""
  help := []
  depends := ∅
  observed := ∅
  visible := true
  forced := false
  imports := false
  generates := ∅

theorem validates_given_forms_level :
    level.validate " +10" = .ok "10" ∧
      (∃ value, level.validate
        (String.ofList ([' '] ++ ['+'] ++ (List.replicate 1000 '0' ++ ['1', '0']))) = .ok value) ∧
      ∃ reason, level.validate "11" = .error ⟨"LEVEL", reason⟩ := by
  obtain ⟨hgiven, hrefused, hzeros⟩ := validates_given_forms level
  have hten : Denotes 10 ['1', '0'] 10 := digits?_eq_some_iff_denotes.mp (by decide)
  have haround : Around " +10" (['+'] ++ ['1', '0']) := ⟨[' '], [], by decide, by decide, by decide⟩
  have hform : level.kind.Given " +10" "10" :=
    .integer .plus hten haround (by decide) (Kind.inRange_some.mpr (by decide))
  have haccepted : level.validate " +10" = .ok "10" := (hgiven _ _).mpr hform
  refine ⟨haccepted, ?_, (hrefused "11").mpr fun value h => ?_⟩
  · have hfront : level.kind.Front 10 ([' '] ++ ['+']) := .integer (by decide) .plus
    exact (hzeros 10 _ hfront '1' 1 (by decide) 1000 ['0']).mpr ⟨"10", haccepted⟩
  · cases (hgiven "11" value).mpr h

end Item

end MakeConfig
