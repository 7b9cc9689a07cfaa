import MakeConfig.Proofs.Item.Typed
import MakeConfig.Proofs.Numeral.Literal
import MakeConfig.Proofs.Tree.Intake

/-! # Numbers of items

A text is read as a number in two ways. As an integer it is a literal, whose digits are decimal unless
a mark says otherwise, and a minus before the least number leaves the 64 bits. As a hexadecimal number
it has hexadecimal digits, with or without a mark. All other kinds give the same number both ways.
-/

namespace MakeConfig

open Numeral

namespace Numeral

/-! ## Texts out of 64 bits -/

/-- The number that a text stands for does not fit once its first sign is applied. -/
def Overflows (text : String) : Prop :=
  ∃ v, exactValue? (Text.trim text.toList) = some v ∧ ¬ IsInt64 v

theorem overflows_iff {text : String} :
    Overflows text ↔ TwiceSigned (Text.trim text.toList) true least64 := exactValue?_overflows_iff

theorem Overflows.literal_eq {build : Build} {text : String} (h : Overflows text) :
    literal build text = fit64 build (-least64) :=
  literal_of_exactValue? ((overflows_iff.mp h).exactValue?_eq (by decide))

/-- What comes of the number of a text. Where it does not fit, a checked build stops, and in a release
build the least number stands for it. -/
structure ReadsOff {ε α : Type} (build : Build) (text : String) (failed stopped : ε)
    (made : Int → α) (result : Except ε α) : Prop where
  exact : ∀ v, exactValue? (Text.trim text.toList) = some v → IsInt64 v → result = .ok (made v)
  stops : Overflows text → build = .checked → result = .error stopped
  wraps : Overflows text → build = .release → result = .ok (made least64)
  fails : exactValue? (Text.trim text.toList) = none → result = .error failed

theorem readsOff_of_literal {ε α : Type} {build : Build} {text : String} {failed stopped : ε}
    {made : Int → α} {result : Except ε α}
    (hok : ∀ v, literal build text = .ok v → result = .ok (made v))
    (hrefused : literal build text = .error .refused → result = .error failed)
    (hoverflow : literal build text = .error .overflow → result = .error stopped) :
    ReadsOff build text failed stopped made result where
  exact _ h hfits := hok _ (literal_of_isInt64 h hfits)
  stops h hb := by
    subst hb
    exact hoverflow h.literal_eq
  wraps h hb := by
    subst hb
    exact hok _ (h.literal_eq.trans (congrArg Except.ok wrap64_neg_least64))
  fails h := hrefused (literal_of_no_value h)

/-! ## Numerals of conversions -/

def hexBody : List Char → List Char
  | '0' :: 'x' :: cs => cs
  | '0' :: 'X' :: cs => cs
  | cs => cs

def negatable (read : List Char → Option Nat) : List Char → Option Int
  | '-' :: cs => (read cs).map fun (n : Nat) => signed true n
  | cs => (read cs).map fun (n : Nat) => signed false n

def decimal? : List Char → Option Int := negatable (digits? 10)

/-- A hexadecimal numeral with or without a mark behind its sign. -/
def hexadecimal? : List Char → Option Int := negatable fun cs => digits? 16 (hexBody cs)

theorem negatable_of_unsigned {read : List Char → Option Nat} {cs : List Char} {n : Nat}
    (hu : Unsigned cs) (h : read cs = some n) : negatable read cs = some (n : Int) := by
  unfold negatable
  split
  · exact absurd rfl hu.1
  · rw [h]
    rfl

theorem negatable_signedDigits {read : List Char → Option Nat} {radix : Nat} {v : Int}
    (hu : Unsigned (digits radix v.natAbs)) (h : read (digits radix v.natAbs) = some v.natAbs) :
    negatable read (signedDigits radix v) = some v := by
  unfold signedDigits
  split
  · next hv =>
    have hvalue : signed true v.natAbs = v := by
      simp only [signed, if_true]
      omega
    simp only [negatable, h, Option.map_some, hvalue]
  · next hv =>
    have hvalue : (v.natAbs : Int) = v := by omega
    rw [negatable_of_unsigned hu h, hvalue]

theorem hexBody_of_digits? {cs : List Char} {n : Nat} (h : digits? 16 cs = some n) :
    hexBody cs = cs := by
  unfold hexBody
  split
  · cases h
  · cases h
  · rfl

theorem decimal?_signedDigits (v : Int) : decimal? (signedDigits 10 v) = some v := by
  have hread : digits? 10 (digits 10 v.natAbs) = some v.natAbs :=
    digits?_digits (by decide) (by decide) _
  exact negatable_signedDigits (unsigned_of_digits? hread) hread

theorem hexadecimal?_signedDigits (v : Int) : hexadecimal? (signedDigits 16 v) = some v := by
  have hread : digits? 16 (digits 16 v.natAbs) = some v.natAbs :=
    digits?_digits (by decide) (by decide) _
  refine negatable_signedDigits (unsigned_of_digits? hread) ?_
  rw [hexBody_of_digits? hread, hread]

theorem signedDigits_natCast (radix n : Nat) : signedDigits radix n = digits radix n := by
  rw [signedDigits, if_neg (by omega), Int.natAbs_natCast]

theorem decimal?_intText (v : Int) : decimal? (intText v).toList = some v := by
  rw [intText, String.toList_ofList, decimal?_signedDigits]

theorem decimal?_natText (n : Nat) : decimal? (natText n).toList = some (n : Int) := by
  rw [natText, String.toList_ofList, ← signedDigits_natCast, decimal?_signedDigits]

theorem hexadecimal?_hexText (n : Nat) : hexadecimal? (hexText n).toList = some (n : Int) := by
  rw [hexText, String.toList_ofList, ← signedDigits_natCast, hexadecimal?_signedDigits]

theorem hexadecimal?_of_hexDigits? {text : String} {ds : List Char} {n : Nat}
    (h : Kind.hexDigits? text.toList = some ds) (hn : digits? 16 ds = some n) :
    hexadecimal? text.toList = some (n : Int) := by
  unfold Kind.hexDigits? at h
  split at h
  · next rest htext =>
    obtain ⟨-, hds⟩ := Option.ite_none_right_eq_some.mp h
    cases hds
    rw [htext]
    exact negatable_of_unsigned (by simp [Unsigned]) hn
  · cases h

/-! ## Texts read both ways -/

def HexMarked (cs : List Char) : Prop := ∃ mark rest, Mark mark 16 ∧ cs = mark ++ rest

/-- A text that is the same number as an integer and as a hexadecimal number, if it is both: it has
the mark, or one decimal digit is all of it but for zeros. -/
def ReadAlike (cs : List Char) : Prop := HexMarked cs ∨ ∃ n, natural? 10 10 cs = some n

theorem not_hexMarked_of_digits? {radix n : Nat} {cs : List Char} (h : digits? radix cs = some n) :
    ¬ HexMarked cs := by
  have hsmall : digit? radix 'x' = none := by simp [digit?]
  have hcapital : digit? radix 'X' = none := by simp [digit?]
  rintro ⟨mark, rest, hmark, rfl⟩
  cases hmark with
  | hex =>
    obtain ⟨d, hd⟩ := digit?_of_mem (c := 'x') h (by simp)
    cases hsmall.symm.trans hd
  | hexCapital =>
    obtain ⟨d, hd⟩ := digit?_of_mem (c := 'X') h (by simp)
    cases hcapital.symm.trans hd

theorem not_hexMarked_append {sign ds : List Char} {minus : Bool} (hsign : Sign sign minus)
    (h : ¬ HexMarked ds) : ¬ HexMarked (sign ++ ds) := by
  cases hsign with
  | none => exact h
  | plus | minus =>
    rintro ⟨mark, rest, hmark, he⟩
    cases hmark <;> cases he

theorem readHex?_cases {cs : List Char} {n : Nat} (h : Value.readHex? cs = some n) :
    ∃ mark sign ds, (mark = [] ∨ Mark mark 16) ∧ Sign sign false ∧ cs = mark ++ (sign ++ ds) ∧
      digits? 16 ds = some n := by
  have hread : ∀ {mark rest : List Char}, (mark = [] ∨ Mark mark 16) →
      natural? wordBound 16 rest = some n → ∃ mark' sign ds, (mark' = [] ∨ Mark mark' 16) ∧
        Sign sign false ∧ mark ++ rest = mark' ++ (sign ++ ds) ∧ digits? 16 ds = some n := by
    intro mark rest hmark hrest
    obtain ⟨sign, ds, hsign, rfl, hn, -⟩ := natural?_eq_some_iff.mp hrest
    exact ⟨mark, sign, ds, hmark, hsign, rfl, hn⟩
  unfold Value.readHex? at h
  split at h
  · exact hread (.inr .hex) h
  · exact hread (.inr .hexCapital) h
  · exact hread (.inl rfl) h

theorem isBlank_of_readHex? {cs : List Char} {n : Nat} (h : Value.readHex? cs = some n) {c : Char}
    (hc : c ∈ cs) : Text.isBlank c = false := by
  obtain ⟨mark, sign, ds, hmark, hsign, rfl, hn⟩ := readHex?_cases h
  rcases List.mem_append.mp hc with hc | hc
  · rcases hmark with rfl | hmark
    · cases hc
    · cases hmark <;> rcases hc with _ | ⟨_, _ | ⟨_, ⟨⟩⟩⟩ <;> rfl
  rcases List.mem_append.mp hc with hc | hc
  · exact isBlank_of_sign hsign hc
  · obtain ⟨d, hd⟩ := digit?_of_mem hn hc
    exact isBlank_of_digit? hd

theorem body?_of_literal {build : Build} {text : String} {sign body : List Char} {v : Int}
    (hsign : Sign sign false) (hu : sign = [] → Unsigned body)
    (ht : Text.trim text.toList = sign ++ body) (h : literal build text = .ok v) :
    body? body = some v := by
  obtain ⟨u, hexact, hfit⟩ := literal_eq_ok_iff.mp h
  rw [ht, exactValue?_append hsign hu] at hexact
  obtain ⟨w, hb, rfl⟩ := Option.map_eq_some_iff.mp hexact
  have hfits : fit64 build (signed false w) = .ok w := fit64_of_isInt64 (isInt64_of_body? hb)
  cases hfits.symm.trans hfit
  exact hb

theorem eq_iff_below_ten {sign ds : List Char} {m n : Nat} (hsign : Sign sign false)
    (hm : digits? 10 ds = some m) (hn : digits? 16 ds = some n) :
    m = n ↔ ∃ d, natural? 10 10 (sign ++ ds) = some d := by
  have hcases := digitsFrom?_cases (by decide) (by decide) (digits?_eq_some_iff.mp hm).2
    (digits?_eq_some_iff.mp hn).2
  rw [natural?_append hsign fun _ => unsigned_of_digits? hm, hm, Option.bind_some]
  simp only [within?_eq_some_iff]
  constructor
  · intro he
    exact ⟨m, rfl, by omega⟩
  · rintro ⟨-, -, hlt⟩
    omega

theorem ne_of_binary {mark rest : List Char} {v : Int} {n : Nat} (hmark : Mark mark 2)
    (hv : signed64? 2 rest = some v) (hn : digits? 16 (mark ++ rest) = some n) :
    v ≠ n ∧ digits? 10 (mark ++ rest) = none := by
  have hfrom := (digits?_eq_some_iff.mp hn).2
  rw [digitsFrom?_append] at hfrom
  obtain ⟨eleven, heleven, hrest⟩ := Option.bind_eq_some_iff.mp hfrom
  have hpos : 0 < eleven ∧ digits? 10 (mark ++ rest) = none := by
    cases hmark with
    | binary | binaryCapital =>
      cases heleven
      exact ⟨by decide, rfl⟩
  have hu : Unsigned rest := by
    cases rest with
    | nil => simp [Unsigned]
    | cons c rest =>
      obtain ⟨d, hd⟩ := digit?_of_mem_digitsFrom? hrest List.mem_cons_self
      exact unsigned_of_digit? hd rest
  rw [signed64?_of_unsigned hu, Option.bind_eq_some_iff] at hv
  obtain ⟨m, hm, hfits⟩ := hv
  obtain ⟨rfl, -⟩ := int64?_eq_some_iff.mp hfits
  have hlt : m < n :=
    digitsFrom?_lt (by decide) (by decide) hpos.1 (digits?_eq_some_iff.mp hm).2 hrest
  exact ⟨by omega, hpos.2⟩

/-- A text that is read both ways is the same number only if it reads alike. -/
theorem eq_iff_readAlike {build : Build} {text : String} {v : Int} {n : Nat}
    (hv : literal build text = .ok v) (hn : Value.readHex? text.toList = some n) :
    v = n ↔ ReadAlike text.toList := by
  obtain ⟨mark, sign, ds, hmark, hsign, hcs, hds⟩ := readHex?_cases hn
  have htrim := (Text.trim_of_no_blank fun c hc => isBlank_of_readHex? hn hc).trans hcs
  have hu := unsigned_of_digits? hds
  rw [hcs]
  rcases hmark with rfl | hmark
  · rw [List.nil_append] at htrim ⊢
    have hnot : ¬ HexMarked (sign ++ ds) := not_hexMarked_append hsign (not_hexMarked_of_digits? hds)
    replace hv := body?_of_literal hsign (fun _ => hu) htrim hv
    rw [ReadAlike, or_iff_right hnot]
    obtain ⟨mark, radix, rest, hmark, rfl, hrest⟩ := body?_eq_some_iff.mp hv
    cases hmark with
    | none =>
      rw [List.nil_append] at hds hu ⊢
      rw [signed64?_of_unsigned hu, Option.bind_eq_some_iff] at hrest
      obtain ⟨m, hm, hfits⟩ := hrest
      obtain ⟨rfl, -⟩ := int64?_eq_some_iff.mp hfits
      rw [← eq_iff_below_ten hsign hm hds, Int.ofNat_inj]
    | hex | hexCapital | octal | octalCapital => cases hds
    | binary | binaryCapital =>
      obtain ⟨hne, hnone⟩ := ne_of_binary (by constructor) hrest hds
      rw [natural?_append hsign fun _ => hu, hnone]
      simp [hne]
  · have hne : mark ≠ [] := by cases hmark <;> simp
    replace hv := body?_of_literal .none (fun _ => unsigned_of_mark hmark hne _) htrim hv
    rw [body?_of_mark hmark hne, signed64?_append hsign fun _ => hu, hds, Option.bind_some,
      int64?_eq_some_iff] at hv
    exact ⟨fun _ => .inl ⟨mark, _, hmark, rfl⟩, fun _ => hv.1⟩

end Numeral

/-! ## Conversions -/

namespace Item

variable {build : Build} {item : Item} {text : String}

theorem value?_of_text (hk : item.kind = .text) (hc : item.current? = some text) :
    item.value? = some (.text text) := by
  rw [value?_eq_valueOf? hc, valueOf?, hk]

theorem readsOff_convert (hk : item.kind = .text) (hv : item.visible = true)
    (hc : item.current? = some text) :
    ReadsOff build text (.conversion item.name "to_int" text) .overflow intText
      (item.convert build .integer) := by
  have hconvert : item.convert build .integer =
      match (literal build text).map intText with
      | .error .refused => .error (.conversion item.name "to_int" text)
      | .error .overflow => .error .overflow
      | .ok number => .ok number := by
    rw [convert, value?_of_text hk hc, hv]
    rfl
  rw [hconvert]
  refine readsOff_of_literal (fun v h => ?_) (fun h => ?_) fun h => ?_
  · rw [h]
    rfl
  · rw [h]
    rfl
  · rw [h]
    rfl

theorem readsOff_integerBound (s : String) :
    ReadsOff build s (.boundNotInteger (.string s)) .overflow id
      (integerBound build (.string s)) := by
  refine readsOff_of_literal (fun v h => ?_) (fun h => ?_) fun h => ?_
  · rw [integerBound, readBound, h]
    rfl
  · rw [integerBound, readBound, h]
  · rw [integerBound, readBound, h]

section Ranges

variable {α : Type} {bound : Json → Except Flaw α} {min max : Json}

theorem range?_pair_eq_ok_iff {range : Option (α × α)} :
    range? bound [min, max] = .ok range ↔
      ∃ low high, bound min = .ok low ∧ bound max = .ok high ∧ range = some (low, high) := by
  cases hmin : bound min <;> cases hmax : bound max <;>
    simp [range?, hmin, hmax, bind, Except.bind, pure, Except.pure, eq_comm]

/-- The second bound is looked at only after the first is read. -/
def FailsAt (bound : Json → Except Flaw α) (flaw : Flaw) (range : List Json) : Prop :=
  ∃ min max, range = [min, max] ∧
    (bound min = .error flaw ∨ ∃ low, bound min = .ok low ∧ bound max = .error flaw)

theorem range?_eq_overflow_iff {range : List Json} :
    range? bound range = .error .overflow ↔ FailsAt bound .overflow range := by
  rcases range with _ | ⟨min, _ | ⟨max, _ | ⟨third, rest⟩⟩⟩
  · simp [range?, FailsAt]
  · simp [range?, FailsAt]
  · cases hmin : bound min <;> cases hmax : bound max <;>
      simp [range?, FailsAt, hmin, hmax, bind, Except.bind, pure, Except.pure]
  · simp [range?, FailsAt]

end Ranges

theorem integerBound_eq_overflow_iff {bound : Json} :
    integerBound build bound = .error .overflow ↔
      build = .checked ∧ ∃ s, bound = .string s ∧ Overflows s := by
  cases bound with
  | string s =>
    simp only [integerBound, readBound, Json.string.injEq, exists_eq_left', overflows_iff,
      ← literal_eq_overflow_iff]
    split <;> simp_all
  | number n =>
    cases n with
    | integer v => cases h : int64? v <;> simp [integerBound, readBound, Reading.ofOption, h]
    | _ => simp [integerBound, readBound]
  | _ => simp [integerBound, readBound]

theorem kind_of_ofSpec_int {name : String} {spec : ItemSpec} {min max : Json}
    (hr : spec.range = [min, max]) (h : ofSpec build name "int" spec = .ok item) :
    ∃ low high, integerBound build min = .ok low ∧ integerBound build max = .ok high ∧
      item.kind = .integer (some (low, high)) := by
  obtain ⟨kind, -, hk, -, -, rfl⟩ := ofSpec_cases h
  have hrange : (Kind.integer <$> range? (integerBound build) [min, max]) = .ok kind := hr ▸ hk
  cases hb : range? (integerBound build) [min, max] with
  | error flaw =>
    rw [hb] at hrange
    cases hrange
  | ok range =>
    rw [hb] at hrange
    cases hrange
    obtain ⟨low, high, hlow, hhigh, rfl⟩ := range?_pair_eq_ok_iff.mp hb
    exact ⟨low, high, hlow, hhigh, rfl⟩

theorem derivations_ne_overflow (generates : OrderedMap String) :
    derivations generates ≠ .error .overflow := by
  have hentries : ∀ {α β : Type} {r : Except Flaw α} {f : α → β} {flaw : Flaw},
      (r >>= fun v => pure (f v)) = .error flaw → r = .error flaw := by
    rintro α β (flaw | v) f flaw' h
    · cases h
      rfl
    · cases h
  intro h
  obtain ⟨⟨key, expression⟩, -, hflaw⟩ := exists_of_mapM_error (hentries h)
  cases hread : Derivation.read expression with
  | error unknown =>
    simp only [hread] at hflaw
    cases hflaw
  | ok derivation =>
    simp only [hread] at hflaw
    cases hflaw

theorem ofSpec_eq_overflow_iff {name typeName : String} {spec : ItemSpec} :
    ofSpec build name typeName spec = .error .overflow ↔
      kindOf build typeName spec = .error .overflow := by
  have herror : ∀ flaw : Flaw, flaw.error name = .overflow ↔ flaw = .overflow := by
    intro flaw
    cases flaw <;> simp [Flaw.error]
  unfold ofSpec define
  cases hk : kindOf build typeName spec with
  | error flaw => simp [bind, Except.bind, herror]
  | ok kind =>
    cases hf : spec.forced && isBlankDefault (spec.default?.bind defaultText?) with
    | true => simp [hf, bind, Except.bind, throw, throwThe, MonadExceptOf.throw, Flaw.error]
    | false =>
      cases hg : derivations spec.generates with
      | error flaw =>
        have hflaw : flaw ≠ .overflow := fun he => derivations_ne_overflow _ (he ▸ hg)
        simp [hf, bind, Except.bind, herror, hflaw]
      | ok generates => simp [hf, bind, Except.bind, pure, Except.pure]

theorem ofSpec_int_eq_overflow_iff {name : String} {spec : ItemSpec} :
    ofSpec build name "int" spec = .error .overflow ↔
      FailsAt (integerBound build) .overflow spec.range := by
  have hkind : kindOf build "int" spec = Kind.integer <$> range? (integerBound build) spec.range :=
    rfl
  rw [ofSpec_eq_overflow_iff, hkind, ← range?_eq_overflow_iff]
  cases range? (integerBound build) spec.range <;> simp [Functor.map, Except.map]

/-- A number that a visible text or a bound of a range stands for is taken as it is, unless a minus
stands before the least number. There a checked build stops, and a release build takes the least
number. -/
theorem text_numbers_overflow (text : String) :
    (Overflows text ↔ TwiceSigned (Text.trim text.toList) true least64) ∧
    (∀ build, ∀ item : Item, item.kind = .text → item.visible = true →
      item.current? = some text →
        ReadsOff build text (.conversion item.name "to_int" text) .overflow intText
          (item.convert build .integer)) ∧
    (∀ build, ReadsOff build text (.boundNotInteger (.string text)) .overflow id
      (integerBound build (.string text))) ∧
    (∀ build bound, integerBound build bound = .error .overflow ↔
      build = .checked ∧ ∃ s, bound = .string s ∧ Overflows s) ∧
    ∀ build name spec,
      (ofSpec build name "int" spec = .error .overflow ↔
        FailsAt (integerBound build) .overflow spec.range) ∧
      ∀ min max item, spec.range = [min, max] → ofSpec build name "int" spec = .ok item →
        ∃ low high, integerBound build min = .ok low ∧ integerBound build max = .ok high ∧
          item.kind = .integer (some (low, high)) :=
  ⟨overflows_iff, fun _ _ hk hv hc => readsOff_convert hk hv hc, fun _ => readsOff_integerBound text,
    fun _ _ => integerBound_eq_overflow_iff, fun _ _ _ => ⟨ofSpec_int_eq_overflow_iff,
      fun _ _ _ hr h => kind_of_ofSpec_int hr h⟩⟩

def noted (s : String) : Item where
  name := "NOTE"
  kind := .text
  default? := some s
  user? := none
  prompt := ""
  help := []
  depends := ∅
  observed := ∅
  visible := true
  forced := false
  imports := false
  generates := ∅

theorem text_numbers_overflow_noted :
    (noted "-0x10").convert .checked .integer = .ok "-16" ∧
      integerBound .checked (.string " +0b101 ") = .ok 5 ∧
        integerBound .release (.string "5 0") = .error (.boundNotInteger (.string "5 0")) := by
  obtain ⟨-, hconvert, -⟩ := text_numbers_overflow "-0x10"
  obtain ⟨-, -, hread, -⟩ := text_numbers_overflow " +0b101 "
  obtain ⟨-, -, hrefused, -⟩ := text_numbers_overflow "5 0"
  have hsixteen : intText (-16) = "-16" := by decide
  refine ⟨hsixteen ▸ ?_, (hread _).exact 5 (by decide) (by decide),
    (hrefused _).fails (by decide)⟩
  exact (hconvert _ (noted "-0x10") rfl rfl (by decide)).exact (-16) (by decide) (by decide)

def ranged (min max : String) : ItemSpec where
  default? := none
  prompt? := none
  help? := none
  depends := ∅
  imports := false
  forced := false
  generates := ∅
  options := []
  range := [.string min, .string max]
  unknown := ∅

/-- Two minus signs in front of the greatest magnitude stop a checked build, and they make a negative
number in a release build, of an item and of a bound. -/
theorem text_numbers_overflow_least :
    Overflows "--9223372036854775808" ∧
      (noted "--9223372036854775808").convert .checked .integer = .error .overflow ∧
      (noted "--9223372036854775808").convert .release .integer = .ok "-9223372036854775808" ∧
      Overflows "-0x-8000000000000000" ∧
      ofSpec .checked "N" "int" (ranged "-0x-8000000000000000" "5") = .error .overflow ∧
      integerBound .release (.string "-0x-8000000000000000") = .ok (-9223372036854775808) := by
  have hleast : intText least64 = "-9223372036854775808" := by decide
  have htext : Overflows "--9223372036854775808" := ⟨-least64, by decide, by decide⟩
  have hbound : Overflows "-0x-8000000000000000" := ⟨-least64, by decide, by decide⟩
  have hconvert : ∀ build, ReadsOff build "--9223372036854775808"
      (.conversion "NOTE" "to_int" "--9223372036854775808") .overflow intText
        ((noted "--9223372036854775808").convert build .integer) :=
    fun build => readsOff_convert rfl rfl (by decide : (noted _).current? = some _)
  refine ⟨htext, (hconvert _).stops htext rfl, hleast ▸ (hconvert _).wraps htext rfl, hbound, ?_,
    (readsOff_integerBound _).wraps hbound rfl⟩
  exact ofSpec_int_eq_overflow_iff.mpr
    ⟨_, _, rfl, .inl ((readsOff_integerBound _).stops hbound rfl)⟩

/-! ## Both conversions to numbers -/

section Numbers

variable {kind : Kind} {text a b : String} {value : Value} {visible : Bool}

/-- The numbers of both conversions, which are one unless a visible text does not read alike. -/
def Agree (alike : Prop) (a b : String) : Prop :=
  ∃ m n, decimal? a.toList = some m ∧ hexadecimal? b.toList = some n ∧ (m = n ↔ alike)

theorem agree_of_same {alike : Prop} {m : Int} (ha : decimal? a.toList = some m)
    (hb : hexadecimal? b.toList = some m) (h : alike) : Agree alike a b :=
  ⟨m, m, ha, hb, iff_of_true rfl h⟩

theorem agree_of_text (ha : Value.ofText build true text .integer = .ok a)
    (hb : Value.ofText build true text .hex = .ok b) : Agree (ReadAlike text.toList) a b := by
  obtain ⟨v, hv, rfl⟩ := Reading.map_eq_ok_iff.mp ha
  obtain ⟨n, hn, rfl⟩ := Reading.map_eq_ok_iff.mp hb
  replace hn := Reading.ofOption_eq_ok_iff.mp hn
  exact ⟨v, n, decimal?_intText v, hexadecimal?_hexText n, eq_iff_readAlike hv hn⟩

/-- A value of any kind is one number both ways, but for a visible text. -/
theorem agree_of_spells (h : kind.Spells text value)
    (ha : value.convert build visible .integer = .ok a)
    (hb : value.convert build visible .hex = .ok b) :
    Agree (kind = .text → visible = true → ReadAlike text.toList) a b := by
  cases h with
  | bool v =>
    cases ha
    cases hb
    cases v with
    | false => exact agree_of_same (m := 0) (by decide) (by decide) (by simp)
    | true => exact agree_of_same (m := 1) (by decide) (by decide) (by simp)
  | @tristate _ t =>
    cases ha
    cases hb
    cases t with
    | yes => exact agree_of_same (m := 2) (by decide) (by decide) (by simp)
    | module => exact agree_of_same (m := 0) (by decide) (by decide) (by simp)
    | no => exact agree_of_same (m := 1) (by decide) (by decide) (by simp)
  | @choice _ _ i =>
    cases ha
    cases hb
    exact agree_of_same (decimal?_natText i) (hexadecimal?_hexText i) (by simp)
  | @hex _ _ ds v hds hd =>
    cases ha
    cases hb
    exact agree_of_same (decimal?_natText v) (hexadecimal?_of_hexDigits? hds hd) (by simp)
  | @integer _ v =>
    cases ha
    cases hb
    have hhex : hexadecimal? (String.ofList (signedDigits 16 v)).toList = some v := by
      rw [String.toList_ofList, hexadecimal?_signedDigits]
    exact agree_of_same (decimal?_intText v) hhex (by simp)
  | text hs =>
    cases visible with
    | false =>
      cases ha
      cases hb
      exact agree_of_same (m := 0) (by decide) (by decide) (by simp)
    | true =>
      have h := agree_of_text ha hb
      simpa using h

end Numbers

/-- Where both conversions to numbers succeed, their results are numerals of one number, unless the
item is a visible text: this has to have a mark for hexadecimal digits or to be below ten. -/
theorem Typed.numbers_agree_iff (h : item.Typed) {a b : String}
    (ha : item.convert build .integer = .ok a) (hb : item.convert build .hex = .ok b) :
    ∃ m n, decimal? a.toList = some m ∧ hexadecimal? b.toList = some n ∧
      (m = n ↔ ∀ text, item.kind = .text → item.visible = true → item.current? = some text →
        ReadAlike text.toList) := by
  obtain ⟨value, hvalue, ha⟩ := convert_eq_ok_iff.mp ha
  obtain ⟨value', hvalue', hb⟩ := convert_eq_ok_iff.mp hb
  obtain rfl : value = value' := Option.some.inj (hvalue.symm.trans hvalue')
  obtain ⟨text, hc, hspells⟩ := h.spells_of_value? hvalue
  obtain ⟨m, n, hm, hn, hiff⟩ := agree_of_spells hspells ha hb
  refine ⟨m, n, hm, hn, hiff.trans ⟨fun halike text' hk hv hc' => ?_, fun halike hk hv => ?_⟩⟩
  · exact Option.some.inj (hc.symm.trans hc') ▸ halike hk hv
  · exact halike text hk hv hc

theorem typed_noted (s : String) : (noted s).Typed := by
  rintro text ⟨⟩

theorem convert_noted {s text : String} {target : Conversion} (hs : s ≠ "")
    (h : Value.ofText build true s target = .ok text) :
    (noted s).convert build target = .ok text := by
  have hc : (noted s).current? = some s := by
    simp [noted, current?, acceptedDefault?, validate, Kind.accept, hs, Except.toOption]
  exact convert_eq_ok_iff.mpr ⟨.text s, value?_of_text rfl hc, h⟩

theorem Typed.numbers_agree_iff_noted :
    (noted "0x10").Typed ∧ (noted "0x10").convert .checked .integer = .ok "16" ∧
      (noted "0x10").convert .checked .hex = .ok "10" ∧
      ∃ m n, decimal? "16".toList = some m ∧ hexadecimal? "10".toList = some n ∧ m = n := by
  have hint : (noted "0x10").convert .checked .integer = .ok "16" := convert_noted (by decide) rfl
  have hhex : (noted "0x10").convert .checked .hex = .ok "10" := convert_noted (by decide) rfl
  obtain ⟨m, n, hm, hn, hiff⟩ := (typed_noted "0x10").numbers_agree_iff hint hhex
  refine ⟨typed_noted _, hint, hhex, m, n, hm, hn, hiff.mpr fun text _ _ hc => ?_⟩
  have hcurrent : (noted "0x10").current? = some "0x10" := by decide
  obtain rfl := Option.some.inj (hcurrent.symm.trans hc)
  exact .inl ⟨['0', 'x'], ['1', '0'], .hex, by decide⟩

/-- Without one the digits of a visible text are decimal for one conversion only. -/
theorem numbers_disagree_noted :
    (noted "10").Typed ∧ ∃ a b, (∀ build, (noted "10").convert build .integer = .ok a) ∧
      (∀ build, (noted "10").convert build .hex = .ok b) ∧ decimal? a.toList = some 10 ∧
        hexadecimal? b.toList = some 16 := by
  refine ⟨typed_noted _, "10", "10", fun _ => ?_, fun _ => ?_, by decide, by decide⟩
  · exact convert_noted (by decide) rfl
  · exact convert_noted (by decide) rfl

end Item

end MakeConfig
