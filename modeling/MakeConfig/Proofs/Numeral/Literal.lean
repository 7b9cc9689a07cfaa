import MakeConfig.Proofs.Item.Canonical
import Mathlib.Logic.Basic

/-! # Integer literals

A literal is a sign, the mark of a radix and digits, the first two if need be. What is read is more
and less than that: a second sign may stand before the digits, and a number has to fit 64 bits before
the first sign is applied to it. So the least number is not read from its literal, and a minus before
the least number stops a checked build and gives the least number in a release build.
-/

namespace MakeConfig.Numeral

variable {build : Build}

/-! ## Readings -/

theorem Reading.ofOption_eq_error_iff {α : Type} {v? : Option α} {why : Unread} :
    Reading.ofOption v? = .error why ↔ v? = none ∧ why = .refused := by
  cases v? with
  | none => simp [Reading.ofOption, eq_comm]
  | some v => simp [Reading.ofOption]

theorem Reading.ofOption_eq_ok_iff {α : Type} {v? : Option α} {v : α} :
    Reading.ofOption v? = .ok v ↔ v? = some v := by
  cases v? <;> simp [Reading.ofOption]

theorem Reading.map_eq_error_iff {α β : Type} {f : α → β} {r : Reading α} {why : Unread} :
    r.map f = .error why ↔ r = .error why := by
  cases r <;> simp [Except.map]

theorem Reading.map_eq_ok_iff {α β : Type} {f : α → β} {r : Reading α} {w : β} :
    r.map f = .ok w ↔ ∃ v, r = .ok v ∧ f v = w := by
  cases r <;> simp [Except.map]

/-! ## Digits -/

theorem toNat_toLower (c : Char) :
    c.toLower.toNat = if 65 ≤ c.toNat ∧ c.toNat ≤ 90 then c.toNat + 32 else c.toNat := by
  unfold Char.toLower
  split
  · next h =>
    have hcapital : 65 ≤ c.toNat ∧ c.toNat ≤ 90 := ⟨h.1, h.2⟩
    have hle : c.val.toNat ≤ 90 := hcapital.2
    have hshift : ('a'.val - 'A'.val).toNat = 32 := rfl
    rw [if_pos hcapital]
    change (c.val + ('a'.val - 'A'.val)).toNat = _
    rw [UInt32.toNat_add, hshift, Nat.mod_eq_of_lt (by omega)]
    rfl
  · next h => exact (if_neg h).symm

theorem digit?_toLower (radix : Nat) (c : Char) : digit? radix c.toLower = digit? radix c := by
  have hle : ∀ a b : Char, a ≤ b ↔ a.toNat ≤ b.toNat := fun _ _ => Iff.rfl
  have hlower := toNat_toLower c
  have hcodes : '0'.toNat = 48 ∧ '9'.toNat = 57 ∧ 'a'.toNat = 97 ∧ 'f'.toNat = 102 ∧
      'A'.toNat = 65 ∧ 'F'.toNat = 70 := by decide
  obtain ⟨h0, h9, ha, hf, hA, hF⟩ := hcodes
  unfold digit?
  simp only [hle, h0, h9, ha, hf, hA, hF]
  grind

theorem digitsFrom?_toLower (radix acc : Nat) (cs : List Char) :
    digitsFrom? radix acc (cs.map Char.toLower) = digitsFrom? radix acc cs := by
  induction cs generalizing acc with
  | nil => rfl
  | cons c cs ih => simp only [List.map_cons, digitsFrom?, digit?_toLower, ih]

theorem digits?_toLower (radix : Nat) (cs : List Char) :
    digits? radix (cs.map Char.toLower) = digits? radix cs := by
  simp only [digits?, digitsFrom?_toLower, List.isEmpty_map]

/-! ## Signs -/

theorem toLower_eq_iff {c : Char} {d : Char} (hd : d.toNat < 65) : c.toLower = d ↔ c = d := by
  have hlower := toNat_toLower c
  rw [← Char.toNat_inj, ← Char.toNat_inj, hlower]
  split
  · omega
  · rfl

theorem signed64?_toLower (radix : Nat) (cs : List Char) :
    signed64? radix (cs.map Char.toLower) = signed64? radix cs := by
  have hminus : '-'.toLower = '-' ∧ '-'.toNat < 65 := by decide
  have hplus : '+'.toLower = '+' ∧ '+'.toNat < 65 := by decide
  rcases sign_cases cs with ⟨body, rfl⟩ | ⟨body, rfl⟩ | hu
  · simp only [List.map_cons, hminus.1, signed64?, digits?_toLower]
  · simp only [List.map_cons, hplus.1, signed64?, digits?_toLower]
  · have hlower : Unsigned (cs.map Char.toLower) := by
      cases cs with
      | nil => exact hu
      | cons c cs => simpa [Unsigned, toLower_eq_iff hminus.2, toLower_eq_iff hplus.2] using hu
    rw [signed64?_of_unsigned hu, signed64?_of_unsigned hlower, digits?_toLower]

/-! ## Marks -/

/-- A mark in front of digits, if there is one, and the radix of the digits. -/
inductive Mark : List Char → Nat → Prop where
  | none : Mark [] 10
  | hex : Mark ['0', 'x'] 16
  | hexCapital : Mark ['0', 'X'] 16
  | octal : Mark ['0', 'o'] 8
  | octalCapital : Mark ['0', 'O'] 8
  | binary : Mark ['0', 'b'] 2
  | binaryCapital : Mark ['0', 'B'] 2

theorem unsigned_of_mark {mark : List Char} {radix : Nat} (h : Mark mark radix) (hne : mark ≠ [])
    (rest : List Char) : Unsigned (mark ++ rest) := by
  cases h with
  | none => exact absurd rfl hne
  | hex | hexCapital | octal | octalCapital | binary | binaryCapital => simp [Unsigned]

def Unmarked (cs : List Char) : Prop :=
  ∀ mark radix rest, Mark mark radix → cs = mark ++ rest → mark = []

/-- The number behind the sign that is read first. -/
def body? (cs : List Char) : Option Int :=
  signed64? (radixMark (cs.map Char.toLower)).1 (radixMark (cs.map Char.toLower)).2

theorem body?_of_mark {mark : List Char} {radix : Nat} (h : Mark mark radix) (hne : mark ≠ [])
    (rest : List Char) : body? (mark ++ rest) = signed64? radix rest := by
  cases h with
  | none => exact absurd rfl hne
  | hex | hexCapital => exact signed64?_toLower 16 rest
  | octal | octalCapital => exact signed64?_toLower 8 rest
  | binary | binaryCapital => exact signed64?_toLower 2 rest

theorem mark_of_map_toLower {small : Char} (radix : Nat) {cs rest : List Char}
    (hsmall : ∀ c : Char, c.toLower = small → Mark ['0', c] radix)
    (h : cs.map Char.toLower = '0' :: small :: rest) : ¬ Unmarked cs := by
  have hzero : '0'.toNat < 65 := by decide
  obtain ⟨z, cs, rfl, hz, h⟩ := List.map_eq_cons_iff.mp h
  obtain ⟨c, cs, rfl, hc, -⟩ := List.map_eq_cons_iff.mp h
  obtain rfl := (toLower_eq_iff hzero).mp hz
  intro hunmarked
  cases hunmarked _ _ cs (hsmall c hc) rfl

theorem body?_of_unmarked {cs : List Char} (h : Unmarked cs) : body? cs = signed64? 10 cs := by
  have hcase : ∀ {c small : Char} (capital : Char), c.toLower = small →
      small.toNat = capital.toNat + 32 →
      c = small ∨ c = capital := by
    intro c small capital hc hshift
    have hlower := toNat_toLower c
    rw [hc] at hlower
    rw [← Char.toNat_inj, ← Char.toNat_inj]
    grind
  unfold body?
  generalize hl : cs.map Char.toLower = lower
  unfold radixMark
  split
  · exact absurd h (mark_of_map_toLower 16 (fun c hc =>
      (hcase 'X' hc rfl).elim (· ▸ .hex) (· ▸ .hexCapital)) hl)
  · exact absurd h (mark_of_map_toLower 8 (fun c hc =>
      (hcase 'O' hc rfl).elim (· ▸ .octal) (· ▸ .octalCapital)) hl)
  · exact absurd h (mark_of_map_toLower 2 (fun c hc =>
      (hcase 'B' hc rfl).elim (· ▸ .binary) (· ▸ .binaryCapital)) hl)
  · rw [← hl, signed64?_toLower]

theorem unmarked_of_digits? {cs : List Char} {n : Nat} (h : digits? 10 cs = some n) :
    Unmarked cs := by
  rintro mark radix rest hmark rfl
  cases hmark with
  | none => rfl
  | hex | hexCapital | octal | octalCapital | binary | binaryCapital => cases h

theorem unmarked_of_signed64? {cs : List Char} {v : Int} (h : signed64? 10 cs = some v) :
    Unmarked cs := by
  obtain ⟨sign, minus, ds, n, hsign, rfl, hn, -⟩ := signed64?_eq_some_iff.mp h
  cases hsign with
  | none => exact unmarked_of_digits? hn
  | plus | minus =>
    rintro mark radix rest hmark he
    cases hmark with
    | none => rfl
    | hex | hexCapital | octal | octalCapital | binary | binaryCapital => cases he

theorem body?_eq_some_iff {cs : List Char} {v : Int} :
    body? cs = some v ↔
      ∃ mark radix rest, Mark mark radix ∧ cs = mark ++ rest ∧ signed64? radix rest = some v := by
  constructor
  · intro h
    by_cases hu : Unmarked cs
    · exact ⟨[], 10, cs, .none, rfl, body?_of_unmarked hu ▸ h⟩
    · simp only [Unmarked, not_forall] at hu
      obtain ⟨mark, radix, rest, hmark, rfl, hne⟩ := hu
      exact ⟨mark, radix, rest, hmark, rfl, body?_of_mark hmark hne rest ▸ h⟩
  · rintro ⟨mark, radix, rest, hmark, rfl, h⟩
    by_cases hne : mark = []
    · subst hne
      cases hmark
      exact (body?_of_unmarked (unmarked_of_signed64? h)).trans h
    · exact (body?_of_mark hmark hne rest).trans h

/-! ## Literals -/

/-- An integer literal and its value. -/
inductive Literal : List Char → Int → Prop where
  | intro {sign mark ds : List Char} {minus : Bool} {radix n : Nat} :
      Sign sign minus → Mark mark radix → digits? radix ds = some n →
        Literal (sign ++ mark ++ ds) (signed minus n)

/-- A literal with one more sign in front of its digits, where something else stands before it. The
value is the one in front of which the first sign stands. -/
inductive TwiceSigned : List Char → Bool → Int → Prop where
  | intro {sign mark ds : List Char} {c : Char} {minus again : Bool} {radix n : Nat} :
      Sign sign minus → Mark mark radix → sign ++ mark ≠ [] → Sign [c] again →
        digits? radix ds = some n →
          TwiceSigned (sign ++ mark ++ c :: ds) minus (signed again n)

def least64 : Int := -0x8000000000000000

theorem fit64_of_isInt64 {v : Int} (h : IsInt64 v) : fit64 build v = .ok v := if_pos h

theorem fit64_eq_overflow_iff {v : Int} :
    fit64 build v = .error .overflow ↔ build = .checked ∧ ¬ IsInt64 v := by
  unfold fit64
  split
  · next h => simp [h]
  · next h => cases build <;> simp [h]

theorem wrap64_neg_least64 : wrap64 (-least64) = least64 := by decide

theorem isInt64_neg_iff {v : Int} (h : IsInt64 v) : IsInt64 (-v) ↔ v ≠ least64 := by
  unfold IsInt64 at h ⊢
  unfold least64
  omega

theorem isInt64_of_body? {cs : List Char} {v : Int} (h : body? cs = some v) : IsInt64 v :=
  isInt64_of_signed64? h

/-- The number that a numeral stands for if no width bounds what its first sign makes of it. -/
def exactValue? : List Char → Option Int
  | '-' :: body => (body? body).map fun v => -v
  | '+' :: body => body? body
  | body => body? body

theorem exactValue?_of_unsigned {cs : List Char} (h : Unsigned cs) : exactValue? cs = body? cs := by
  unfold exactValue?
  split
  · exact absurd rfl h.1
  · exact absurd rfl h.2
  · rfl

theorem marked64_of_unsigned {cs : List Char} (h : Unsigned cs) :
    marked64 build cs = Reading.ofOption (body? cs) := by
  unfold marked64
  split
  · exact absurd rfl h.1
  · exact absurd rfl h.2
  · rfl

/-- What is read is what stands there, made to fit. -/
theorem marked64_eq (cs : List Char) :
    marked64 build cs = (Reading.ofOption (exactValue? cs)).bind (fit64 build) := by
  have hfits : ∀ cs, Reading.ofOption (body? cs) =
      (Reading.ofOption (body? cs)).bind (fit64 build) := by
    intro cs
    cases hb : body? cs with
    | none => rfl
    | some v => exact (fit64_of_isInt64 (isInt64_of_body? hb)).symm
  rcases sign_cases cs with ⟨body, rfl⟩ | ⟨body, rfl⟩ | hu
  · change (Reading.ofOption (body? body)).bind (fun v => fit64 build (-v)) =
      (Reading.ofOption ((body? body).map fun v => -v)).bind (fit64 build)
    cases body? body <;> rfl
  · exact hfits body
  · rw [marked64_of_unsigned hu, exactValue?_of_unsigned hu]
    exact hfits cs

/-! ## What is read -/

theorem exactValue?_append {sign body : List Char} {minus : Bool} (h : Sign sign minus)
    (hu : sign = [] → Unsigned body) :
    exactValue? (sign ++ body) = (body? body).map (signed minus) := by
  have hplus : (body? body).map (signed false) = body? body := by
    cases body? body <;> rfl
  cases h with
  | none => exact (exactValue?_of_unsigned (hu rfl)).trans hplus.symm
  | plus => exact hplus.symm
  | minus => rfl

section Parts

variable {sign mark ds : List Char} {minus : Bool} {radix n : Nat}

theorem body?_append (hmark : Mark mark radix) (hn : digits? radix ds = some n) :
    body? (mark ++ ds) = int64? n := by
  have hread : signed64? radix ds = int64? n := by
    rw [signed64?_of_unsigned (unsigned_of_digits? hn), hn, Option.bind_some]
  by_cases hne : mark = []
  · subst hne
    cases hmark
    exact (body?_of_unmarked (unmarked_of_digits? hn)).trans hread
  · exact (body?_of_mark hmark hne ds).trans hread

theorem unsigned_append (hmark : Mark mark radix) (hn : digits? radix ds = some n) :
    Unsigned (mark ++ ds) := by
  by_cases hne : mark = []
  · rw [hne]
    exact unsigned_of_digits? hn
  · exact unsigned_of_mark hmark hne ds

theorem exactValue?_literal (hsign : Sign sign minus) (hmark : Mark mark radix)
    (hn : digits? radix ds = some n) :
    exactValue? (sign ++ mark ++ ds) = (int64? n).map (signed minus) := by
  rw [List.append_assoc, exactValue?_append hsign fun _ => unsigned_append hmark hn,
    body?_append hmark hn]

end Parts

theorem isInt64_natCast_iff {minus : Bool} {n : Nat} :
    IsInt64 (n : Int) ↔ least64 < signed minus n ∧ signed minus n < -least64 := by
  unfold IsInt64 least64 signed
  cases minus <;> simp <;> omega

theorem Literal.exactValue?_eq {cs : List Char} {v : Int} (h : Literal cs v) :
    exactValue? cs = if least64 < v ∧ v < -least64 then some v else none := by
  cases h with
  | @intro sign mark ds minus radix n hsign hmark hn =>
    rw [exactValue?_literal hsign hmark hn, int64?]
    simp only [@isInt64_natCast_iff minus]
    split <;> rfl

theorem TwiceSigned.exactValue?_eq {cs : List Char} {minus : Bool} {w : Int}
    (h : TwiceSigned cs minus w) (hfits : IsInt64 w) : exactValue? cs = some (signed minus w) := by
  cases h with
  | @intro sign mark ds c minus again radix n hsign hmark hne hagain hn =>
    have hread : signed64? radix (c :: ds) = some (signed again n) :=
      signed64?_eq_some_iff.mpr ⟨[c], again, ds, n, hagain, rfl, hn, rfl, hfits⟩
    have hbody : body? (mark ++ c :: ds) = some (signed again n) :=
      body?_eq_some_iff.mpr ⟨mark, radix, c :: ds, hmark, rfl, hread⟩
    rw [List.append_assoc, exactValue?_append hsign, hbody, Option.map_some]
    rintro rfl
    exact unsigned_of_mark hmark hne _

/-- What stands for a number is a literal, or has two signs. -/
theorem exactValue?_eq_some_iff {cs : List Char} {v : Int} :
    exactValue? cs = some v ↔
      (Literal cs v ∧ least64 < v ∧ v < -least64) ∨
        ∃ minus w, TwiceSigned cs minus w ∧ IsInt64 w ∧ v = signed minus w := by
  constructor
  · intro h
    obtain ⟨sign, minus, body, hsign, hu, rfl⟩ := exists_sign cs
    rw [exactValue?_append hsign hu] at h
    obtain ⟨w, hbody, rfl⟩ := Option.map_eq_some_iff.mp h
    obtain ⟨mark, radix, rest, hmark, rfl, hrest⟩ := body?_eq_some_iff.mp hbody
    obtain ⟨inner, again, ds, n, hinner, rfl, hn, rfl, hfits⟩ := signed64?_eq_some_iff.mp hrest
    rw [← List.append_assoc]
    have htwice : ∀ {c : Char}, Sign [c] again → ¬ Unsigned (c :: ds) →
        (sign = [] → Unsigned (mark ++ c :: ds)) →
          TwiceSigned (sign ++ mark ++ c :: ds) minus (signed again n) := by
      intro c hc hs hu
      refine .intro hsign hmark (fun hnil => ?_) hc hn
      obtain ⟨rfl, rfl⟩ := List.append_eq_nil_iff.mp hnil
      exact hs (hu rfl)
    cases hinner with
    | none => exact .inl ⟨.intro hsign hmark hn, isInt64_natCast_iff.mp hfits⟩
    | plus => exact .inr ⟨minus, _, htwice .plus (by simp [Unsigned]) hu, hfits, rfl⟩
    | minus => exact .inr ⟨minus, _, htwice .minus (by simp [Unsigned]) hu, hfits, rfl⟩
  · rintro (⟨hl, hrange⟩ | ⟨minus, w, ht, hfits, rfl⟩)
    · rw [hl.exactValue?_eq, if_pos hrange]
    · exact ht.exactValue?_eq hfits

theorem isInt64_signed_iff {minus : Bool} {v : Int} (h : IsInt64 v) :
    IsInt64 (signed minus v) ↔ ¬ (minus = true ∧ v = least64) := by
  cases minus with
  | false => simp [signed, h]
  | true => simp [signed, isInt64_neg_iff h]

theorem isInt64_of_between {v : Int} (h : least64 < v ∧ v < -least64) : IsInt64 v := by
  unfold least64 at h
  unfold IsInt64
  omega

/-- Only a minus in front of the least number takes a value out of the 64 bits. -/
theorem exactValue?_overflows_iff {cs : List Char} :
    (∃ v, exactValue? cs = some v ∧ ¬ IsInt64 v) ↔ TwiceSigned cs true least64 := by
  constructor
  · rintro ⟨v, h, hv⟩
    rcases exactValue?_eq_some_iff.mp h with ⟨-, hrange⟩ | ⟨minus, w, ht, hfits, rfl⟩
    · exact absurd (isInt64_of_between hrange) hv
    · obtain ⟨rfl, rfl⟩ := not_not.mp (mt (isInt64_signed_iff hfits).mpr hv)
      exact ht
  · intro h
    exact ⟨-least64, h.exactValue?_eq (by decide), by decide⟩

theorem Literal.unsigned {cs : List Char} {v : Int} (h : Literal ('-' :: cs) v) : Unsigned cs := by
  generalize hs : '-' :: cs = all at h
  cases h with
  | intro hsign hmark hn =>
    have hu := unsigned_append hmark hn
    cases hsign with
    | none =>
      rw [List.nil_append] at hs
      exact absurd (hs ▸ rfl) hu.1
    | plus => cases hs
    | minus =>
      obtain ⟨-, rfl⟩ := List.cons.inj hs
      exact hu

theorem literal_signedDigits (v : Int) : Literal (signedDigits 10 v) v := by
  obtain ⟨sign, minus, hsign, hdigits, hvalue⟩ := exists_sign_signedDigits 10 v
  have hread : digits? 10 (digits 10 v.natAbs) = some v.natAbs :=
    digits?_digits (by decide) (by decide) _
  have h := Literal.intro hsign .none hread
  rwa [List.append_nil, ← hdigits, hvalue] at h

theorem literal_of_exactValue? {text : String} {v : Int}
    (h : exactValue? (Text.trim text.toList) = some v) : literal build text = fit64 build v := by
  rw [literal, marked64_eq, h]
  rfl

theorem literal_of_isInt64 {text : String} {v : Int}
    (h : exactValue? (Text.trim text.toList) = some v) (hfits : IsInt64 v) :
    literal build text = .ok v := (literal_of_exactValue? h).trans (fit64_of_isInt64 hfits)

theorem literal_of_no_value {text : String} (h : exactValue? (Text.trim text.toList) = none) :
    literal build text = .error .refused := by
  rw [literal, marked64_eq, h]
  rfl

theorem literal_eq_ok_iff {text : String} {v : Int} :
    literal build text = .ok v ↔
      ∃ u, exactValue? (Text.trim text.toList) = some u ∧ fit64 build u = .ok v := by
  cases hu : exactValue? (Text.trim text.toList) with
  | none => simp [literal_of_no_value hu]
  | some u => simp [literal_of_exactValue? hu]

theorem literal_eq_overflow_iff {text : String} :
    literal build text = .error .overflow ↔
      build = .checked ∧ TwiceSigned (Text.trim text.toList) true least64 := by
  rw [← exactValue?_overflows_iff]
  cases hu : exactValue? (Text.trim text.toList) with
  | none => simp [literal_of_no_value hu]
  | some u => simp [literal_of_exactValue? hu, fit64_eq_overflow_iff]

/-- A literal of one sign at most is read as its value unless that is out of 64 bits or the least
number. All else that is read has two signs, and a first minus is applied to a number that fits. A
checked build stops where the result does not. -/
theorem literals_read (build : Build) (text : String) (v : Int) :
    (Literal (Text.trim text.toList) v →
      literal build text = if IsInt64 v ∧ v ≠ least64 then .ok v else .error .refused) ∧
    (literal build text = .ok v ↔
      (Literal (Text.trim text.toList) v ∧ IsInt64 v ∧ v ≠ least64) ∨
        ∃ minus w, TwiceSigned (Text.trim text.toList) minus w ∧ IsInt64 w ∧
          fit64 build (signed minus w) = .ok v) ∧
    (literal build text = .error .overflow ↔
      build = .checked ∧ TwiceSigned (Text.trim text.toList) true least64) ∧
    (IsInt64 v →
      literal build (intText v) = if v = least64 then .error .refused else .ok v) := by
  have hbetween : ∀ v, IsInt64 v ∧ v ≠ least64 ↔ least64 < v ∧ v < -least64 := by
    intro v
    unfold IsInt64 least64
    omega
  have hliteral : ∀ text v, Literal (Text.trim text.toList) v →
      literal build text = if IsInt64 v ∧ v ≠ least64 then .ok v else .error .refused := by
    intro text v h
    have hexact := h.exactValue?_eq
    simp only [hbetween]
    split
    · next hrange =>
      rw [if_pos hrange] at hexact
      exact literal_of_isInt64 hexact (isInt64_of_between hrange)
    · next hrange =>
      rw [if_neg hrange] at hexact
      exact literal_of_no_value hexact
  refine ⟨hliteral text v, ?_, literal_eq_overflow_iff, fun hv => ?_⟩
  · simp only [literal_eq_ok_iff, exactValue?_eq_some_iff, hbetween]
    constructor
    · rintro ⟨u, ⟨hl, hrange⟩ | ⟨minus, w, ht, hfits, rfl⟩, hread⟩
      · rw [fit64_of_isInt64 (isInt64_of_between hrange)] at hread
        cases hread
        exact .inl ⟨hl, hrange⟩
      · exact .inr ⟨minus, w, ht, hfits, hread⟩
    · rintro (⟨hl, hrange⟩ | ⟨minus, w, ht, hfits, hread⟩)
      · exact ⟨v, .inl ⟨hl, hrange⟩, fit64_of_isInt64 (isInt64_of_between hrange)⟩
      · exact ⟨_, .inr ⟨minus, w, ht, hfits, rfl⟩, hread⟩
  · have hl : Literal (Text.trim (intText v).toList) v := by
      rw [trim_intText]
      exact literal_signedDigits v
    simp only [hliteral _ v hl, hv, true_and, ne_eq, ite_not]

/-- Marks in either case, blanks and leading zeros, and the two ends of the 64 bits. -/
theorem literals_read_samples :
    Literal (Text.trim " -0X007f\n".toList) (-127) ∧
      literal .checked " -0X007f\n" = .ok (-127) ∧ literal .release "0b101" = .ok 5 ∧
        IsInt64 0x7fffffffffffffff ∧
          literal .checked (intText 0x7fffffffffffffff) = .ok 0x7fffffffffffffff := by
  have hhex : Literal (Text.trim " -0X007f\n".toList) (-127) :=
    .intro .minus .hexCapital (n := 127) (by decide)
  have hbinary : Literal (Text.trim "0b101".toList) 5 := .intro .none .binary (n := 5) (by decide)
  obtain ⟨-, -, -, hgreatest⟩ := literals_read .checked "" 0x7fffffffffffffff
  exact ⟨hhex, (literals_read _ _ _).1 hhex, (literals_read _ _ _).1 hbinary, by decide,
    hgreatest (by decide)⟩

/-- The least number is not read from its text, and two signs are read as if they cancelled out. -/
theorem literals_misread :
    (IsInt64 least64 ∧ Literal (Text.trim (intText least64).toList) least64 ∧
        ∀ build, literal build (intText least64) = .error .refused) ∧
      (∀ build, literal build "--5" = .ok 5) ∧ ∀ v, ¬ Literal (Text.trim "--5".toList) v := by
  refine ⟨⟨by decide, ?_, fun _ => literal_of_no_value (by decide)⟩,
    fun _ => literal_of_isInt64 (by decide) (by decide), fun v h => ?_⟩
  · rw [trim_intText]
    exact literal_signedDigits least64
  · have htrim : Text.trim "--5".toList = '-' :: ['-', '5'] := by decide
    rw [htrim] at h
    exact h.unsigned.1 rfl

end MakeConfig.Numeral
