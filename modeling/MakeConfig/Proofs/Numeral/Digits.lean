import MakeConfig.Numeral.Integer

/-! # Digits and signs

The value of a digit does not depend on the radix. What is written in a radix is read back as the
same number, and a numeral is a sign, if need be, in front of digits.
-/

namespace MakeConfig.Numeral

/-! ## Digits -/

theorem digit?_of_le {radix radix' d : Nat} {c : Char} (h : digit? radix c = some d)
    (hle : radix ≤ radix') : digit? radix' c = some d := by
  unfold digit? at h ⊢
  dsimp only at h ⊢
  grind

theorem lt_of_digit? {radix d : Nat} {c : Char} (h : digit? radix c = some d) : d < radix := by
  unfold digit? at h
  dsimp only at h
  grind

theorem digit?_of_lt {radix radix' d : Nat} {c : Char} (h : digit? radix c = some d)
    (hd : d < radix') : digit? radix' c = some d := by
  unfold digit? at h ⊢
  dsimp only at h ⊢
  grind

theorem digit?_digitChar {radix d : Nat} (hle : radix ≤ 16) (hd : d < radix) :
    digit? radix (Nat.digitChar d) = some d := by
  have hall : ∀ d < 16, digit? 16 (Nat.digitChar d) = some d := by decide
  exact digit?_of_lt (hall d (Nat.lt_of_lt_of_le hd hle)) hd

theorem bounds_of_digit? {radix d : Nat} {c : Char} (h : digit? radix c = some d) :
    48 ≤ c.toNat ∧ c.toNat ≤ 102 := by
  have hle : ∀ a b : Char, a ≤ b ↔ a.toNat ≤ b.toNat := fun _ _ => Iff.rfl
  have hcodes : '0'.toNat = 48 ∧ '9'.toNat = 57 ∧ 'a'.toNat = 97 ∧ 'f'.toNat = 102 ∧
      'A'.toNat = 65 ∧ 'F'.toNat = 70 := by decide
  obtain ⟨h0, h9, ha, hf, hA, hF⟩ := hcodes
  unfold digit? at h
  simp only [hle, h0, h9, ha, hf, hA, hF] at h
  grind

theorem isBlank_of_digit? {radix d : Nat} {c : Char} (h : digit? radix c = some d) :
    Text.isBlank c = false := by
  have hbounds := bounds_of_digit? h
  simp only [Text.isBlank, Bool.or_eq_false_iff, Bool.and_eq_false_iff, decide_eq_false_iff_not,
    beq_eq_false_iff_ne]
  omega

theorem digitsFrom?_append (radix acc : Nat) (cs ds : List Char) :
    digitsFrom? radix acc (cs ++ ds) =
      (digitsFrom? radix acc cs).bind fun acc => digitsFrom? radix acc ds := by
  induction cs generalizing acc with
  | nil => rfl
  | cons c cs ih =>
    simp only [List.cons_append, digitsFrom?, ih, Option.bind_assoc]

theorem digit?_of_mem_digitsFrom? {radix acc n : Nat} {cs : List Char}
    (h : digitsFrom? radix acc cs = some n) {c : Char} (hc : c ∈ cs) :
    ∃ d, digit? radix c = some d := by
  induction cs generalizing acc with
  | nil => cases hc
  | cons b cs ih =>
    obtain ⟨d, hd, hrest⟩ := Option.bind_eq_some_iff.mp h
    rcases List.mem_cons.mp hc with rfl | hc
    · exact ⟨d, hd⟩
    · exact ih hrest hc

theorem digits?_eq_some_iff {radix n : Nat} {cs : List Char} :
    digits? radix cs = some n ↔ cs ≠ [] ∧ digitsFrom? radix 0 cs = some n := by
  cases cs <;> simp [digits?]

theorem digit?_of_mem {radix n : Nat} {cs : List Char} (h : digits? radix cs = some n) {c : Char}
    (hc : c ∈ cs) : ∃ d, digit? radix c = some d :=
  digit?_of_mem_digitsFrom? (digits?_eq_some_iff.mp h).2 hc

section Written

variable {radix : Nat} (hr : 1 < radix)

include hr

theorem digitChar_of_mem_digits {n : Nat} {c : Char} (h : c ∈ digits radix n) :
    ∃ d < radix, c = Nat.digitChar d := by
  induction n using Nat.strongRecOn with
  | ind n ih =>
    rw [digits, Nat.toDigits_eq_if hr] at h
    split at h
    · next hn => exact ⟨n, hn, List.mem_singleton.mp h⟩
    · rcases List.mem_append.mp h with h | h
      · exact ih (n / radix) (Nat.div_lt_self (by omega) hr) h
      · exact ⟨n % radix, Nat.mod_lt n (by omega), List.mem_singleton.mp h⟩

theorem digitsFrom?_digits (hle : radix ≤ 16) (n : Nat) :
    digitsFrom? radix 0 (digits radix n) = some n := by
  induction n using Nat.strongRecOn with
  | ind n ih =>
    rw [digits, Nat.toDigits_eq_if hr]
    split
    · next hn => simp [digitsFrom?, digit?_digitChar hle hn]
    · next hn =>
      have hlast : digit? radix (Nat.digitChar (n % radix)) = some (n % radix) :=
        digit?_digitChar hle (Nat.mod_lt n (by omega))
      have hrest := ih (n / radix) (Nat.div_lt_self (by omega) hr)
      unfold digits at hrest
      rw [digitsFrom?_append, hrest]
      simp only [Option.bind_some, digitsFrom?, hlast, Nat.div_add_mod']

/-- What is written is read back. -/
theorem digits?_digits (hle : radix ≤ 16) (n : Nat) : digits? radix (digits radix n) = some n :=
  digits?_eq_some_iff.mpr ⟨Nat.toDigits_ne_nil, digitsFrom?_digits hr hle n⟩

theorem isBlank_of_mem_digits (hle : radix ≤ 16) {n : Nat} {c : Char} (h : c ∈ digits radix n) :
    Text.isBlank c = false := by
  obtain ⟨d, hd⟩ := digit?_of_mem (digits?_digits hr hle n) h
  exact isBlank_of_digit? hd

end Written

/-! ## Two radices -/

section TwoRadices

variable {radix radix' a b m n : Nat} {cs : List Char}

theorem le_of_digitsFrom? (hr : 0 < radix) (h : digitsFrom? radix a cs = some m) : a ≤ m := by
  induction cs generalizing a with
  | nil =>
    cases h
    exact Nat.le_refl _
  | cons c cs ih =>
    obtain ⟨d, -, hrest⟩ := Option.bind_eq_some_iff.mp h
    have hstep : a ≤ a * radix := Nat.le_mul_of_pos_right a hr
    exact Nat.le_trans (by omega) (ih hrest)

theorem digitsFrom?_lt (hr : 0 < radix) (hle : radix ≤ radix') (hab : a < b)
    (hm : digitsFrom? radix a cs = some m) (hn : digitsFrom? radix' b cs = some n) : m < n := by
  induction cs generalizing a b with
  | nil =>
    cases hm
    cases hn
    exact hab
  | cons c cs ih =>
    obtain ⟨d, hd, hm⟩ := Option.bind_eq_some_iff.mp hm
    obtain ⟨d', hd', hn⟩ := Option.bind_eq_some_iff.mp hn
    obtain rfl : d = d' := Option.some.inj ((digit?_of_le hd hle).symm.trans hd')
    have hstep : a * radix < b * radix' :=
      Nat.lt_of_lt_of_le (Nat.mul_lt_mul_of_pos_right hab hr) (Nat.mul_le_mul_left b hle)
    exact ih (by omega) hm hn

/-- The same digits stand for the same number in two radices only if it is below both. -/
theorem digitsFrom?_cases (hr : 0 < radix) (hlt : radix < radix')
    (hm : digitsFrom? radix 0 cs = some m) (hn : digitsFrom? radix' 0 cs = some n) :
    (m = n ∧ m < radix) ∨ (radix ≤ m ∧ m < n) := by
  induction cs with
  | nil =>
    cases hm
    cases hn
    exact .inl ⟨rfl, hr⟩
  | cons c cs ih =>
    obtain ⟨d, hd, hm⟩ := Option.bind_eq_some_iff.mp hm
    obtain ⟨d', hd', hn⟩ := Option.bind_eq_some_iff.mp hn
    obtain rfl : d = d' := Option.some.inj ((digit?_of_le hd (Nat.le_of_lt hlt)).symm.trans hd')
    rw [Nat.zero_mul, Nat.zero_add] at hm hn
    cases d with
    | zero => exact ih hm hn
    | succ d =>
      cases cs with
      | nil =>
        cases hm
        cases hn
        exact .inl ⟨rfl, lt_of_digit? hd⟩
      | cons c cs =>
        obtain ⟨e, he, hm⟩ := Option.bind_eq_some_iff.mp hm
        obtain ⟨e', he', hn⟩ := Option.bind_eq_some_iff.mp hn
        obtain rfl : e = e' := Option.some.inj ((digit?_of_le he (Nat.le_of_lt hlt)).symm.trans he')
        have hone : radix ≤ (d + 1) * radix := Nat.le_mul_of_pos_left radix d.succ_pos
        have hless : (d + 1) * radix < (d + 1) * radix' := Nat.mul_lt_mul_of_pos_left hlt d.succ_pos
        exact .inr ⟨Nat.le_trans (by omega) (le_of_digitsFrom? hr hm),
          digitsFrom?_lt hr (Nat.le_of_lt hlt) (by omega) hm hn⟩

end TwoRadices

/-! ## Signs -/

/-- A sign in front of a numeral, if there is one, and whether it is a minus. -/
inductive Sign : List Char → Bool → Prop where
  | none : Sign [] false
  | plus : Sign ['+'] false
  | minus : Sign ['-'] true

theorem isBlank_of_sign {sign : List Char} {minus : Bool} (h : Sign sign minus) {c : Char}
    (hc : c ∈ sign) : Text.isBlank c = false := by
  cases h with
  | none => cases hc
  | plus | minus =>
    cases List.mem_singleton.mp hc
    rfl

def signed (minus : Bool) (v : Int) : Int := if minus then -v else v

def Unsigned (cs : List Char) : Prop := cs.head? ≠ some '-' ∧ cs.head? ≠ some '+'

theorem sign_cases (cs : List Char) :
    (∃ body, cs = '-' :: body) ∨ (∃ body, cs = '+' :: body) ∨ Unsigned cs := by
  cases cs with
  | nil => exact .inr (.inr (by simp [Unsigned]))
  | cons c body =>
    by_cases hminus : c = '-'
    · exact .inl ⟨body, by rw [hminus]⟩
    by_cases hplus : c = '+'
    · exact .inr (.inl ⟨body, by rw [hplus]⟩)
    · exact .inr (.inr (by simp [Unsigned, hminus, hplus]))

theorem exists_sign (cs : List Char) :
    ∃ sign minus body, Sign sign minus ∧ (sign = [] → Unsigned body) ∧ cs = sign ++ body := by
  rcases sign_cases cs with ⟨body, rfl⟩ | ⟨body, rfl⟩ | hu
  · exact ⟨['-'], true, body, .minus, by simp, rfl⟩
  · exact ⟨['+'], false, body, .plus, by simp, rfl⟩
  · exact ⟨[], false, cs, .none, fun _ => hu, rfl⟩

theorem unsigned_of_digit? {radix d : Nat} {c : Char} (h : digit? radix c = some d)
    (cs : List Char) : Unsigned (c :: cs) := by
  have hminus : digit? radix '-' = Option.none := by simp [digit?]
  have hplus : digit? radix '+' = Option.none := by simp [digit?]
  constructor
  · rintro ⟨rfl⟩
    cases hminus.symm.trans h
  · rintro ⟨rfl⟩
    cases hplus.symm.trans h

theorem unsigned_of_digits? {radix n : Nat} {cs : List Char} (h : digits? radix cs = some n) :
    Unsigned cs := by
  cases cs with
  | nil => cases h
  | cons c cs =>
    obtain ⟨d, hd⟩ := digit?_of_mem h List.mem_cons_self
    exact unsigned_of_digit? hd cs

/-! ## Numbers of a width -/

theorem signed64?_of_unsigned {radix : Nat} {cs : List Char} (h : Unsigned cs) :
    signed64? radix cs = (digits? radix cs).bind fun n => int64? n := by
  unfold signed64?
  split
  · exact absurd rfl h.1
  · exact absurd rfl h.2
  · rfl

theorem signed64?_append {radix : Nat} {sign ds : List Char} {minus : Bool} (h : Sign sign minus)
    (hu : sign = [] → Unsigned ds) :
    signed64? radix (sign ++ ds) = (digits? radix ds).bind fun n => int64? (signed minus n) := by
  cases h with
  | none => exact signed64?_of_unsigned (hu rfl)
  | plus => rfl
  | minus => rfl

theorem int64?_eq_some_iff {v w : Int} : int64? v = some w ↔ w = v ∧ IsInt64 v := by
  unfold int64?
  grind

theorem signed64?_eq_some_iff {radix : Nat} {cs : List Char} {v : Int} :
    signed64? radix cs = some v ↔ ∃ sign minus ds n, Sign sign minus ∧ cs = sign ++ ds ∧
      digits? radix ds = some n ∧ v = signed minus n ∧ IsInt64 v := by
  constructor
  · intro h
    obtain ⟨sign, minus, ds, hsign, hu, rfl⟩ := exists_sign cs
    rw [signed64?_append hsign hu, Option.bind_eq_some_iff] at h
    obtain ⟨n, hn, hv⟩ := h
    obtain ⟨rfl, hfits⟩ := int64?_eq_some_iff.mp hv
    exact ⟨sign, minus, ds, n, hsign, rfl, hn, rfl, hfits⟩
  · rintro ⟨sign, minus, ds, n, hsign, rfl, hn, rfl, hfits⟩
    rw [signed64?_append hsign fun _ => unsigned_of_digits? hn, hn, Option.bind_some]
    exact int64?_eq_some_iff.mpr ⟨rfl, hfits⟩

theorem isInt64_of_signed64? {radix : Nat} {cs : List Char} {v : Int}
    (h : signed64? radix cs = some v) : IsInt64 v := by
  obtain ⟨-, -, -, -, -, -, -, -, hfits⟩ := signed64?_eq_some_iff.mp h
  exact hfits

theorem exists_sign_signedDigits (radix : Nat) (v : Int) :
    ∃ sign minus, Sign sign minus ∧ signedDigits radix v = sign ++ digits radix v.natAbs ∧
      signed minus v.natAbs = v := by
  unfold signedDigits
  split
  · next hv =>
    refine ⟨['-'], true, .minus, rfl, ?_⟩
    simp only [signed, if_true]
    omega
  · next hv =>
    refine ⟨[], false, .none, rfl, ?_⟩
    simp only [signed, Bool.false_eq_true, if_false]
    omega

theorem signed64?_signedDigits {v : Int} (h : IsInt64 v) :
    signed64? 10 (signedDigits 10 v) = some v := by
  obtain ⟨sign, minus, hsign, hdigits, hvalue⟩ := exists_sign_signedDigits 10 v
  have hread : digits? 10 (digits 10 v.natAbs) = some v.natAbs :=
    digits?_digits (by decide) (by decide) _
  exact signed64?_eq_some_iff.mpr ⟨sign, minus, _, _, hsign, hdigits, hread, hvalue.symm, h⟩

theorem natural?_append {bound radix : Nat} {sign ds : List Char} (h : Sign sign false)
    (hu : sign = [] → Unsigned ds) :
    natural? bound radix (sign ++ ds) = (digits? radix ds).bind (within? bound) := by
  cases h with
  | none =>
    rw [List.nil_append]
    unfold natural?
    split
    · exact absurd rfl (hu rfl).2
    · rfl
  | plus => rfl

theorem within?_eq_some_iff {bound m n : Nat} : within? bound m = some n ↔ n = m ∧ m < bound := by
  unfold within?
  grind

theorem natural?_eq_some_iff {bound radix n : Nat} {cs : List Char} :
    natural? bound radix cs = some n ↔
      ∃ sign ds, Sign sign false ∧ cs = sign ++ ds ∧ digits? radix ds = some n ∧ n < bound := by
  constructor
  · intro h
    rcases sign_cases cs with ⟨body, rfl⟩ | ⟨body, rfl⟩ | hu
    · obtain ⟨m, hm, -⟩ := Option.bind_eq_some_iff.mp h
      exact absurd rfl (unsigned_of_digits? hm).1
    · obtain ⟨m, hm, hn⟩ := Option.bind_eq_some_iff.mp h
      obtain ⟨rfl, hlt⟩ := within?_eq_some_iff.mp hn
      exact ⟨['+'], body, .plus, rfl, hm, hlt⟩
    · rw [← List.nil_append cs, natural?_append .none fun _ => hu, Option.bind_eq_some_iff] at h
      obtain ⟨m, hm, hn⟩ := h
      obtain ⟨rfl, hlt⟩ := within?_eq_some_iff.mp hn
      exact ⟨[], cs, .none, rfl, hm, hlt⟩
  · rintro ⟨sign, ds, hsign, rfl, hn, hlt⟩
    rw [natural?_append hsign fun _ => unsigned_of_digits? hn, hn, Option.bind_some]
    exact within?_eq_some_iff.mpr ⟨rfl, hlt⟩

theorem natural?_digits {bound n : Nat} (h : n < bound) :
    natural? bound 10 (digits 10 n) = some n :=
  natural?_eq_some_iff.mpr ⟨[], _, .none, rfl, digits?_digits (by decide) (by decide) n, h⟩

theorem lt_of_natural? {bound radix n : Nat} {cs : List Char}
    (h : natural? bound radix cs = some n) : n < bound := by
  obtain ⟨-, -, -, -, -, hlt⟩ := natural?_eq_some_iff.mp h
  exact hlt

end MakeConfig.Numeral
