import MakeConfig.Item.Value
import MakeConfig.Proofs.Numeral.Digits
import MakeConfig.Proofs.Text.Lines

/-! # Canonical values

What a kind accepts becomes the text of a value of that kind, and this text is accepted as it stands,
with one exception: a choice is given by an index, and its text is the option that the index stands
for.
-/

namespace MakeConfig

namespace Numeral

theorem trim_natText (n : Nat) : Text.trim (natText n).toList = digits 10 n := by
  rw [natText, String.toList_ofList]
  exact Text.trim_of_no_blank fun c hc => isBlank_of_mem_digits (by decide) (by decide) hc

theorem trim_intText (v : Int) : Text.trim (intText v).toList = signedDigits 10 v := by
  rw [intText, String.toList_ofList]
  refine Text.trim_of_no_blank fun c hc => ?_
  obtain ⟨sign, minus, hsign, hdigits, -⟩ := exists_sign_signedDigits 10 v
  rw [hdigits] at hc
  rcases List.mem_append.mp hc with hc | hc
  · exact isBlank_of_sign hsign hc
  · exact isBlank_of_mem_digits (by decide) (by decide) hc

end Numeral

/-- A number lies within the bounds of a range, if there is one. -/
def InRange {α : Type} [LE α] (range : Option (α × α)) (v : α) : Prop :=
  ∀ min max, range = some (min, max) → min ≤ v ∧ v ≤ max

namespace Kind

open Numeral

/-- A text is the canonical one of a value. An option that is listed twice counts as the first. -/
inductive Spells : Kind → String → Value → Prop where
  | bool (b : Bool) : Spells .bool (yesNo b) (.bool b)
  | tristate {text : String} {t : Tristate} :
      Tristate.ofText? text = some t → Spells .tristate text (.tristate t)
  | choice {options : List String} {option : String} {i : Nat} :
      options[i]? = some option → (∀ j < i, options[j]? ≠ some option) →
        Spells (.choice options) option (.choice i option)
  | hex {range : Option (Nat × Nat)} {text : String} {ds : List Char} {v : Nat} :
      hexDigits? text.toList = some ds → digits? 16 ds = some v → v < wordBound →
        InRange range v → Spells (.hex range) text (.hex v text)
  | integer {range : Option (Int × Int)} {v : Int} :
      IsInt64 v → InRange range v → Spells (.integer range) (intText v) (.integer v)
  | text {s : String} : s ≠ "" → Spells .text s (.text s)

/-! ## Choices -/

theorem acceptIndex_eq_ok_iff {options : List String} {raw option : String} :
    acceptIndex options raw = .ok option ↔
      ∃ i, natural? wordBound 10 (Text.trim raw.toList) = some i ∧ options[i]? = some option := by
  unfold acceptIndex
  cases natural? wordBound 10 (Text.trim raw.toList) with
  | none => simp
  | some i => cases ho : options[i]? <;> simp [ho]

theorem findIdx?_eq_some_iff {options : List String} {option : String} {i : Nat} :
    options.findIdx? (· == option) = some i ↔
      options[i]? = some option ∧ ∀ j < i, options[j]? ≠ some option := by
  rw [List.findIdx?_eq_some_iff_getElem]
  constructor
  · rintro ⟨hi, hoption, hfirst⟩
    refine ⟨List.getElem?_eq_some_iff.mpr ⟨hi, beq_iff_eq.mp hoption⟩, fun j hj ho => ?_⟩
    obtain ⟨hlt, ho⟩ := List.getElem?_eq_some_iff.mp ho
    exact hfirst j hj (beq_iff_eq.mpr ho)
  · rintro ⟨ho, hfirst⟩
    obtain ⟨hi, hoption⟩ := List.getElem?_eq_some_iff.mp ho
    refine ⟨hi, beq_iff_eq.mpr hoption, fun j hj hsame => hfirst j hj ?_⟩
    exact List.getElem?_eq_some_iff.mpr ⟨Nat.lt_trans hj hi, beq_iff_eq.mp hsame⟩

theorem acceptIndex_natText {options : List String} {raw option : String}
    (h : acceptIndex options raw = .ok option) :
    ∃ i, options.findIdx? (· == option) = some i ∧
      acceptIndex options (natText i) = .ok option := by
  obtain ⟨j, hj, ho⟩ := acceptIndex_eq_ok_iff.mp h
  cases hi : options.findIdx? (· == option) with
  | none =>
    have hnone := List.findIdx?_eq_none_iff.mp hi option (List.mem_of_getElem? ho)
    simp at hnone
  | some i =>
    obtain ⟨hoption, hfirst⟩ := findIdx?_eq_some_iff.mp hi
    have hle : i ≤ j := Nat.le_of_not_lt fun hji => hfirst j hji ho
    refine ⟨i, rfl, acceptIndex_eq_ok_iff.mpr ⟨i, ?_, hoption⟩⟩
    rw [trim_natText]
    exact natural?_digits (Nat.lt_of_le_of_lt hle (lt_of_natural? hj))

/-! ## Numbers in ranges -/

theorem inRange_none {α : Type} [LE α] (v : α) : InRange none v := by
  rintro min max ⟨⟩

theorem inRange_some {α : Type} [LE α] {min max v : α} :
    InRange (some (min, max)) v ↔ min ≤ v ∧ v ≤ max := by
  constructor
  · intro h
    exact h min max rfl
  · rintro h _ _ ⟨rfl, rfl⟩
    exact h

theorem acceptInteger_eq_ok_iff {range : Option (Int × Int)} {raw text : String} :
    acceptInteger range raw = .ok text ↔
      ∃ v, signed64? 10 (Text.trim raw.toList) = some v ∧ InRange range v ∧ text = intText v := by
  unfold acceptInteger
  cases signed64? 10 (Text.trim raw.toList) with
  | none => simp
  | some v =>
    rcases range with _ | ⟨min, max⟩
    · simp [inRange_none, eq_comm]
    · by_cases hv : min ≤ v ∧ v ≤ max
      · simp [inRange_some, hv, eq_comm]
      · simp [inRange_some, hv]

theorem acceptHex_eq_ok_iff {range : Option (Nat × Nat)} {raw text : String} :
    acceptHex range raw = .ok text ↔
      ∃ ds v, hexDigits? raw.toList = some ds ∧ digits? 16 ds = some v ∧ v < wordBound ∧
        InRange range v ∧ text = raw := by
  unfold acceptHex
  cases hexDigits? raw.toList with
  | none => simp
  | some ds =>
    cases hd : digits? 16 ds with
    | none => simp [hd]
    | some v =>
      by_cases hw : v < wordBound
      · rcases range with _ | ⟨min, max⟩
        · simp [hd, within?, hw, inRange_none, eq_comm]
        · by_cases hv : min ≤ v ∧ v ≤ max
          · simp [hd, within?, hw, inRange_some, hv, eq_comm]
          · simp [hd, within?, hw, inRange_some, hv]
      · simp [hd, within?, hw]

/-! ## Accepted texts -/

/-- What is accepted becomes the text of a value. -/
theorem spells_of_accept {kind : Kind} {raw text : String} (h : kind.accept raw = .ok text) :
    ∃ value, kind.Spells text value := by
  cases kind with
  | bool =>
    simp only [accept] at h
    split at h
    · next hraw =>
      cases h
      rcases hraw with rfl | rfl
      · exact ⟨_, .bool true⟩
      · exact ⟨_, .bool false⟩
    · cases h
  | tristate =>
    simp only [accept] at h
    split at h
    · next hraw =>
      cases h
      rcases hraw with rfl | rfl | rfl
      · exact ⟨_, .tristate rfl⟩
      · exact ⟨_, .tristate rfl⟩
      · exact ⟨_, .tristate rfl⟩
    · cases h
  | choice options =>
    obtain ⟨i, hi, -⟩ := acceptIndex_natText h
    obtain ⟨hoption, hfirst⟩ := findIdx?_eq_some_iff.mp hi
    exact ⟨_, .choice hoption hfirst⟩
  | hex range =>
    obtain ⟨ds, v, hds, hd, hw, hrange, rfl⟩ := acceptHex_eq_ok_iff.mp h
    exact ⟨_, .hex hds hd hw hrange⟩
  | integer range =>
    obtain ⟨v, hv, hrange, rfl⟩ := acceptInteger_eq_ok_iff.mp h
    exact ⟨_, .integer (isInt64_of_signed64? hv) hrange⟩
  | text =>
    simp only [accept] at h
    split at h
    · cases h
    · next hraw =>
      cases h
      exact ⟨_, .text hraw⟩

theorem Spells.accept {kind : Kind} {text : String} {value : Value} (h : kind.Spells text value)
    (hc : ∀ options, kind ≠ .choice options) : kind.accept text = .ok text := by
  cases h with
  | bool b => cases b <;> rfl
  | @tristate _ t ht =>
    unfold Tristate.ofText? at ht
    split at ht <;> first | rfl | cases ht
  | choice => exact absurd rfl (hc _)
  | hex hds hd hw hrange => exact acceptHex_eq_ok_iff.mpr ⟨_, _, hds, hd, hw, hrange, rfl⟩
  | integer hfits hrange =>
    refine acceptInteger_eq_ok_iff.mpr ⟨_, ?_, hrange, rfl⟩
    rw [trim_intText]
    exact signed64?_signedDigits hfits
  | text hs => exact if_neg hs

/-- What comes of a value is accepted as it stands, unless it is an option. -/
theorem accept_of_accepted {kind : Kind} {raw value : String} (h : kind.accept raw = .ok value)
    (hc : ∀ options, kind ≠ .choice options) : kind.accept value = .ok value := by
  obtain ⟨v, hv⟩ := spells_of_accept h
  exact hv.accept hc

theorem accept_empty (kind : Kind) : ∃ reason, kind.accept "" = .error reason := by
  cases kind <;> exact ⟨_, rfl⟩

end Kind

theorem Item.validate_eq_ok_iff {item : Item} {raw value : String} :
    item.validate raw = .ok value ↔ item.kind.accept raw = .ok value := by
  unfold validate
  cases item.kind.accept raw <;> simp

end MakeConfig
