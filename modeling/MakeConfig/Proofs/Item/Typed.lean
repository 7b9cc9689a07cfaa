import MakeConfig.Proofs.Item.Canonical
import MakeConfig.Proofs.Lists
import MakeConfig.Proofs.Numeral.Literal

/-! # Items with values of their kinds

A value that the user gave came through the check of its kind, and so does a default that counts.
So the value in force has a type, and a conversion of it fails for one reason only: a visible text
is to be read as a number and is none. Where one takes a number out of its width, a checked build stops.
-/

namespace MakeConfig

open Numeral

/-- No number comes of reading the text. -/
def Conversion.Misreads (build : Build) (why : Unread) : Conversion → String → Prop
  | integer, s => literal build s = .error why
  | hex, s => Value.readHex? s.toList = none ∧ why = .refused
  | _, _ => False

theorem Value.convert_eq_error_iff {build : Build} {visible : Bool} {target : Conversion}
    {value : Value} {why : Unread} :
    value.convert build visible target = .error why ↔
      visible = true ∧ ∃ text, value = .text text ∧ target.Misreads build why text := by
  cases value with
  | text s =>
    cases visible
    · cases target <;> simp [convert, ofText]
    · cases target <;> simp [convert, ofText, Conversion.Misreads, Reading.map_eq_error_iff,
        Reading.ofOption_eq_error_iff]
  | bool b => simp [convert]
  | tristate t => simp [convert]
  | choice index option => simp [convert]
  | hex value spelling => simp [convert]
  | integer value => simp [convert]

theorem Kind.Spells.of_text {kind : Kind} {text s : String} (h : kind.Spells text (.text s)) :
    kind = .text ∧ s = text := by
  cases h
  exact ⟨rfl, rfl⟩

theorem Kind.Spells.eq_text {text : String} {value : Value} (h : Kind.text.Spells text value) :
    value = .text text := by
  cases h
  rfl

namespace Item

variable {item : Item} {text : String} {value : Value}

theorem natural?_of_hexDigits? {cs ds : List Char} (h : Kind.hexDigits? cs = some ds)
    (bound : Nat) : natural? bound 16 (cs.drop 2) = (digits? 16 ds).bind (within? bound) := by
  unfold Kind.hexDigits? at h
  split at h
  · split at h
    · next hd =>
      cases h
      change natural? bound 16 ds = _
      unfold natural?
      split
      · next after =>
        have hplus : isHexDigit '+' = false := by decide
        have hall : ('+' :: after).all isHexDigit = true := hd.2
        rw [List.all_cons, hplus, Bool.false_and] at hall
        cases hall
      · rfl
    · cases h
  · cases h

theorem valueOf?_of_spells (h : item.kind.Spells text value) :
    item.valueOf? text = some value := by
  generalize hk : item.kind = kind at h
  unfold valueOf?
  cases h with
  | bool b => cases b <;> simp [hk, yesNo]
  | tristate ht => simp [hk, ht]
  | choice hoption hfirst =>
    have hindex := Kind.findIdx?_eq_some_iff.mpr ⟨hoption, hfirst⟩
    simp [hk, optionIndex?, Kind.options, hindex]
  | hex hds hd hw _ => simp [hk, natural?_of_hexDigits? hds, hd, within?, hw]
  | integer hfits _ => simp [hk, intText, signed64?_signedDigits hfits]
  | text _ => simp [hk]

theorem value?_of_no_current (hc : item.current? = none) : item.value? = none := by
  rw [value?, hc]
  rfl

theorem value?_eq_valueOf? (hc : item.current? = some text) :
    item.value? = item.valueOf? text := by
  rw [value?, hc, Option.bind_some]

/-- What the user gave is the text of a value. -/
def Typed (item : Item) : Prop :=
  ∀ text, item.user? = some text → ∃ value, item.kind.Spells text value

namespace Typed

variable (h : item.Typed)

include h

theorem current (hc : item.current? = some text) : ∃ value, item.kind.Spells text value := by
  unfold current? at hc
  cases hu : item.user? with
  | some user =>
    rw [hu] at hc
    cases hc
    exact h text hu
  | none =>
    rw [hu] at hc
    obtain ⟨raw, -, ha⟩ := Option.bind_eq_some_iff.mp hc
    unfold validate at ha
    cases hk : item.kind.accept raw with
    | error reason => simp [hk, Except.toOption] at ha
    | ok value =>
      simp only [hk, Except.toOption, Option.some.injEq] at ha
      subst ha
      exact Kind.spells_of_accept hk

theorem value?_of_current (hc : item.current? = some text) :
    ∃ value, item.value? = some value ∧ item.kind.Spells text value := by
  obtain ⟨value, hv⟩ := h.current hc
  exact ⟨value, (value?_eq_valueOf? hc).trans (valueOf?_of_spells hv), hv⟩

theorem spells_of_value? (hv : item.value? = some value) :
    ∃ text, item.current? = some text ∧ item.kind.Spells text value := by
  obtain ⟨text, hc, -⟩ := Option.bind_eq_some_iff.mp hv
  obtain ⟨value', hv', hspells⟩ := h.value?_of_current hc
  cases hv.symm.trans hv'
  exact ⟨text, hc, hspells⟩

theorem isSome_value? : item.value?.isSome = item.current?.isSome := by
  cases hc : item.current? with
  | none => rw [value?_of_no_current hc]; rfl
  | some text =>
    obtain ⟨value, hv, -⟩ := h.value?_of_current hc
    rw [hv]
    rfl

end Typed

/-! ## Conversions -/

/-- A visible item with a text from which a conversion reads no number. -/
structure Misread (item : Item) (build : Build) (why : Unread) (target : Conversion)
    (text : String) : Prop where
  visible : item.visible = true
  kind : item.kind = .text
  current : item.current? = some text
  misreads : target.Misreads build why text

/-- What a conversion ends with for the sake of a visible text: the text is refused, or a checked
build stops. -/
inductive Resists (item : Item) (build : Build) (target : Conversion) : Error → Prop where
  | refused {text : String} : item.Misread build .refused target text →
      item.Resists build target (.conversion item.name target.keyword text)
  | overflow {text : String} : build = .checked → item.Misread build .overflow target text →
      item.Resists build target .overflow

variable {build : Build}

theorem convert_eq_ok_iff {target : Conversion} :
    item.convert build target = .ok text ↔
      ∃ value, item.value? = some value ∧ value.convert build item.visible target = .ok text := by
  unfold convert
  cases item.value? with
  | none => simp
  | some value =>
    cases hc : value.convert build item.visible target with
    | ok converted => simp [hc]
    | error why => cases why <;> simp [hc]

theorem Misread.checked {target : Conversion} (h : item.Misread build .overflow target text) :
    build = .checked := by
  have hm := h.misreads
  cases target with
  | integer => exact (literal_eq_overflow_iff.mp hm).1
  | hex => cases hm.2
  | bool | tristate | text => cases hm

theorem Typed.convert_of_misread (h : item.Typed) {target : Conversion} {why : Unread}
    (hm : item.Misread build why target text) :
    item.value? = some (.text text) ∧
      Value.convert build item.visible target (.text text) = .error why := by
  obtain ⟨value, hv, hspells⟩ := h.value?_of_current hm.current
  obtain rfl := (hm.kind ▸ hspells).eq_text
  exact ⟨hv, Value.convert_eq_error_iff.mpr ⟨hm.visible, text, rfl, hm.misreads⟩⟩

theorem Typed.convert_eq_error_iff (h : item.Typed) {target : Conversion} {e : Error} :
    item.convert build target = .error e ↔
      (item.current? = none ∧ e = .conversion item.name target.keyword "") ∨
        item.Resists build target e := by
  constructor
  · intro hc
    unfold convert at hc
    cases hcurrent : item.current? with
    | none =>
      rw [value?_of_no_current hcurrent] at hc
      cases hc
      exact .inl ⟨rfl, rfl⟩
    | some text =>
      obtain ⟨value, hv, hspells⟩ := h.value?_of_current hcurrent
      have hmisread : ∀ {why}, value.convert build item.visible target = .error why →
          value = .text text ∧ item.Misread build why target text := by
        intro why hwhy
        obtain ⟨hvisible, s, rfl, hm⟩ := Value.convert_eq_error_iff.mp hwhy
        obtain ⟨hkind, rfl⟩ := hspells.of_text
        exact ⟨rfl, hvisible, hkind, hcurrent, hm⟩
      simp only [hv] at hc
      split at hc
      · next hwhy =>
        obtain ⟨rfl, hm⟩ := hmisread hwhy
        cases hc
        exact .inr (.refused hm)
      · next hwhy =>
        have hm := (hmisread hwhy).2
        cases hc
        exact .inr (.overflow hm.checked hm)
      · cases hc
  · rintro (⟨hcurrent, rfl⟩ | hr)
    · rw [convert, value?_of_no_current hcurrent]
    · cases hr with
      | refused hm =>
        obtain ⟨hv, hwhy⟩ := h.convert_of_misread hm
        simp only [convert, hv, hwhy, Value.reported]
      | overflow _ hm =>
        obtain ⟨hv, hwhy⟩ := h.convert_of_misread hm
        simp only [convert, hv, hwhy]

/-! ## Generated entries -/

theorem Typed.derive_eq_error_iff (h : item.Typed) (hc : item.current?.isNone = false)
    {ambient : Ambient} {place : Nat} {derivation : Derivation} {e : Error} :
    item.derive build ambient place derivation = .error e ↔
      ∃ target, derivation = .convert target ∧ item.Resists build target e := by
  obtain ⟨value, hvalue⟩ := Option.isSome_iff_exists.mp (Option.isNone_eq_false_iff.mp hc)
  cases derivation with
  | self => simp [derive, hvalue]
  | convert target =>
    rw [derive, h.convert_eq_error_iff]
    simp [hvalue]
  | random bytes => simp [derive]
  | now => simp [derive]

theorem generated_of_current (hc : item.current?.isNone = false) (ambient : Ambient) (start : Nat) :
    item.generated build ambient start = item.generates.entries.zipIdx.mapM fun x =>
      (item.derive build ambient (start + x.2) x.1.2).map fun text => (x.1.1, text) := by
  rw [generated, hc]
  rfl

theorem Typed.resists_of_generated (h : item.Typed) {ambient : Ambient} {start : Nat} {e : Error}
    (hg : item.generated build ambient start = .error e) :
    ∃ key target, (key, .convert target) ∈ item.generates.entries ∧
      item.Resists build target e := by
  cases hc : item.current?.isNone with
  | true => simp [generated, hc] at hg
  | false =>
    rw [generated_of_current hc] at hg
    obtain ⟨⟨⟨key, derivation⟩, i⟩, hmem, hfailed⟩ := exists_of_mapM_error hg
    cases hd : item.derive build ambient (start + i) derivation with
    | ok text => simp [hd, Except.map] at hfailed
    | error d =>
      simp only [hd, Except.map, Except.error.injEq] at hfailed
      subst hfailed
      obtain ⟨target, rfl, hr⟩ := (h.derive_eq_error_iff hc).mp hd
      exact ⟨key, target, List.fst_mem_of_mem_zipIdx hmem, hr⟩

theorem Resists.current {target : Conversion} {e : Error} (h : item.Resists build target e) :
    item.current?.isNone = false := by
  cases h with
  | refused hm | overflow _ hm => rw [hm.current]; rfl

theorem Typed.generated_of_resists (h : item.Typed) {key : String} {target : Conversion}
    {e : Error} (hmem : (key, .convert target) ∈ item.generates.entries)
    (hr : item.Resists build target e) (ambient : Ambient) (start : Nat) :
    ∃ e, item.generated build ambient start = .error e := by
  rw [generated_of_current hr.current]
  cases hg : item.generates.entries.zipIdx.mapM fun x =>
      (item.derive build ambient (start + x.2) x.1.2).map fun text => (x.1.1, text) with
  | error e => exact ⟨e, rfl⟩
  | ok entries =>
    obtain ⟨i, hi, hget⟩ := List.mem_iff_getElem.mp hmem
    have hplace : ((key, .convert target), i) ∈ item.generates.entries.zipIdx :=
      List.mem_zipIdx_iff_getElem?.mpr (List.getElem?_eq_some_iff.mpr ⟨hi, hget⟩)
    obtain ⟨entry, -, hentry⟩ := exists_of_forall₂ (mapM_eq_ok_iff.mp hg) hplace
    have hd : item.derive build ambient (start + i) (.convert target) = .error e :=
      (h.derive_eq_error_iff hr.current).mpr ⟨target, rfl, hr⟩
    simp [hd, Except.map] at hentry

end Item

end MakeConfig
