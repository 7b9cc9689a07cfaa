import MakeConfig.Proofs.Item.Numbers
import MakeConfig.Proofs.Tree.Assignment

/-! # Choices by index

A choice keeps the option that an index stands for. The index is looked up again where it is asked
for, as the first place of the option, so an index comes back exactly if its option is not listed
before. An index has 64 bits.
-/

namespace MakeConfig

open Numeral

namespace Item

variable {item : Item} {options : List String} {option : String} {i : Nat}

/-- The item holds an option, which it knows by an index. -/
structure Holds (item : Item) (option : String) (index : Nat) : Prop where
  user : item.user? = some option
  value : item.value? = some (.choice index option)
  number : ∀ build, item.convert build .integer = .ok (natText index)

/-- An index that is given is the one that is held. -/
def Returns (item : Item) (index : Nat) : Prop :=
  ∃ after option, item.assign (natText index) = .ok (after, option) ∧ after.Holds option index

theorem Holds.index_unique {j : Nat} (h : item.Holds option i) (h' : item.Holds option j) :
    i = j := by
  cases h.value.symm.trans h'.value
  rfl

theorem spells_idxOf (hm : option ∈ options) :
    (Kind.choice options).Spells option (.choice (options.idxOf option) option) := by
  have hfound : options.findIdx? (· == option) = some (options.idxOf option) :=
    List.findIdx?_eq_some_of_exists ⟨option, hm, beq_self_eq_true option⟩
  obtain ⟨ho, hfirst⟩ := Kind.findIdx?_eq_some_iff.mp hfound
  exact .choice ho hfirst

theorem holds_of_user (hk : item.kind = .choice options) (hu : item.user? = some option)
    (hm : option ∈ options) : item.Holds option (options.idxOf option) := by
  have hcurrent : item.current? = some option := by
    rw [current?, hu]
    rfl
  have hvalue : item.value? = some (.choice (options.idxOf option) option) :=
    (value?_eq_valueOf? hcurrent).trans (valueOf?_of_spells (hk ▸ spells_idxOf hm))
  exact ⟨hu, hvalue, fun _ => convert_eq_ok_iff.mpr ⟨_, hvalue, rfl⟩⟩

section Given

variable (hk : item.kind = .choice options) (hfit : options.length ≤ wordBound)
  (ho : options[i]? = some option)

include hk hfit ho

theorem accept_index : item.kind.accept (natText i) = .ok option := by
  obtain ⟨hi, -⟩ := List.getElem?_eq_some_iff.mp ho
  have hread : natural? wordBound 10 (Text.trim (natText i).toList) = some i := by
    rw [trim_natText]
    exact natural?_digits (Nat.lt_of_lt_of_le hi hfit)
  rw [hk]
  exact Kind.acceptIndex_eq_ok_iff.mpr ⟨i, hread, ho⟩

theorem assign_index :
    item.assign (natText i) = .ok ({ item with user? := some option }, option) := by
  rw [assign, validate, accept_index hk hfit ho]
  rfl

theorem returns_iff : item.Returns i ↔ options.idxOf option = i := by
  have hm := List.mem_of_getElem? ho
  have hgiven := assign_index hk hfit ho
  have hholds : { item with user? := some option }.Holds option (options.idxOf option) :=
    holds_of_user hk rfl hm
  constructor
  · rintro ⟨after, option', ha, h⟩
    cases hgiven.symm.trans ha
    exact hholds.index_unique h
  · intro hfirst
    exact ⟨_, option, hgiven, hfirst ▸ hholds⟩

end Given

theorem forall_idxOf_iff_nodup :
    (∀ i option, options[i]? = some option → options.idxOf option = i) ↔ options.Nodup := by
  constructor
  · intro h
    refine List.pairwise_iff_getElem.mpr fun i j hi hj hij hsame => ?_
    have hfirst := h i options[i] (List.getElem?_eq_getElem hi)
    have hsecond := h j options[j] (List.getElem?_eq_getElem hj)
    rw [← hsame, hfirst] at hsecond
    exact Nat.ne_of_lt hij hsecond
  · intro h i option ho
    obtain ⟨hi, rfl⟩ := List.getElem?_eq_some_iff.mp ho
    exact h.idxOf_getElem i hi

theorem forall_returns_iff_nodup (hk : item.kind = .choice options)
    (hfit : options.length ≤ wordBound) :
    (∀ i < options.length, item.Returns i) ↔ options.Nodup := by
  rw [← forall_idxOf_iff_nodup]
  constructor
  · intro hall i option ho
    obtain ⟨hi, -⟩ := List.getElem?_eq_some_iff.mp ho
    exact (returns_iff hk hfit ho).mp (hall i hi)
  · intro hall i hi
    have ho := List.getElem?_eq_getElem hi
    exact (returns_iff hk hfit ho).mpr (hall i _ ho)

theorem kind_of_ofSpec_enum {build : Build} {name : String} {spec : ItemSpec}
    (h : ofSpec build name "enum" spec = .ok item) : item.kind = .choice spec.options := by
  obtain ⟨kind, -, hk, -, -, rfl⟩ := ofSpec_cases h
  cases hk
  rfl

end Item

open Item

theorem Tree.holds_assign_index {t : Tree} (hc : t.Coherent) {id : ItemId} {item : Item}
    (hi : t.item? id = some item) {options : List String} (hk : item.kind = .choice options)
    (hfit : options.length ≤ wordBound) {i : Nat} {option : String}
    (ho : options[i]? = some option) :
    ∃ t' after, t.assign id (natText i) = (.ok (), t') ∧ t'.item? id = some after ∧
      after.Holds option (options.idxOf option) := by
  obtain ⟨after, hafter, huser, hbare, -⟩ := (given_give hc hi option).own
  have hkind : after.kind = .choice options := (kind_of_bare hbare).trans hk
  exact ⟨_, after, assign_of_accepted hi (accept_index hk hfit ho), hafter,
    holds_of_user hkind huser (List.mem_of_getElem? ho)⟩

/-- Every index of an option is taken, and what is held from then on is the option and the index of
its first place. So each index comes back exactly if no option is listed twice. -/
theorem Item.indices_return_iff_nodup {build : Build} {name : String} {spec : ItemSpec}
    {item : Item} (h : ofSpec build name "enum" spec = .ok item)
    (hfit : spec.options.length ≤ wordBound) :
    (∀ i option, spec.options[i]? = some option →
      (∃ after, item.assign (natText i) = .ok (after, option) ∧
        after.Holds option (spec.options.idxOf option)) ∧
      (item.Returns i ↔ spec.options.idxOf option = i) ∧
      ∀ t : Tree, t.Reachable → ∀ id own, t.item? id = some own → own.kind = item.kind →
        ∃ t' after, t.assign id (natText i) = (.ok (), t') ∧ t'.item? id = some after ∧
          after.Holds option (spec.options.idxOf option)) ∧
    ((∀ i < spec.options.length, item.Returns i) ↔ spec.options.Nodup) := by
  have hk := kind_of_ofSpec_enum h
  refine ⟨fun i option ho => ⟨?_, returns_iff hk hfit ho, ?_⟩, forall_returns_iff_nodup hk hfit⟩
  · exact ⟨_, assign_index hk hfit ho, holds_of_user hk rfl (List.mem_of_getElem? ho)⟩
  · intro t ht id own hi hown
    exact Tree.holds_assign_index ht.coherent hi (hown.trans hk) hfit ho

namespace Choices

def spec (options : List String) : ItemSpec where
  default? := none
  prompt? := none
  help? := none
  depends := ∅
  imports := false
  forced := false
  generates := ∅
  options
  range := []
  unknown := []

def mode (options : List String) : Item where
  name := "MODE"
  kind := .choice options
  default? := none
  user? := none
  prompt := "Choose Option 0~" ++ natText options.length
  help := usualHelp
  depends := ∅
  observed := ∅
  visible := true
  forced := false
  imports := false
  generates := ∅

theorem ofSpec_spec (build : Build) (options : List String) :
    ofSpec build "MODE" "enum" (spec options) = .ok (mode options) := rfl

end Choices

open Choices

theorem Item.indices_return_iff_nodup_switch :
    ofSpec .checked "MODE" "enum" (spec ["off", "on"]) = .ok (mode ["off", "on"]) ∧
      (∀ i < 2, (mode ["off", "on"]).Returns i) ∧
      ∃ t' after, Tree.Gate.tree.assign ⟨0⟩ "1" = (.ok (), t') ∧ t'.item? ⟨0⟩ = some after ∧
        after.Holds "on" 1 := by
  obtain ⟨hgiven, hall⟩ :=
    indices_return_iff_nodup (ofSpec_spec .checked ["off", "on"]) (by decide : 2 ≤ wordBound)
  obtain ⟨-, -, htree⟩ := hgiven 1 "on" rfl
  obtain ⟨own, hi, -, hkind⟩ := Tree.Gate.exists_choice
  refine ⟨ofSpec_spec _ _, hall.mpr (by decide), ?_⟩
  exact htree Tree.Gate.tree Tree.Gate.reachable_tree ⟨0⟩ own hi hkind

/-- The second of two options that are the same is taken for the first. -/
theorem Item.index_lost_twice :
    ItemSpec.ofFields? [("enum", .array [.string "a", .string "a"])] = some (spec ["a", "a"]) ∧
      (∀ build, ofSpec build "MODE" "enum" (spec ["a", "a"]) = .ok (mode ["a", "a"])) ∧
      ∃ after, (mode ["a", "a"]).assign "1" = .ok (after, "a") ∧
        after.value? = some (.choice 0 "a") ∧ ∀ build, after.convert build .integer = .ok "0" :=
  ⟨rfl, fun _ => ofSpec_spec _ _, { mode ["a", "a"] with user? := some "a" }, rfl, rfl,
    fun _ => rfl⟩

end MakeConfig
