import MakeConfig.Proofs.Item.Typed
import MakeConfig.Proofs.Tree.Coherent

/-! # Items of reachable trees have values of their kinds

What holds of entities as they come in, and neither depends on what they have seen of variables nor
is lost when they are read or given a value, holds of all entities of a reachable tree. That values
have the types of their items is such a property, and so is that what was read was a file.
-/

namespace MakeConfig

theorem Schema.isFile_of_load {files : FileSystem} {path : Path} {schema : Schema}
    (h : Schema.load files path = .ok schema) : files.isFile path = true := by
  cases hf : files.isFile path with
  | true => rfl
  | false => simp [Schema.load, FileSystem.read, hf, bind, Except.bind] at h

/-- The file was found where a path of a node pointed. -/
def Parsed.Found (parsed : Parsed) : Prop :=
  ∃ (files : FileSystem) (path : Binding), parsed.file = path.path ∧ files.isFile path.path = true

namespace Entity

/-- A property that entities have from the start and do not lose. -/
structure Lasting (Q : Entity → Prop) : Prop where
  arriving : ∀ {environment : Environment} {base : Path} {known : OrderedMap String}
    {s : Variables Handle} {entry : String × Entry} {e : Entity} {value? : Option String},
    Intake.arriving environment base known s entry = .ok (e, value?) → Q e
  bare : ∀ {e e' : Entity}, e'.bare = e.bare → Q e → Q e'
  read : ∀ {e : Entity} {parsed? : Option Parsed},
    (∀ parsed, parsed? = some parsed → parsed.Found) → Q e → Q (e.read parsed?)
  given : ∀ {item : Item} {raw value : String}, item.kind.accept raw = .ok value →
    Q (.item item) → Q (.item { item with user? := some value })

end Entity

namespace Tree

/-- All that stands in a tree has a property. -/
def All (Q : Entity → Prop) (t : Tree) : Prop := ∀ h e, t.entity? h = some e → Q e

namespace All

open Entity

variable {Q : Entity → Prop} (hQ : Lasting Q) {t : Tree}

theorem add (h : t.All Q) {e : Entity} (he : Q e) : (t.add e).All Q := by
  intro k e' he'
  rw [entity?_add] at he'
  split at he'
  · cases he'
    exact he
  · exact h k e' he'

theorem foldl_drop (h : t.All Q) (hs : List Handle) : (hs.foldl drop t).All Q := by
  intro k e he
  rw [entity?_foldl_drop] at he
  split at he
  · cases he
  · exact h k e he

include hQ

theorem plant (rootPath : String) (origin : Path) : (plant rootPath origin).All Q := by
  have hbare : Tree.All Q { vars := .empty, arena := .empty, rootPath, origin } := by
    intro k e he
    cases k <;> cases he
  have hroot : Intake.arriving ⟨[], .checked⟩ origin ∅ .empty ("root", .child ⟨rootPath, ∅⟩) =
      .ok (.node (Node.construct "root" rootPath origin ∅ .empty), none) := rfl
  exact hbare.add (hQ.arriving hroot)

theorem publish (h : t.All Q) (hc : t.Coherent) (name value : String) :
    (t.publish name value).All Q := by
  intro k e he
  rw [t.entity?_publish name value (hc.nodup name)] at he
  split at he
  · obtain ⟨e, hte, rfl⟩ := Option.map_eq_some_iff.mp he
    exact hQ.bare (e.bare_notice ..) (h k e hte)
  · exact h k e he

theorem setParsed (h : t.All Q) (id : NodeId) {parsed? : Option Parsed}
    (hf : ∀ parsed, parsed? = some parsed → parsed.Found) : (t.setParsed id parsed?).All Q := by
  intro k e he
  rw [entity?_setParsed] at he
  split at he
  · obtain ⟨e, hte, rfl⟩ := Option.map_eq_some_iff.mp he
    exact hQ.read hf (h k e hte)
  · exact h k e he

theorem assign (h : t.All Q) (hc : t.Coherent) (id : ItemId) (raw : String) :
    (t.assign id raw).2.All Q := by
  cases hi : t.item? id with
  | none =>
    simp only [Tree.assign, hi]
    exact h
  | some item =>
    rw [assign_of_item hi]
    split
    · exact h
    · next value ha =>
      refine publish hQ (fun k e he => ?_) (hc.setUser hi (some value)) item.name value
      rw [entity?_setItem] at he
      split at he
      · obtain ⟨-, -, rfl⟩ := Option.map_eq_some_iff.mp he
        exact hQ.given ha (h _ _ (entity?_eq_item.mpr hi))
      · exact h k e he

theorem assignAll (h : t.All Q) (hc : t.Coherent) (values : List (ItemId × String)) :
    (t.assignAll values).2.All Q := by
  have hboth := assignAll_invariant (P := fun t => t.Coherent ∧ t.All Q)
    (fun _ id raw h => ⟨h.1.assign id raw, h.2.assign hQ h.1 id raw⟩) ⟨hc, h⟩ values
  exact hboth.2

theorem unread (h : t.All Q) (id : NodeId) : (t.unread id).All Q := by
  unfold Tree.unread
  split
  · exact h
  · exact (h.setParsed hQ id (by rintro _ ⟨⟩)).foldl_drop _

theorem takeAll {i : Intake} (h : i.tree.All Q) (environment : Environment) (base : Path)
    (known : OrderedMap String) (schema : Schema) :
    (i.takeAll environment base known schema).2.tree.All Q :=
  Intake.takeAll_invariant environment base known (P := fun i => i.tree.All Q)
    (fun _ _ _ _ hi ha => hi.add (hQ.arriving ha)) h schema

theorem populate (h : t.All Q) (hc : t.Coherent) (environment : Environment) {id : NodeId}
    {node : Node} (hn : t.node? id = some node) {file : Path}
    (hf : ∀ contents, Parsed.Found ⟨file, contents⟩) (schema : Schema) :
    (t.populate environment id node file schema).2.All Q := by
  let start : Intake := { tree := t.unread id, contents := .empty, imported := [] }
  have hstart : start.tree.Coherent := hc.unread id
  have hcoherent := hstart.takeAll environment (file.parent?.getD ⟨""⟩) (hc.known_unread hn) schema
  have hall := takeAll hQ (i := start) (h.unread hQ id) environment (file.parent?.getD ⟨""⟩)
    node.known schema
  unfold Tree.populate
  dsimp only
  split
  · next heq =>
    rw [heq] at hall
    exact hall.foldl_drop _
  · next i heq =>
    rw [heq] at hall hcoherent
    have hfound : ∀ parsed, some (Parsed.mk file i.contents) = some parsed → parsed.Found := by
      rintro _ ⟨rfl⟩
      exact hf i.contents
    exact (hall.setParsed hQ id hfound).assignAll hQ (hcoherent.setParsed id _) _

theorem parse (h : t.All Q) (hc : t.Coherent) (around : Surroundings) (id : NodeId) :
    (t.parse around id).2.All Q := by
  unfold Tree.parse
  split
  · exact h
  · next node hn =>
    dsimp only
    split
    · exact h
    · next schema hload =>
      have hfile := Schema.isFile_of_load hload
      exact h.populate hQ hc around.environment hn (fun _ => ⟨around.files, node.path, rfl, hfile⟩) _

end All

theorem Reachable.all {Q : Entity → Prop} (hQ : Entity.Lasting Q) {t : Tree} (h : t.Reachable) :
    t.All Q := by
  have hboth : t.Coherent ∧ t.All Q := h.invariant
    (P := fun t => t.Coherent ∧ t.All Q)
    (fun rootPath origin => ⟨coherent_plant rootPath origin, All.plant hQ rootPath origin⟩)
    (fun _ name value h => ⟨h.1.publish name value, h.2.publish hQ h.1 name value⟩)
    (fun _ id raw h => ⟨h.1.assign id raw, h.2.assign hQ h.1 id raw⟩)
    fun around _ id h => ⟨h.1.parse around id, h.2.parse hQ h.1 around id⟩
  exact hboth.2

/-! ## Files that were read -/

theorem lasting_found : Entity.Lasting fun e =>
    ∀ node parsed, e = .node node → node.parsed? = some parsed → parsed.Found where
  arriving := by
    intro environment base known s entry e value? h
    rintro node parsed rfl hp
    obtain ⟨name, entry⟩ := entry
    cases entry with
    | item typeName spec =>
      simp only [Intake.arriving] at h
      split at h
      · cases h
      · split at h <;> cases h
    | child spec =>
      cases h
      cases hp
    | recipe spec => cases h
    | repo spec => cases h
  bare := by
    intro e e' hb h
    rintro node parsed rfl hp
    cases e with
    | node before =>
      have hparsed := Node.parsed?_of_bare (Entity.node.inj hb)
      exact h before parsed rfl (hparsed ▸ hp)
    | item i => cases hb
    | recipe r => cases hb
    | repo r => cases hb
  read := by
    intro e parsed? hf h node parsed he hp
    cases e with
    | node before =>
      cases he
      exact hf parsed hp
    | item i => cases he
    | recipe r => cases he
    | repo r => cases he
  given := by
    rintro item raw value - - node parsed ⟨⟩

theorem Reachable.found {t : Tree} (h : t.Reachable) {id : NodeId} {node : Node}
    (hn : t.node? id = some node) {parsed : Parsed} (hp : node.parsed? = some parsed) :
    parsed.Found :=
  h.all lasting_found _ _ (entity?_eq_node.mpr hn) node parsed rfl hp

/-! ## Values -/

theorem lasting_typed : Entity.Lasting fun e => ∀ item, e = .item item → item.Typed where
  arriving := by
    intro environment base known s entry e value? h
    rintro item rfl text hu
    obtain ⟨name, entry⟩ := entry
    cases entry with
    | item typeName spec =>
      simp only [Intake.arriving] at h
      cases hi : Item.ofSpec environment.build name typeName spec with
      | error e => simp [hi] at h
      | ok defined =>
        simp only [hi] at h
        split at h
        · cases h
        · cases h
          obtain ⟨kind, generates, -, -, -, rfl⟩ := Item.ofSpec_cases hi
          cases hu
    | child spec => cases h
    | recipe spec => cases h
    | repo spec => cases h
  bare := by
    intro e e' hb h
    rintro item rfl
    cases e with
    | item before =>
      have hbare : item.bare = before.bare := Entity.item.inj hb
      have hkind : item.kind = before.kind := by
        change item.bare.kind = before.bare.kind
        rw [hbare]
      intro text hu
      rw [hkind]
      exact h before rfl text ((Item.user?_of_bare hbare).symm.trans hu)
    | node n => cases hb
    | recipe r => cases hb
    | repo r => cases hb
  read := by
    intro e parsed? _ h item he
    cases e with
    | item i => exact h item he
    | node n => cases he
    | recipe r => cases he
    | repo r => cases he
  given := by
    intro item raw value ha _ other he text hu
    cases he
    cases hu
    exact Kind.spells_of_accept ha

theorem Reachable.typed {t : Tree} (h : t.Reachable) {id : ItemId} {item : Item}
    (hi : t.item? id = some item) : item.Typed :=
  h.all lasting_typed _ _ (entity?_eq_item.mpr hi) item rfl

/-! ## An example -/

namespace Numbers

def schemaText : String :=
  "\x7b\"H\":\x7b\"type\":\"hex\",\"range\":[16,255]\x7d," ++
  "\"S\":\x7b\"type\":\"string\",\"default\":\"seven\"," ++
  "\"gen-list\":\x7b\"K\":\"to_int\"\x7d\x7d\x7d"

def around : Surroundings where
  files := ⟨⟨"/"⟩, [(["config.json"], .file schemaText.toUTF8 false)]⟩
  environment := ⟨[], .checked⟩

def once : Tree := ((plant "config.json" ⟨"/"⟩).parse around root).2

def tree : Tree := (once.assign ⟨0⟩ "0x1F").2

theorem reachable_tree : tree.Reachable :=
  .call (.call (.plant _ _) (.parse around _ root)) (.setUserValue once ⟨0⟩ "0x1F")

end Numbers

/-! ## Items of reachable trees -/

/-- What an item of a reachable tree was given, and what is in force for it, is the text of a value
of its kind, and it is accepted as it stands unless it is an option. So conversions and generated
entries fail for want of a value or where a visible text is to be read as a number and is none, unless
the number of the text stops a checked build. -/
theorem values_typed {t : Tree} (h : t.Reachable) {id : ItemId} {item : Item}
    (hi : t.item? id = some item) :
    (∀ text, item.user? = some text ∨ item.current? = some text →
      (∃ value, item.valueOf? text = some value ∧ item.kind.Spells text value) ∧
      ((∀ options, item.kind ≠ .choice options) → item.validate text = .ok text)) ∧
    (item.current?.isSome = true ↔ item.value?.isSome = true) ∧
    (∀ build target e, item.convert build target = .error e ↔
      (item.current? = none ∧ e = .conversion item.name target.keyword "") ∨
        item.Resists build target e) ∧
    ∀ build ambient start,
      (∀ e, item.generated build ambient start = .error e →
        ∃ key target, (key, .convert target) ∈ item.generates.entries ∧
          item.Resists build target e) ∧
      ((∃ key target e, (key, .convert target) ∈ item.generates.entries ∧
          item.Resists build target e) →
        ∃ e, item.generated build ambient start = .error e) := by
  have ht := h.typed hi
  refine ⟨?_, by rw [ht.isSome_value?], fun _ _ _ => ht.convert_eq_error_iff, ?_⟩
  · intro text htext
    obtain ⟨value, hv⟩ : ∃ value, item.kind.Spells text value :=
      htext.elim (ht text) ht.current
    refine ⟨⟨value, Item.valueOf?_of_spells hv, hv⟩, fun hc => ?_⟩
    rw [Item.validate, hv.accept hc]
  · intro build ambient start
    refine ⟨fun _ => ht.resists_of_generated, ?_⟩
    rintro ⟨key, target, e, hmem, hr⟩
    exact ht.generated_of_resists hmem hr ambient start

/-- A number in the range of its item is accepted as it stands, and a default that is no numeral
cannot be converted into one. -/
theorem values_typed_numbers :
    Numbers.tree.Reachable ∧
      (∃ item, Numbers.tree.item? ⟨0⟩ = some item ∧ item.user? = some "0x1F" ∧
        item.kind.Spells "0x1F" (.hex 31 "0x1F") ∧ item.validate "0x1F" = .ok "0x1F") ∧
      ∃ item, Numbers.tree.item? ⟨1⟩ = some item ∧
        ∀ build, item.convert build .integer = .error (.conversion "S" "to_int" "seven") ∧
          ∀ ambient start, ∃ e, item.generated build ambient start = .error e := by
  refine ⟨Numbers.reachable_tree, ?_, ?_⟩
  · have hitem : (Numbers.tree.item? ⟨0⟩).any (fun item => decide (item.user? = some "0x1F" ∧
        item.kind = .hex (some (16, 255)) ∧
        item.valueOf? "0x1F" = some (.hex 31 "0x1F"))) = true := by
      decide +kernel
    obtain ⟨item, hi, hitem⟩ := Option.any_eq_true _ _ |>.mp hitem
    obtain ⟨huser, hkind, hvalue⟩ := of_decide_eq_true hitem
    obtain ⟨⟨value, hv, hspells⟩, haccept⟩ :=
      (values_typed Numbers.reachable_tree hi).1 "0x1F" (.inl huser)
    obtain rfl : .hex 31 "0x1F" = value := Option.some.inj (hvalue.symm.trans hv)
    exact ⟨item, hi, huser, hspells, haccept (by simp [hkind])⟩
  · have hitem : (Numbers.tree.item? ⟨1⟩).any (fun item => decide (item.name = "S" ∧
        item.visible = true ∧ item.kind = .text ∧ item.current? = some "seven" ∧
        ("K", .convert .integer) ∈ item.generates.entries)) = true := by
      decide +kernel
    obtain ⟨item, hi, hitem⟩ := Option.any_eq_true _ _ |>.mp hitem
    obtain ⟨hname, hvisible, hkind, hcurrent, hmem⟩ := of_decide_eq_true hitem
    obtain ⟨-, -, hconvert, hgenerated⟩ := values_typed Numbers.reachable_tree hi
    refine ⟨item, hi, fun build => ?_⟩
    have hrefused : Numeral.literal build "seven" = .error .refused :=
      Numeral.literal_of_no_value (by decide)
    have hresists : item.Resists build .integer (.conversion "S" "to_int" "seven") :=
      hname ▸ .refused ⟨hvisible, hkind, hcurrent, hrefused⟩
    refine ⟨(hconvert _ _ _).mpr (.inr hresists), fun ambient start => ?_⟩
    exact (hgenerated build ambient start).2 ⟨"K", .integer, _, hmem, hresists⟩

end Tree

end MakeConfig
