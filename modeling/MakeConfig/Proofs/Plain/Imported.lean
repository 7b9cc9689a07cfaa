import MakeConfig.Proofs.Item.Canonical
import MakeConfig.Proofs.Plain.Reading
import MakeConfig.Proofs.Tree.Rollback

/-! # Values from the environment

What the environment has for an item is accepted when the item comes in, and what comes of it is
accepted once more when it is published. The second time fails for an option, which is no index.
-/

namespace MakeConfig

universe u

open Plain

namespace Schema

def item? (build : Build) : String × Entry → Option Item
  | (name, .item typeName spec) => (Item.ofSpec build name typeName spec).toOption
  | _ => none

def items (build : Build) (schema : Schema) : List Item := schema.filterMap (item? build)

theorem name_of_item? {build : Build} {entry : String × Entry} {item : Item}
    (h : item? build entry = some item) : item.name = entry.1 := by
  obtain ⟨name, entry⟩ := entry
  cases entry with
  | item typeName spec =>
    simp only [item?] at h
    cases hi : Item.ofSpec build name typeName spec with
    | error e => simp [hi, Except.toOption] at h
    | ok accepted =>
      simp only [hi, Except.toOption, Option.some.injEq] at h
      subst h
      obtain ⟨-, -, -, -, -, rfl⟩ := Item.ofSpec_cases hi
      rfl
  | child spec => cases h
  | recipe spec => cases h
  | repo spec => cases h

theorem names_ofFields {origin : Path} {fields : List (String × Json)} {schema : Schema}
    (h : ofFields origin fields = .ok schema) :
    (schema.map Prod.fst).Sublist (fields.map Prod.fst) := by
  induction fields generalizing schema with
  | nil =>
    cases h
    exact .slnil
  | cons field fields ih =>
    obtain ⟨name, value⟩ := field
    unfold ofFields at h
    split at h
    · cases h
    · exact .cons _ (ih h)
    · cases hrest : ofFields origin fields with
      | error e => simp [hrest, bind, Except.bind] at h
      | ok rest =>
        simp only [hrest, bind, Except.bind, pure, Except.pure, Except.ok.injEq] at h
        subst h
        exact .cons_cons _ (ih hrest)

theorem nodup_names_of_load {files : FileSystem} {path : Path} {schema : Schema}
    (h : load files path = .ok schema) : (schema.map Prod.fst).Nodup := by
  unfold load at h
  cases hr : files.read path with
  | error e => simp [hr, bind, Except.bind] at h
  | ok text =>
    simp only [hr, bind, Except.bind, ofText] at h
    split at h
    · cases h
    · next fields _ => exact (OrderedMap.ofList fields).nodup.sublist (names_ofFields h)

theorem names_items (build : Build) (schema : Schema) :
    ((schema.items build).map Item.name).Sublist (schema.map Prod.fst) := by
  induction schema with
  | nil => exact .slnil
  | cons entry schema ih =>
    rw [items, List.map_cons]
    cases hi : item? build entry with
    | none =>
      rw [List.filterMap_cons_none hi]
      exact .cons _ ih
    | some item =>
      rw [List.filterMap_cons_some hi, List.map_cons, name_of_item? hi]
      exact .cons_cons _ ih

end Schema

namespace Plain

variable {σ : Type u} {environment : Environment}

theorem finding?_plain {item : Item} {value : String} :
    item.plain.finding? environment = some value ↔
      Intake.importedValue? environment item = .ok (some value) := by
  rw [Setting.finding?, Item.found?_plain]
  rcases Intake.importedValue? environment item with r | value?
  · simp [Except.toOption]
  · simp [Except.toOption]

theorem settings_add {base : Path} {entry : String × Entry} {part : Part}
    (h : Part.ofEntry environment base entry = .ok part) (sheet : Sheet) :
    (sheet.add part).settings =
      sheet.settings ++ (Schema.item? environment.build entry).toList.map Item.plain := by
  obtain ⟨name, entry⟩ := entry
  cases entry with
  | item typeName spec =>
    simp only [Part.ofEntry] at h
    cases hi : Item.ofSpec environment.build name typeName spec with
    | error e => simp [hi] at h
    | ok item =>
      simp only [hi] at h
      split at h
      · cases h
      · cases h
        simp [Sheet.add, Schema.item?, hi, Except.toOption]
  | child spec =>
    cases h
    exact (List.append_nil _).symm
  | recipe spec =>
    cases h
    exact (List.append_nil _).symm
  | repo spec =>
    cases h
    exact (List.append_nil _).symm

theorem settings_addAll {base : Path} {sheet sheet' : Sheet} {schema : Schema}
    (h : sheet.addAll environment base schema = .ok sheet') :
    sheet'.settings = sheet.settings ++ (schema.items environment.build).map Item.plain := by
  induction schema generalizing sheet with
  | nil =>
    cases h
    exact (List.append_nil _).symm
  | cons entry schema ih =>
    unfold Sheet.addAll at h
    split at h
    · cases h
    · next part hp =>
      rw [ih h, settings_add hp, List.append_assoc, ← List.map_append, Schema.items, Schema.items]
      cases hi : Schema.item? environment.build entry with
      | none => rw [List.filterMap_cons_none hi, Option.toList_none, List.nil_append]
      | some item => rw [List.filterMap_cons_some hi, Option.toList_some, List.singleton_append]

/-! ## Publishing -/

/-- What was found for an item is accepted again. -/
def Setting.Adoptable (environment : Environment) (x : Setting) : Prop :=
  ∀ value, x.finding? environment = some value → ∃ again, x.kind.accept value = .ok again

/-- An item has what was found for it, and no other name has a new value. -/
structure Endowed (environment : Environment) (x : Setting) (s : Desk σ) (y : Setting)
    (s' : Desk σ) : Prop where
  adoptable : x.Adoptable environment
  set : ∀ value again, x.finding? environment = some value → x.kind.accept value = .ok again →
    y = { x with user? := some again } ∧ s'.values.get? x.name = some again
  others : ∀ name, name ≠ x.name → s'.values.get? name = s.values.get? name

theorem adoptFound_cases (environment : Environment) (x : Setting) (s : Desk σ) :
    (∃ e, x.adoptFound environment s = some (.error e, x, s) ∧ ¬ x.Adoptable environment) ∨
    ∃ y s', x.adoptFound environment s = some (.ok (), y, s') ∧ Endowed environment x s y s' := by
  cases hf : x.finding? environment with
  | none =>
    refine .inr ⟨x, s, by simp only [Setting.adoptFound, hf], ?_, ?_, fun _ _ => rfl⟩
    · intro value hv
      cases hf.symm.trans hv
    · intro value again hv
      cases hf.symm.trans hv
  | some value =>
    cases ha : x.kind.accept value with
    | error reason =>
      refine .inl ⟨.rejected ⟨x.name, reason⟩, ?_, fun hadopt => ?_⟩
      · simp only [Setting.adoptFound, hf, Setting.assign, ha]
      · obtain ⟨again, hagain⟩ := hadopt value hf
        cases ha.symm.trans hagain
    | ok again =>
      refine .inr ⟨{ x with user? := some again },
        { s with values := s.values.insert x.name again }, ?_, ?_, ?_, fun name hne => ?_⟩
      · simp only [Setting.adoptFound, hf, Setting.assign, ha]
      · intro value' hv
        cases hf.symm.trans hv
        exact ⟨again, ha⟩
      · intro value' again' hv ha'
        cases hf.symm.trans hv
        cases ha.symm.trans ha'
        exact ⟨rfl, by simp⟩
      · simp [hne]

/-- How giving items what was found for them ends. -/
structure Adopted (environment : Environment) (xs : List Setting) (s : Desk σ)
    (r : Except Error Unit) (ys : List Setting) (s' : Desk σ) : Prop where
  result : r = .ok () ↔ ∀ x ∈ xs, x.Adoptable environment
  settings : r = .ok () → List.Forall₂ (fun x y => ∀ value again,
    x.finding? environment = some value → x.kind.accept value = .ok again →
      y = { x with user? := some again } ∧ s'.values.get? x.name = some again) xs ys
  others : ∀ name ∉ xs.map Setting.name, s'.values.get? name = s.values.get? name

theorem Adopted.cons {x y : Setting} {xs ys : List Setting} {s s₁ s' : Desk σ}
    {r : Except Error Unit} (h : Adopted environment xs s₁ r ys s')
    (hx : Endowed environment x s y s₁) (hn : x.name ∉ xs.map Setting.name) :
    Adopted environment (x :: xs) s r (y :: ys) s' := by
  refine ⟨?_, fun hr => .cons ?_ (h.settings hr), ?_⟩
  · rw [h.result, List.forall_mem_cons]
    exact (and_iff_right hx.adoptable).symm
  · intro value again hf ha
    obtain ⟨hset, hvalue⟩ := hx.set value again hf ha
    exact ⟨hset, (h.others _ hn).trans hvalue⟩
  · intro name hname
    obtain ⟨hne, hname⟩ := not_or.mp (mt List.mem_cons.mpr hname)
    exact (h.others name hname).trans (hx.others name hne)

/-- Items with names of their own do not get in each other's way. -/
theorem adopted_sweep (environment : Environment) {xs : List Setting}
    (hn : (xs.map Setting.name).Nodup) (s : Desk σ) :
    ∃ r ys s', sweep id (Setting.adoptFound environment) xs s = some (r, ys, s') ∧
      Adopted environment xs s r ys s' := by
  induction xs generalizing s with
  | nil => exact ⟨.ok (), [], s, rfl, by simp, fun _ => .nil, fun _ _ => rfl⟩
  | cons x xs ih =>
    obtain ⟨hx, hn⟩ := List.nodup_cons.mp hn
    rcases adoptFound_cases environment x s with ⟨e, hstop, hrefused⟩ | ⟨y, s₁, hfirst, hendowed⟩
    · refine ⟨.error e, x :: xs, s, ?_, ?_, by rintro ⟨⟩, fun _ _ => rfl⟩
      · rw [sweep, hstop, andThen, List.map_id]
      · constructor
        · rintro ⟨⟩
        · exact fun hall => absurd (hall x List.mem_cons_self) hrefused
    · obtain ⟨r, ys, s', hrest, hadopted⟩ := ih hn s₁
      refine ⟨r, y :: ys, s', ?_, hadopted.cons hendowed hx⟩
      rw [sweep, hfirst, andThen, hrest]
      rfl

end Plain

namespace Tree

/-- A node whose schema is taken in anew, whatever was read there before. -/
structure Reopened (t : Tree) (environment : Environment) (id : NodeId) (file : Path)
    (schema : Schema) (t' : Tree) (c : Contents) : Prop where
  coherent : t'.Coherent
  read : t'.readAt? id = some ⟨file, c⟩
  nodup : (c.items.map Handle.item).Nodup
  items : List.Forall₂ (ShowsItem t') c.items ((schema.items environment.build).map Item.plain)

theorem populate_of_accepted {t : Tree} (hr : t.Rising) (hc : t.Coherent)
    {environment : Environment} {id : NodeId} {node : Node} (hn : t.node? id = some node)
    (file : Path) {schema : Schema}
    (h : schema.findSome? (Intake.refusal? environment) = none) :
    ∃ t' c, t.Reopened environment id file schema t' c ∧ t.populate environment id node file schema =
      t'.assignAll
        (findings environment (c.items.zip ((schema.items environment.build).map Item.plain))) := by
  have hstart : (Intake.mk (t.unread id) .empty []).Follows environment (t.unread id)
      Sheet.empty := .start (hc.unread id)
  have hok := Intake.takeAll_fst environment (file.parent?.getD ⟨""⟩) node.known
    (Intake.mk (t.unread id) .empty []) schema
  rw [h] at hok
  obtain ⟨i, sheet, hi, ⟨e, hfailed, -⟩ | ⟨htaken, hsheet⟩⟩ := Intake.takeAll_follows
    (file.parent?.getD ⟨""⟩) hstart (hc.known_unread hn) schema
  · rw [hfailed] at hok
    cases hok
  have hsettings : sheet.settings = (schema.items environment.build).map Item.plain :=
    (settings_addAll hsheet).trans (List.nil_append _)
  have hid : (t.unread id).Issued (.node id) := (issued_unread t id _).mpr (issued_of_node hn)
  obtain ⟨node', hn', -⟩ := hi.spares.node (hr.node?_unread hn) not_false
  have hset := spares_setParsed (t := i.tree) id (some ⟨file, i.contents⟩)
  refine ⟨i.tree.setParsed id (some ⟨file, i.contents⟩), i.contents, ?_, ?_⟩
  · constructor
    · exact hi.coherent.setParsed id _
    · rw [readAt?, node?_setParsed hn']
      rfl
    · exact Contents.nodup_items hi.nodup
    · rw [← hsettings]
      exact (hi.shown.spares hset fun k hk he => hi.fresh k hk (he ▸ hid)).settings
  · simp only [populate, htaken, hi.imported, hsettings]

/-- What publishing values does to the items of a schema that was just taken in. -/
theorem Reopened.assignAll {t t' : Tree} {id : NodeId} {file : Path} {schema : Schema}
    {c : Contents} {environment : Environment} (ho : t.Reopened environment id file schema t' c)
    (hnames : ((schema.items environment.build).map Item.name).Nodup)
    {r : Except Error Unit} {t'' : Tree}
    (ha : t'.assignAll
      (findings environment (c.items.zip ((schema.items environment.build).map Item.plain))) =
      (r, t'')) :
    t''.readAt? id = some ⟨file, c⟩ ∧
    (r = .ok () ↔ ∀ x ∈ (schema.items environment.build).map Item.plain, x.Adoptable environment) ∧
    (r = .ok () → ∃ ys, List.Forall₂ (ShowsItem t'') c.items ys ∧
      List.Forall₂ (fun x y => ∀ value again, x.finding? environment = some value →
        x.kind.accept value = .ok again → y = { x with user? := some again } ∧
          t''.vars.get? x.name = some again) ((schema.items environment.build).map Item.plain) ys) := by
  have hsweep := lockstep_sweep (σ := Unit) awaited_items (F := Plain.adoptFound environment)
    (f := Setting.adoptFound environment) (fun s i x => lockstep_adoptFound (s := s) environment)
    ⟨t', ()⟩ ho.coherent ho.nodup ho.items
  rw [← onTree_assignAll, Session.onTree, ha] at hsweep
  have hnames' : (((schema.items environment.build).map Item.plain).map Setting.name).Nodup := by
    rw [List.map_map]
    exact hnames
  obtain ⟨r', ys, desk, hplain, hadopted⟩ :=
    adopted_sweep environment hnames' (Session.desk ⟨t', ()⟩)
  rw [hplain] at hsweep
  cases hsweep with
  | some he =>
    obtain rfl : r' = r := he.result
    obtain rfl : desk = Session.desk ⟨t'', ()⟩ := he.desk
    refine ⟨?_, hadopted.result, fun hr => ⟨ys, he.shows t'' (.refl _ _), hadopted.settings hr⟩⟩
    obtain ⟨node, hn, hp⟩ := Option.bind_eq_some_iff.mp ho.read
    obtain ⟨node', hn', hb⟩ := he.spares.node hn (by simp)
    rw [readAt?, hn', Option.bind_some, Node.parsed?_of_bare hb, hp]

theorem accepted_of_importedValue? {environment : Environment} {item : Item} {value : String}
    (h : Intake.importedValue? environment item = .ok (some value)) :
    ∃ raw, item.kind.accept raw = .ok value := by
  unfold Intake.importedValue? at h
  split at h
  · cases hg : environment.get? item.name with
    | none => simp [hg] at h
    | some raw =>
      refine ⟨raw, ?_⟩
      simp only [hg, Item.validate] at h
      cases ha : item.kind.accept raw with
      | error reason => simp [ha] at h
      | ok accepted => simpa [ha] using h
  · cases h

/-! ## Examples -/

namespace Imports

def numberText : String := "\x7b\"N\":\x7b\"type\":\"int\",\"import\":true\x7d\x7d"

def number : Surroundings where
  files := ⟨⟨"/"⟩, [(["config.json"], .file numberText.toUTF8 false)]⟩
  environment := ⟨[("N", " 7 ")], .checked⟩

def choiceText : String :=
  "\x7b\"M\":\x7b\"type\":\"enum\",\"enum\":[\"fast\",\"safe\"],\"import\":true\x7d\x7d"

def choice : Surroundings where
  files := ⟨⟨"/"⟩, [(["config.json"], .file choiceText.toUTF8 false)]⟩
  environment := ⟨[("M", "1")], .checked⟩

def planted : Tree := plant "config.json" ⟨"/"⟩

def accepts (around : Surroundings) (check : List Item → Bool) : Bool :=
  (planted.node? root).any fun node =>
    match Schema.load around.files node.path.path with
    | .error _ => false
    | .ok schema =>
      (schema.findSome? (Intake.refusal? around.environment)).isNone &&
        check (schema.items around.environment.build)

theorem accepted (around : Surroundings) (check : List Item → Bool)
    (h : accepts around check = true) :
    ∃ node schema, planted.node? root = some node ∧
      Schema.load around.files node.path.path = .ok schema ∧
      schema.findSome? (Intake.refusal? around.environment) = none ∧
      check (schema.items around.environment.build) = true := by
  obtain ⟨node, hn, hread⟩ := Option.any_eq_true _ _ |>.mp h
  split at hread
  · cases hread
  · next schema hl =>
    obtain ⟨haccept, hcheck⟩ := Bool.and_eq_true_iff.mp hread
    exact ⟨node, schema, hn, hl, Option.isNone_iff_eq_none.mp haccept, hcheck⟩

def rejects (refused : Rejection) : Except Error Unit → Bool
  | .error (.rejected r) => decide (r = refused)
  | _ => false

theorem rejects_iff {refused : Rejection} {r : Except Error Unit} :
    rejects refused r = true ↔ r = .error (.rejected refused) := by
  constructor
  · intro h
    unfold rejects at h
    split at h
    · rw [of_decide_eq_true h]
    · cases h
  · rintro rfl
    exact decide_eq_true rfl

def isNumber : List Item → Bool
  | [item] => item.name == "N" && item.kind == .integer none &&
      match Intake.importedValue? number.environment item with
      | .ok (some value) => value == "7"
      | _ => false
  | _ => false

theorem number_of_isNumber {items : List Item} (h : isNumber items = true) :
    ∃ item, items = [item] ∧ item.name = "N" ∧ item.kind = .integer none ∧
      Intake.importedValue? number.environment item = .ok (some "7") := by
  unfold isNumber at h
  split at h
  · next item =>
    obtain ⟨h, hvalue⟩ := Bool.and_eq_true_iff.mp h
    obtain ⟨hname, hkind⟩ := Bool.and_eq_true_iff.mp h
    refine ⟨item, rfl, beq_iff_eq.mp hname, beq_iff_eq.mp hkind, ?_⟩
    split at hvalue
    · next value hv => rw [hv, beq_iff_eq.mp hvalue]
    · cases hvalue
  · cases h

end Imports

/-! ## Reading and publishing -/

/-- A schema without an entry that is refused is taken in. What the environment has for its items is
published exactly if all of it is accepted again, and the items and the variables have what comes of
that. For all kinds but choices it is the value that was accepted first. -/
theorem imports_published {t : Tree} (h : t.Reachable) (around : Surroundings) {id : NodeId}
    {node : Node} (hn : t.node? id = some node) {schema : Schema}
    (hl : Schema.load around.files node.path.path = .ok schema)
    (haccept : schema.findSome? (Intake.refusal? around.environment) = none) :
    ∃ r t' c, t.parse around id = (r, t') ∧ t'.readAt? id = some ⟨node.path.path, c⟩ ∧
      (r = .ok () ↔ ∀ item ∈ schema.items around.environment.build, ∀ value,
        Intake.importedValue? around.environment item = .ok (some value) →
          ∃ again, item.kind.accept value = .ok again) ∧
      (r = .ok () → ∀ item ∈ schema.items around.environment.build, ∀ value again,
        Intake.importedValue? around.environment item = .ok (some value) →
          item.kind.accept value = .ok again →
            (∃ i ∈ c.items, ∃ item', t'.item? i = some item' ∧
              item'.plain = { item.plain with user? := some again }) ∧
            t'.vars.get? item.name = some again) ∧
      ∀ item ∈ schema.items around.environment.build, ∀ value,
        Intake.importedValue? around.environment item = .ok (some value) →
          (∀ options, item.kind ≠ .choice options) → item.kind.accept value = .ok value := by
  obtain ⟨opened, c, ho, hp⟩ := populate_of_accepted h.rising h.coherent hn node.path.path haccept
  have hnames : ((schema.items around.environment.build).map Item.name).Nodup :=
    (Schema.nodup_names_of_load hl).sublist (schema.names_items _)
  have hparse : t.parse around id = opened.assignAll
      (findings around.environment
        (c.items.zip ((schema.items around.environment.build).map Item.plain))) := by
    rw [parse, hn]
    simp only [hl]
    exact hp
  obtain ⟨hread, hresult, hvalues⟩ := ho.assignAll hnames rfl
  refine ⟨_, _, c, hparse, hread, ?_, fun hr item hi value again hf ha => ?_, ?_⟩
  · rw [hresult, List.forall_mem_map]
    simp only [Setting.Adoptable, finding?_plain, Item.kind_plain]
  · obtain ⟨ys, hshown, hadopted⟩ := hvalues hr
    obtain ⟨y, hy, hset⟩ := exists_of_forall₂ hadopted (List.mem_map_of_mem hi)
    obtain ⟨rfl, hvalue⟩ := hset value again (finding?_plain.mpr hf) ha
    obtain ⟨i, hmem, hshows⟩ := exists_of_forall₂ hshown.flip hy
    exact ⟨⟨i, hmem, (Tree.part?_item _ i _).mp hshows⟩, hvalue⟩
  · intro item _ value hf hk
    obtain ⟨raw, hraw⟩ := accepted_of_importedValue? hf
    exact Kind.accept_of_accepted hraw hk

theorem imports_published_number :
    Imports.planted.Reachable ∧
      (Imports.planted.parse Imports.number root).1 = .ok () ∧
      (Imports.planted.parse Imports.number root).2.vars.get? "N" = some "7" := by
  have hreach : Imports.planted.Reachable := .plant _ _
  obtain ⟨node, schema, hn, hl, haccept, hcheck⟩ :=
    Imports.accepted Imports.number Imports.isNumber (by decide +kernel)
  obtain ⟨item, hitems, hname, hkind, hfound⟩ := Imports.number_of_isNumber hcheck
  obtain ⟨r, t', c, hp, -, hresult, hvalues, hkept⟩ :=
    imports_published hreach Imports.number hn hl haccept
  have hagain : ∀ i ∈ schema.items Imports.number.environment.build, ∀ value,
      Intake.importedValue? Imports.number.environment i = .ok (some value) →
        i.kind.accept value = .ok value := by
    intro i hi value hv
    refine hkept i hi value hv fun options => ?_
    obtain rfl : i = item := by simpa [hitems] using hi
    simp [hkind]
  have hmem : item ∈ schema.items Imports.number.environment.build := by simp [hitems]
  have hr : r = .ok () := hresult.mpr fun i hi value hv => ⟨value, hagain i hi value hv⟩
  have hvalue := (hvalues hr item hmem "7" "7" hfound (hagain item hmem "7" hfound)).2
  rw [hname] at hvalue
  rw [hp]
  exact ⟨hreach, hr, hvalue⟩

/-- An option that the environment names by its index is accepted when its item comes in, and then it
is refused: the node is read, but the item has no value. -/
theorem imports_refused_choice :
    Imports.planted.Reachable ∧
      (∃ node schema, Imports.planted.node? root = some node ∧
        Schema.load Imports.choice.files node.path.path = .ok schema ∧
        schema.findSome? (Intake.refusal? Imports.choice.environment) = none ∧
        (schema.items Imports.choice.environment.build).all (fun item => item.imports) = true) ∧
      (Imports.planted.parse Imports.choice root).1 =
        .error (.rejected ⟨"M", .notIndex 1⟩) ∧
      ((Imports.planted.parse Imports.choice root).2.readAt? root).isSome = true ∧
      (Imports.planted.parse Imports.choice root).2.vars.get? "M" = none := by
  have hfailed : Imports.rejects ⟨"M", .notIndex 1⟩
      (Imports.planted.parse Imports.choice root).1 = true := by
    decide +kernel
  exact ⟨.plant _ _,
    Imports.accepted Imports.choice (fun items => items.all fun item => item.imports)
      (by decide +kernel),
    Imports.rejects_iff.mp hfailed, by decide +kernel, by decide +kernel⟩

end Tree

end MakeConfig
