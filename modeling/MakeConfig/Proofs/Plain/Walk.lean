import MakeConfig.Tree.Configure

/-! # The plain walk

A walk that keeps the values of variables and what it has read, and nothing else. Nobody watches
a variable and nothing is noted: requirements and paths are evaluated when they are looked at.
-/

namespace MakeConfig

universe u

namespace Plain

/-! ## What is read -/

structure Place where
  raw : String
  origin : Path

/-- An item as its schema has it, with the value that it was given. -/
structure Setting where
  name : String
  kind : Kind
  default? : Option String
  user? : Option String
  prompt : String
  help : List String
  depends : Requirements
  forced : Bool
  imports : Bool
  generates : OrderedMap Derivation

structure Site where
  name : String
  path : Place
  depends : Requirements

structure Makefile where
  name : String
  path : Place

structure Checkout where
  name : String
  directory : Place
  out : Place
  url? : Option String
  manifest : String
  build : List String

/-- What comes of an entry of a schema. -/
inductive Part where
  | setting (x : Setting)
  | site (x : Site)
  | makefile (x : Makefile)
  | checkout (x : Checkout)

/-- What comes of a schema, each kind in the order of the document. -/
structure Sheet where
  settings : List Setting
  sites : List Site
  makefiles : List Makefile
  checkouts : List Checkout

/-- What a walk has read from a site on. -/
inductive Outline where
  | unread (site : Site)
  | read (site : Site) (file : Path) (settings : List Setting) (below : List Outline)
      (makefiles : List Makefile) (checkouts : List Checkout)

end Plain

open Plain

def Item.plain (i : Item) : Setting :=
  { i with }

@[simp] theorem Item.kind_plain (i : Item) : i.plain.kind = i.kind := rfl

@[simp] theorem Item.default?_plain (i : Item) : i.plain.default? = i.default? := rfl

@[simp] theorem Item.depends_plain (i : Item) : i.plain.depends = i.depends := rfl

def Binding.place (b : Binding) : Place := ⟨b.raw, b.origin⟩

def Node.site (n : Node) : Site := ⟨n.name, n.path.place, n.depends⟩

def Recipe.plain (r : Recipe) : Makefile := ⟨r.name, r.path.place⟩

def Repo.plain (r : Repo) : Checkout :=
  { r with directory := r.directory.place, out := r.out.place }

namespace Plain

/-! ## Evaluation -/

/-- A requirement is met by the very text it names. -/
def meets (values : OrderedMap String) (name : String) : Json → Bool
  | .string expected => values.get? name == some expected
  | _ => false

def meetsAll (values : OrderedMap String) (required : Requirements) : Bool :=
  required.entries.all fun (name, expected) => meets values name expected

def Place.file (p : Place) (values : OrderedMap String) : Path :=
  p.origin.joinNormal (Template.fill values.get? p.raw)

/-! ## Reading -/

def Setting.found? (environment : Environment) (x : Setting) :
    Except Rejection (Option String) :=
  if x.imports then
    match environment.get? x.name with
    | none => .ok none
    | some raw =>
      match x.kind.accept raw with
      | .error reason => .error ⟨x.name, reason⟩
      | .ok value => .ok (some value)
  else .ok none

def Part.ofEntry (environment : Environment) (base : Path) : String × Entry → Except Error Part
  | (name, .item typeName spec) =>
    match Item.ofSpec environment.build name typeName spec with
    | .error e => .error e
    | .ok item =>
      match item.plain.found? environment with
      | .error r => .error (.rejected r)
      | .ok _ => .ok (.setting item.plain)
  | (name, .child spec) => .ok (.site ⟨name, ⟨spec.path, base⟩, spec.depends⟩)
  | (name, .recipe spec) => .ok (.makefile ⟨name, ⟨spec.path, base⟩⟩)
  | (name, .repo spec) =>
    .ok (.checkout { spec with
      name, directory := ⟨spec.path?.getD name, base⟩, out := ⟨spec.out, base⟩ })

namespace Sheet

def empty : Sheet := ⟨[], [], [], []⟩

def add (sheet : Sheet) : Part → Sheet
  | .setting x => { sheet with settings := sheet.settings ++ [x] }
  | .site x => { sheet with sites := sheet.sites ++ [x] }
  | .makefile x => { sheet with makefiles := sheet.makefiles ++ [x] }
  | .checkout x => { sheet with checkouts := sheet.checkouts ++ [x] }

/-- Add what comes of entries. The first that is refused spoils the sheet. -/
def addAll (environment : Environment) (base : Path) (sheet : Sheet) : Schema → Except Error Sheet
  | [] => .ok sheet
  | entry :: entries =>
    match Part.ofEntry environment base entry with
    | .error e => .error e
    | .ok part => addAll environment base (sheet.add part) entries

end Sheet

def Site.read (around : Surroundings) (values : OrderedMap String) (site : Site) :
    Except Error (Path × Sheet) :=
  let file := site.path.file values
  match Schema.load around.files file with
  | .error e => .error e
  | .ok schema =>
    (Sheet.empty.addAll around.environment (file.parent?.getD ⟨""⟩) schema).map (file, ·)

/-! ## Walking -/

/-- The values of variables, and the state of the dialog. -/
structure Desk (σ : Type u) where
  values : OrderedMap String
  dialog : σ

/-- How a run ended, what it made of its subject and what it left, unless it runs out of steps. -/
abbrev Outcome (σ : Type u) (γ : Type) : Type u := Option (Except Error Unit × γ × Desk σ)

variable {σ : Type u} {α β γ δ : Type}

def Outcome.map (f : γ → δ) (o : Outcome σ γ) : Outcome σ δ :=
  Option.map (fun p => (p.1, f p.2.1, p.2.2)) o

def andThen (first : Outcome σ γ) (stop : γ → δ) (second : γ → Desk σ → Outcome σ δ) :
    Outcome σ δ :=
  match first with
  | none => none
  | some (.error e, y, s) => some (.error e, stop y, s)
  | some (.ok (), y, s) => second y s

def sweep (rest : α → β) (f : α → Desk σ → Outcome σ β) : List α → Desk σ → Outcome σ (List β)
  | [], s => some (.ok (), [], s)
  | x :: xs, s =>
    andThen (f x s) (fun y => y :: xs.map rest) fun y s => (sweep rest f xs s).map (y :: ·)

namespace Setting

def assign (raw : String) (x : Setting) (s : Desk σ) : Except Error Unit × Setting × Desk σ :=
  match x.kind.accept raw with
  | .error reason => (.error (.rejected ⟨x.name, reason⟩), x, s)
  | .ok value =>
    (.ok (), { x with user? := some value }, { s with values := s.values.insert x.name value })

def adoptDefault (x : Setting) (s : Desk σ) : Except Error Unit × Setting × Desk σ :=
  match x.default? with
  | none => (.error (.flawed x.name .nothingToAdopt), x, s)
  | some raw => x.assign raw s

def finding? (environment : Environment) (x : Setting) : Option String :=
  (x.found? environment).toOption.join

def adoptFound (environment : Environment) (x : Setting) (s : Desk σ) : Outcome σ Setting :=
  match x.finding? environment with
  | none => some (.ok (), x, s)
  | some value => some (x.assign value s)

/-- The item as a dialog sees it. -/
def whole (x : Setting) : Item :=
  { x with observed := ∅, visible := true }

def ask (d : Dialog σ) : Nat → Option Rejection → Setting → Desk σ → Outcome σ Setting
  | 0, _, _, _ => none
  | steps + 1, last, x, s =>
    match d.ask x.whole last s.dialog with
    | (.error e, dialog) => some (.error e, x, { s with dialog })
    | (.ok answer?, dialog) =>
      match answer? <|> x.user? <|> x.default? with
      | none => some (.ok (), x, { s with dialog })
      | some raw =>
        match x.assign raw { s with dialog } with
        | (.error (.rejected r), x, s) =>
          if d.retries dialog then ask d steps (some r) x s
          else some (.error (.rejected r), x, s)
        | ended => some ended

def visit (d : Dialog σ) (steps : Nat) (x : Setting) (s : Desk σ) : Outcome σ Setting :=
  if !meetsAll s.values x.depends then some (.ok (), x, s)
  else if x.forced then some (x.adoptDefault s)
  else x.ask d steps none s

end Setting

/-- Go through a sheet: values from the environment are given to the items, then the items are
visited, and then the children. -/
def through (environment : Environment) (d : Dialog σ) (steps : Nat)
    (children : Site → Desk σ → Outcome σ Outline) (site : Site) (file : Path) (sheet : Sheet)
    (s : Desk σ) : Outcome σ Outline :=
  let outline settings below := .read site file settings below sheet.makefiles sheet.checkouts
  let stop settings := outline settings (sheet.sites.map .unread)
  andThen (sweep id (Setting.adoptFound environment) sheet.settings s) stop fun settings s =>
    andThen (sweep id (Setting.visit d steps) settings s) stop fun settings s =>
      (sweep .unread children sheet.sites s).map (outline settings)

def enter (around : Surroundings) (inside : Path → Sheet → Desk σ → Outcome σ Outline)
    (site : Site) (s : Desk σ) : Outcome σ Outline :=
  match site.read around s.values with
  | .error e => some (.error e, .unread site, s)
  | .ok (file, sheet) => inside file sheet s

/-- Configure a site and all that is below it. -/
def configure (around : Surroundings) (d : Dialog σ) : Nat → Site → Desk σ → Outcome σ Outline
  | 0, _, _ => none
  | steps + 1, site, s =>
    if !meetsAll s.values site.depends then some (.ok (), .unread site, s)
    else
      enter around (through around.environment d steps (configure around d steps) site) site s

end Plain

end MakeConfig
