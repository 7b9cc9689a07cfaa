import MakeConfig.Proofs.Session.Unanswered
import MakeConfig.Proofs.Text.Lines

/-! # Blank lines

A blank line at the prompt asks for the default, and is turned down if there is none. An item that is
asked in vain falls back on its value first and on its default after that. So the two go apart where
an item has a value and no default.
-/

namespace MakeConfig

universe u

namespace Item

variable {item : Item} {line : String}

/-- An empty default is none. -/
def HasDefault (item : Item) : Prop := ∃ default, item.default? = some default ∧ default ≠ ""

/-- There is something to take for an item when there is no answer. -/
def HasFallback (item : Item) : Prop := item.user?.isSome = true ∨ item.HasDefault

theorem isBlankDefault_eq_false_iff : isBlankDefault item.default? = false ↔ item.HasDefault := by
  unfold isBlankDefault HasDefault
  cases item.default? <;> simp

instance : Decidable item.HasDefault :=
  decidable_of_iff (isBlankDefault item.default? = false) isBlankDefault_eq_false_iff

theorem interpret_of_blanks (item : Item) (h : Text.Blanks line.toList) :
    item.interpret line = if item.HasDefault then .takeDefault else .noDefault := by
  simp only [interpret, Text.trim_eq_nil_iff.mpr h, ← isBlankDefault_eq_false_iff]
  cases isBlankDefault item.default? <;> rfl

end Item

namespace Session

variable {σ : Type u} {d : Dialog σ} {t : Tree} {id : ItemId} {item : Item}
  {last : Option Rejection} {s s' : σ}

/-- What comes of an answer that is refused: the tree stays as it is, and the question is put again if
the dialog retries. -/
def refused (d : Dialog σ) (id : ItemId) (n : Nat) (t : Tree) (s : σ) (r : Rejection) :
    Option (Except Error Unit × Session σ) :=
  if d.retries s then ask d id n (some r) ⟨t, s⟩ else some (.error (.rejected r), ⟨t, s⟩)

def answered (d : Dialog σ) (id : ItemId) (item : Item) (n : Nat) (t : Tree) (s : σ) (raw : String) :
    Option (Except Error Unit × Session σ) :=
  match item.validate raw with
  | .ok _ => some (.ok (), ⟨(t.assign id raw).2, s⟩)
  | .error r => refused d id n t s r

theorem ask_of_silence (hi : t.item? id = some item) (hs : d.ask item last s = (.ok none, s'))
    (n : Nat) : ask d id (n + 1) last ⟨t, s⟩ = match item.unanswered? with
      | some raw => answered d id item n t s' raw
      | none => some (.ok (), ⟨t, s'⟩) := by
  cases hu : item.unanswered? with
  | some raw => exact ask_of_offers hi ⟨none, hs, hu⟩ n
  | none =>
    have hnone : (none <|> item.unanswered?) = none := hu
    simp only [ask, hi, hs, hnone]

theorem ask_of_no_fallback (hi : t.item? id = some item) (hs : d.ask item last s = (.ok none, s'))
    (h : ¬ item.HasFallback) (n : Nat) :
    ask d id (n + 1) last ⟨t, s⟩ = some (.ok (), ⟨t, s'⟩) ∨
      ∃ r, ask d id (n + 1) last ⟨t, s⟩ = refused d id n t s' r := by
  obtain ⟨huser, hdefault⟩ := not_or.mp h
  have hu : item.unanswered? = item.default? := by
    rw [Item.unanswered?, Option.not_isSome_iff_eq_none.mp huser]
    rfl
  rw [ask_of_silence hi hs, hu]
  cases hd : item.default? with
  | none => exact .inl rfl
  | some default =>
    obtain rfl : default = "" := by_contra fun hne => hdefault ⟨default, hd, hne⟩
    obtain ⟨reason, hr⟩ := item.kind.accept_empty
    refine .inr ⟨⟨item.name, reason⟩, ?_⟩
    simp only [answered, Item.validate, hr]

/-! ## Blank lines and questions asked in vain -/

/-- A blank line is for the default alone, and a question asked in vain is for the value first. They
agree on whether there is something to take exactly if there is no value, or a default as well. -/
theorem blank_line_agrees_iff (hi : t.item? id = some item) {line : String}
    (hb : Text.Blanks line.toList) :
    item.interpret line = (if item.HasDefault then .takeDefault else .noDefault) ∧
    (∀ {σ : Type u} (d : Dialog σ) (last : Option Rejection) (s s' : σ) (n : Nat),
      d.ask item last s = (.ok none, s') →
        (∀ value, item.user? = some value →
          ask d id (n + 1) last ⟨t, s⟩ = answered d id item n t s' value) ∧
        (item.user? = none → ∀ default, item.default? = some default →
          ask d id (n + 1) last ⟨t, s⟩ = answered d id item n t s' default) ∧
        (¬ item.HasFallback → ask d id (n + 1) last ⟨t, s⟩ = some (.ok (), ⟨t, s'⟩) ∨
          ∃ r, ask d id (n + 1) last ⟨t, s⟩ = refused d id n t s' r)) ∧
    ((item.interpret line = .takeDefault ↔ item.HasFallback) ↔
      (item.user?.isSome = true → item.HasDefault)) ∧
    ((item.interpret line = .noDefault ↔ ¬ item.HasFallback) ↔
      (item.user?.isSome = true → item.HasDefault)) := by
  have hline := item.interpret_of_blanks hb
  refine ⟨hline, ?_, ?_, ?_⟩
  · intro σ d last s s' n hs
    refine ⟨fun value hv => ?_, fun huser default hd => ?_, fun h => ask_of_no_fallback hi hs h n⟩
    · rw [ask_of_silence hi hs, Item.unanswered?, hv]
      rfl
    · rw [ask_of_silence hi hs, Item.unanswered?, huser, hd]
      rfl
  all_goals
    rw [hline]
    unfold Item.HasFallback
    by_cases hd : item.HasDefault <;> simp [hd]

theorem blank_line_agrees_iff_number :
    ∃ item, (Silent.opened Silent.number).tree.item? ⟨0⟩ = some item ∧
      item.user? = some "7" ∧ item.default? = some "3" ∧
      Text.Blanks " \t".toList ∧ item.interpret " \t" = .takeDefault ∧ item.HasFallback ∧
      ask Dialog.defaults ⟨0⟩ 1 none (Silent.opened Silent.number) =
        answered Dialog.defaults ⟨0⟩ item 0 (Silent.opened Silent.number).tree () "7" := by
  obtain ⟨-, item, hcheck, hleft⟩ := Silent.leftUnanswered_of_opens Silent.number
    (fun item => decide (item.user? = some "7" ∧ item.default? = some "3")) (by decide +kernel)
  obtain ⟨huser, hdefault⟩ := of_decide_eq_true hcheck
  have hi := (hleft "7" huser).live
  have hblanks : Text.Blanks " \t".toList := by decide
  have hd : item.HasDefault := ⟨"3", hdefault, by decide⟩
  obtain ⟨hline, hask, hagree, -⟩ := blank_line_agrees_iff hi hblanks
  rw [if_pos hd] at hline
  obtain ⟨hvalue, -⟩ := hask Dialog.defaults none () () 0 rfl
  exact ⟨item, hi, huser, hdefault, hblanks, hline, (hagree.mpr fun _ => hd).mp hline,
    hvalue "7" huser⟩

namespace Bare

def schemaText : String := "\x7b\"N\":\x7b\"type\":\"int\",\"import\":true\x7d\x7d"

def around : Surroundings where
  files := ⟨⟨"/"⟩, [(["config.json"], .file schemaText.toUTF8 false)]⟩
  environment := ⟨[("N", "7")], .checked⟩

end Bare

/-- A blank line is turned down, though there is a number to take. -/
theorem blank_line_refused_bare :
    (Silent.opened Bare.around).tree.Reachable ∧
      ∃ item, (Silent.opened Bare.around).tree.item? ⟨0⟩ = some item ∧
        Text.Blanks " \t".toList ∧ item.interpret " \t" = .noDefault ∧
        item.user? = some "7" ∧ item.HasFallback ∧
        ask Dialog.defaults ⟨0⟩ 1 none (Silent.opened Bare.around) =
          some (.ok (), ⟨((Silent.opened Bare.around).tree.assign ⟨0⟩ "7").2, ()⟩) := by
  obtain ⟨hcomes, item, hcheck, hleft⟩ := Silent.leftUnanswered_of_opens Bare.around
    (fun item => decide (item.user? = some "7" ∧ item.kind = .integer none ∧
      item.interpret " \t" = .noDefault)) (by decide +kernel)
  obtain ⟨huser, hkind, hline⟩ := of_decide_eq_true hcheck
  have hi := (hleft "7" huser).live
  refine ⟨hcomes.reachable (.plant _ _), item, hi, by decide, hline, huser,
    .inl (by rw [huser]; rfl), ?_⟩
  have hunanswered : item.unanswered? = some "7" := by
    rw [Item.unanswered?, huser]
    rfl
  have haccepts : Kind.accept "7" (.integer none) = .ok "7" := by decide +kernel
  exact (ask_of_silence hi rfl 0).trans (by
    simp only [hunanswered, answered, Item.validate, hkind, haccepts])

end Session

end MakeConfig
