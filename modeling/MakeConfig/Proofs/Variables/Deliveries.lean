import MakeConfig.Proofs.History
import MakeConfig.Proofs.Lists
import MakeConfig.Variables

/-! # Deliveries

Which keys watch a variable, in which order they do, and what the variables are is told by what has
been done so far. A key watches a variable since it was made to, until it is taken off, alone or from
all variables, or all is given up; a second request while it watches is in vain. A change is delivered
to these keys and to no others, one after the other, and they find the new value in place. A copy
shares the past of what it was made of, and from then on each goes its own way.
-/

namespace MakeConfig

universe u v

open History

namespace Variables

/-- What can be done with variables. -/
inductive Operation (κ : Type u) where
  | set (name value : String)
  | watch (key : κ) (name : String)
  | unwatch (key : κ) (name : String)
  | forget (key : κ)
  | reset
  deriving DecidableEq

variable {κ : Type u} {σ : Type v}

/-- What becomes of a state when a change is delivered: the key, the name and the new value, and the
variables at that moment. -/
abbrev Sink (κ : Type u) (σ : Type v) := κ → String → String → Variables κ → σ → σ

def Sink.deliver (sink : Sink κ σ) (name value : String) (s : Variables κ) (state : σ) (key : κ) :
    σ :=
  sink key name value s state

namespace Operation

def Starts (name : String) (key : κ) (op : Operation κ) : Prop := op = .watch key name

def Stops (name : String) (key : κ) (op : Operation κ) : Prop :=
  op = .unwatch key name ∨ op = .forget key ∨ op = .reset

def Sets (name : String) (op : Operation κ) : Prop := ∃ value, op = .set name value

def Clears (_ : String) (op : Operation κ) : Prop := op = .reset

theorem not_stops_of_starts (name : String) (key : κ) (op : Operation κ)
    (h : op.Starts name key) : ¬ op.Stops name key := by
  rintro (he | he | he) <;> cases h.symm.trans he

theorem not_clears_of_sets (name : String) (op : Operation κ) (h : op.Sets name) :
    ¬ op.Clears name := by
  obtain ⟨value, rfl⟩ := h
  rintro ⟨⟩

variable [DecidableEq κ]

def apply (sink : Sink κ σ) (s : Variables κ) (state : σ) : Operation κ → Variables κ × σ
  | set name value => (s.assign name value (sink.deliver name value) state).2
  | watch key name => (s.watch key name, state)
  | unwatch key name => (s.unwatch key name, state)
  | forget key => (s.forget key, state)
  | reset => (empty, state)

end Operation

open Operation

/-! ## What the past tells -/

/-- The latest value of a variable since all was given up. -/
def Latest (name value : String) (history : List (Operation κ)) : Prop :=
  UnderWay (· = .set name value) (fun op => op.Clears name ∨ op.Sets name) history

/-- Variables are what has been done to them. -/
structure Told (history : List (Operation κ)) (s : Variables κ) : Prop where
  /-- The keys that watch a variable, as they began to. -/
  watching : ∀ name, Lists (Starts name) (Stops name) history (s.watching name)
  /-- The variables that hold a value, as they were first set. -/
  names : Lists Sets Clears history s.values.keys
  value : ∀ name value, (name, value) ∈ s.values.entries ↔ Latest name value history

theorem Told.get? {history : List (Operation κ)} {s : Variables κ} (h : Told history s)
    (name value : String) : s.get? name = some value ↔ Latest name value history := by
  rw [← h.value]
  exact (s.values.mem_entries_iff name value).symm

theorem Told.nodup {history : List (Operation κ)} {s : Variables κ} (h : Told history s)
    (name : String) : (s.watching name).Nodup :=
  (h.watching name).nodup (not_stops_of_starts name)

theorem told_empty : Told [] (empty : Variables κ) where
  watching _ := .nil
  names := .nil
  value _ _ := ⟨fun h => absurd h List.not_mem_nil, fun h => absurd h not_underWay_nil⟩

section Step

variable [DecidableEq κ] {history : List (Operation κ)} {s : Variables κ}

/-! ## One operation -/

theorem Told.watching_apply (h : Told history s) (sink : Sink κ σ) (state : σ) (op : Operation κ)
    (name : String) :
    Lists (Starts name) (Stops name) (history ++ [op]) ((op.apply sink s state).1.watching name) := by
  have hbefore := h.watching name
  cases op with
  | set other value =>
    simp only [Operation.apply, assign, watching_set]
    exact hbefore.unchanged (by simp [Starts]) (by simp [Stops])
  | watch key other =>
    simp only [Operation.apply, watching_watch]
    by_cases hn : name = other
    · subst hn
      have hstarts : ∀ k, Starts name k (.watch key name) ↔ k = key := by
        simp [Starts, @eq_comm _ key]
      have hstarted := hbefore.started (not_stops_of_starts name) hstarts (by simp [Stops])
      rw [← ite_not] at hstarted
      simpa only [true_and] using hstarted
    · simp only [hn, false_and, if_false]
      exact hbefore.unchanged (by simp [Starts, Ne.symm hn]) (by simp [Stops])
  | unwatch key other =>
    simp only [Operation.apply, watching_unwatch]
    by_cases hn : name = other
    · subst hn
      rw [if_pos rfl]
      exact hbefore.ended (by simp [Starts]) _ (by simp [Stops, @eq_comm _ key])
    · rw [if_neg hn]
      exact hbefore.unchanged (by simp [Starts]) (by simp [Stops, Ne.symm hn])
  | forget key =>
    simp only [Operation.apply, watching_forget]
    exact hbefore.ended (by simp [Starts]) _ (by simp [Stops, @eq_comm _ key])
  | reset => exact hbefore.cleared (by simp [Starts]) (by simp [Stops])

theorem Told.names_apply (h : Told history s) (sink : Sink κ σ) (state : σ) (op : Operation κ) :
    Lists Sets Clears (history ++ [op]) (op.apply sink s state).1.values.keys := by
  have hbefore := h.names
  cases op with
  | set name value =>
    simp only [Operation.apply, assign, values_set, OrderedMap.keys_insert]
    exact hbefore.started not_clears_of_sets (by simp [Sets, eq_comm]) (by simp [Clears])
  | watch key name | unwatch key name | forget key =>
    exact hbefore.unchanged (by simp [Sets]) (by simp [Clears])
  | reset => exact hbefore.cleared (by simp [Sets]) (by simp [Clears])

theorem Told.get?_apply (h : Told history s) (sink : Sink κ σ) (state : σ) (op : Operation κ)
    (name value : String) :
    (op.apply sink s state).1.get? name = some value ↔ Latest name value (history ++ [op]) := by
  have hbefore := h.get? name value
  unfold Latest at hbefore ⊢
  rw [underWay_concat, ← hbefore]
  cases op with
  | set other new =>
    simp only [Operation.apply, assign, get?_set]
    by_cases hn : name = other
    · simp [hn, Clears, Sets]
    · simp [hn, Ne.symm hn, Clears, Sets]
  | watch key other | unwatch key other | forget key =>
    simp only [Clears, Sets, reduceCtorEq, exists_false, or_self, not_false_iff, false_or, and_true]
    rfl
  | reset => simp [Operation.apply, Clears]

theorem Told.apply (h : Told history s) (sink : Sink κ σ) (state : σ) (op : Operation κ) :
    Told (history ++ [op]) (op.apply sink s state).1 where
  watching := h.watching_apply sink state op
  names := h.names_apply sink state op
  value name value := by
    rw [← h.get?_apply sink state op]
    exact (op.apply sink s state).1.values.mem_entries_iff name value

end Step

/-! ## Copies -/

/-- What can be done with variables and copies of them, which are numbered as they are made. -/
inductive Command (κ : Type u) where
  | on (i : Nat) (op : Operation κ)
  | copy (i : Nat)
  deriving DecidableEq

def Command.note : List (List (Operation κ)) → Command κ → List (List (Operation κ))
  | lives, .on i op => lives.modify i (· ++ [op])
  | lives, .copy i => lives ++ lives[i]?.toList

/-- What has been done to each, and before that to what it was copied from. -/
def lives (commands : List (Command κ)) : List (List (Operation κ)) :=
  commands.foldl Command.note [[]]

variable [DecidableEq κ]

/-- A command for what does not exist is in vain. -/
def Command.run (sink : Sink κ σ) : List (Variables κ) × σ → Command κ → List (Variables κ) × σ
  | (all, state), .on i op =>
    (all.modify i fun s => (op.apply sink s state).1,
      all[i]?.elim state fun s => (op.apply sink s state).2)
  | (all, state), .copy i => (all ++ all[i]?.toList, state)

def perform (sink : Sink κ σ) (state : σ) (commands : List (Command κ)) : List (Variables κ) × σ :=
  commands.foldl (Command.run sink) ([empty], state)

theorem told_perform (sink : Sink κ σ) (state : σ) (commands : List (Command κ)) :
    List.Forall₂ Told (lives commands) (perform sink state commands).1 := by
  unfold lives perform
  induction commands using List.reverseRecOn with
  | nil => exact .cons told_empty .nil
  | append_singleton commands command ih =>
    rw [List.foldl_concat, List.foldl_concat]
    cases command with
    | on i op => exact forall₂_modify ih (fun _ _ h => h.apply sink _ op) i
    | copy i => exact List.rel_append ih (forall₂_getElem? ih i)

/-- The past tells which keys watch and since when, and what the variables are and in which order.
A change of a variable is delivered to the keys that watch it, once to each and in that order, with
the new value in place. What is no change is not delivered, and leaves all as it is. -/
theorem told_and_delivered (sink : Sink κ σ) (state : σ) (commands : List (Command κ)) :
    List.Forall₂
      (fun life s => Told life s ∧ (∀ name, (s.watching name).Nodup) ∧ s.values.keys.Nodup)
      (lives commands) (perform sink state commands).1 ∧
    ∀ (s : Variables κ) (t : σ) (name value : String), ∃ changed s' t',
      s.assign name value (sink.deliver name value) t = (changed, s', t') ∧
      (changed = true ↔ s.get? name = none ∨ ∃ old, old ≠ value ∧ s.get? name = some old) ∧
      (changed = true →
        t' = (s.watching name).foldl (fun t key => sink key name value s' t) t ∧
        s'.get? name = some value ∧ (∀ other, other ≠ name → s'.get? other = s.get? other) ∧
        ∀ other, s'.watching other = s.watching other) ∧
      (changed = false → s' = s ∧ t' = t) := by
  constructor
  · refine (told_perform sink state commands).imp ?_
    exact fun life s h => ⟨h, h.nodup, s.values.nodup⟩
  · intro s t name value
    cases hc : s.changes name value with
    | true =>
      refine ⟨true, _, _, assign_of_changes hc _ t, ?_, ?_, by simp⟩
      · simpa using (changes_iff s name value).mp hc
      · refine fun _ => ⟨rfl, ?_, fun other ho => ?_, fun other => rfl⟩
        · rw [get?_write, if_pos rfl]
        · rw [get?_write, if_neg ho]
    | false =>
      refine ⟨false, s, t, assign_of_not_changes hc _ t, ?_, by simp, fun _ => ⟨rfl, rfl⟩⟩
      rw [← changes_iff, hc]

/-- A key that comes back is last, a second request is in vain, and the copy has watchers of its
own. -/
theorem told_and_delivered_copied :
    let record : Sink Nat (List (Nat × String × Option String)) := fun key _ value s seen =>
      seen ++ [(key, value, s.get? "A")]
    let commands := [.on 0 (.watch 3 "A"), .on 0 (.watch 1 "A"), .on 0 (.watch 3 "A"),
      .on 0 (.set "A" "x"), .on 0 (.set "B" "y"), .on 0 (.set "A" "x"), .on 0 (.unwatch 3 "A"),
      .on 0 (.watch 3 "A"), .copy 0, .on 1 (.forget 1), .on 0 (.set "A" "z")]
    (perform record [] commands).1.map (fun s => (s.watching "A", s.values.entries)) =
      [([1, 3], [("A", "z"), ("B", "y")]), ([3], [("A", "x"), ("B", "y")])] ∧
    (perform record [] commands).2 =
      [(3, "x", some "x"), (1, "x", some "x"), (1, "z", some "z"), (3, "z", some "z")] ∧
    List.Forall₂
      (fun life s => Told life s ∧ (∀ name, (s.watching name).Nodup) ∧ s.values.keys.Nodup)
      (lives commands) (perform record [] commands).1 :=
  ⟨by decide, by decide, (told_and_delivered _ [] _).1⟩

end Variables

end MakeConfig
