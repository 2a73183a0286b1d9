import CardDavMcp.Library.Runs
import Mathlib.Logic.Function.Basic

namespace CardDavMcp.Library.Gate

open Runs

variable {ι L A B S : Type} [DecidableEq ι]

/-- Tasks at some stage each, the one that holds the gate, and what they share. -/
structure Gated (ι L S : Type) where
  stage : ι → L
  gate : Option ι
  shared : S

/-- What a step of a task does with the gate. Leaving without holding it is
allowed and does nothing. -/
inductive Move
  | stay | take | leave
deriving DecidableEq, Repr

/-- A step of one task, or a step of something that is no task. -/
inductive Event (ι A B : Type)
  | task (i : ι) (a : A)
  | outside (b : B)
deriving DecidableEq, Repr

/-- How tasks go on, and what else may happen to what they share. -/
structure Protocol (ι L A B S : Type) where
  next : ι → A → L → S → Option (L × S × Move)
  outside : B → S → Option S

def release (i : ι) (gate : Option ι) : Option ι := if gate = some i then none else gate

/-- One step. The gate can be taken only while nobody holds it. -/
def Protocol.step (p : Protocol ι L A B S) (s : Gated ι L S) : Event ι A B → Option (Gated ι L S)
  | .outside b => (p.outside b s.shared).map fun shared => { s with shared }
  | .task i a =>
    match p.next i a (s.stage i) s.shared with
    | none => none
    | some (l, shared, .stay) => some ⟨Function.update s.stage i l, s.gate, shared⟩
    | some (l, shared, .take) =>
      if s.gate = none then some ⟨Function.update s.stage i l, some i, shared⟩ else none
    | some (l, shared, .leave) => some ⟨Function.update s.stage i l, release i s.gate, shared⟩

def Protocol.Step (p : Protocol ι L A B S) (s : Gated ι L S) (ev : Event ι A B)
    (s' : Gated ι L S) : Prop :=
  p.step s ev = some s'

/-- The state after the given steps, if each of them is possible. -/
def Protocol.after (p : Protocol ι L A B S) (s : Gated ι L S) : List (Event ι A B) →
    Option (Gated ι L S)
  | [] => some s
  | ev :: log => (p.step s ev).bind fun s' => p.after s' log

theorem run_of_after {p : Protocol ι L A B S} {s s' : Gated ι L S} {log : List (Event ι A B)}
    (h : p.after s log = some s') : Run p.Step s log s' := by
  induction log generalizing s with
  | nil =>
    obtain rfl := Option.some.inj h
    exact .nil
  | cons ev log ih =>
    obtain ⟨t, ht, hrest⟩ := Option.bind_eq_some_iff.mp h
    exact .cons ht (ih hrest)

/-- Tasks are inside only from a step that takes the gate to one that leaves it. -/
structure Protocol.Disciplined (p : Protocol ι L A B S) (inside : L → Prop) : Prop where
  stay : ∀ i a l x l' x', p.next i a l x = some (l', x', .stay) → inside l' → inside l
  leave : ∀ i a l x l' x', p.next i a l x = some (l', x', .leave) → ¬ inside l'

/-- Whoever is inside holds the gate. -/
def Guarded (inside : L → Prop) (s : Gated ι L S) : Prop :=
  ∀ i, inside (s.stage i) → s.gate = some i

variable {p : Protocol ι L A B S} {inside : L → Prop} {s s' start : Gated ι L S} {i j : ι}
  {a : A} {b : B} {log : List (Event ι A B)} {ev : Event ι A B}

omit [DecidableEq ι] in
theorem Guarded.unique (h : Guarded inside s) (hi : inside (s.stage i))
    (hj : inside (s.stage j)) : i = j := by
  have hgate := h i hi
  rw [h j hj, Option.some.injEq] at hgate
  exact hgate.symm

theorem step_outside (h : p.Step s (.outside b) s') :
    s'.stage = s.stage ∧ s'.gate = s.gate ∧ p.outside b s.shared = some s'.shared := by
  obtain ⟨shared, hshared, rfl⟩ := Option.map_eq_some_iff.mp h
  exact ⟨rfl, rfl, hshared⟩

/-- All that a step of a task does. -/
theorem step_task (h : p.Step s (.task i a) s') :
    ∃ l m, p.next i a (s.stage i) s.shared = some (l, s'.shared, m) ∧
      s'.stage = Function.update s.stage i l ∧
      (m = .stay ∧ s'.gate = s.gate ∨ m = .take ∧ s.gate = none ∧ s'.gate = some i ∨
        m = .leave ∧ s'.gate = release i s.gate) := by
  rw [Protocol.Step, Protocol.step] at h
  split at h
  · cases h
  · next l shared hnext =>
    obtain rfl := Option.some.inj h
    exact ⟨l, .stay, hnext, rfl, .inl ⟨rfl, rfl⟩⟩
  · next l shared hnext =>
    split_ifs at h with hgate
    obtain rfl := Option.some.inj h
    exact ⟨l, .take, hnext, rfl, .inr (.inl ⟨rfl, hgate, rfl⟩)⟩
  · next l shared hnext =>
    obtain rfl := Option.some.inj h
    exact ⟨l, .leave, hnext, rfl, .inr (.inr ⟨rfl, rfl⟩)⟩

theorem stage_self (h : p.Step s (.task i a) s') :
    ∃ m, p.next i a (s.stage i) s.shared = some (s'.stage i, s'.shared, m) := by
  obtain ⟨l, m, hnext, hstage, -⟩ := step_task h
  refine ⟨m, ?_⟩
  rw [hstage, Function.update_self]
  exact hnext

theorem stage_other (h : p.Step s ev s') (hj : ∀ a, ev ≠ .task j a) : s'.stage j = s.stage j := by
  cases ev with
  | outside b => rw [(step_outside h).1]
  | task i a =>
    obtain ⟨l, m, -, hstage, -⟩ := step_task h
    have hne : j ≠ i := by
      rintro rfl
      exact hj a rfl
    rw [hstage, Function.update_of_ne hne]

/-- One task goes from a stage to another, with what it does to what is shared. -/
structure Goes (s s' : Gated ι L S) (i : ι) (l l' : L) (x x' : S) : Prop where
  stage : s.stage i = l
  stage' : s'.stage i = l'
  shared : s.shared = x
  shared' : s'.shared = x'
  others : ∀ j ≠ i, s'.stage j = s.stage j

theorem goes_of_step (h : p.Step s (.task i a) s') : ∃ l l' x x' m,
    p.next i a l x = some (l', x', m) ∧ Goes s s' i l l' x x' := by
  obtain ⟨m, hnext⟩ := stage_self h
  refine ⟨_, _, _, _, m, hnext, rfl, rfl, rfl, rfl, fun j hj => stage_other h ?_⟩
  rintro _ ⟨⟩
  exact hj rfl

variable {l l' : L} {x x' : S}

omit [DecidableEq ι] in
/-- While a task inside goes on there is no other one inside. -/
theorem Goes.unique (h : Goes s s' i l l' x x') (hguarded : Guarded inside s) (hl : inside l)
    (hj : inside (s.stage j)) : j = i := hguarded.unique hj (h.stage.symm ▸ hl)

theorem Goes.cases (h : Goes s s' i l l' x x') (j : ι) :
    (j = i ∧ s'.stage j = l') ∨ (j ≠ i ∧ s'.stage j = s.stage j) := by
  by_cases hji : j = i
  · exact .inl ⟨hji, hji ▸ h.stage'⟩
  · exact .inr ⟨hji, h.others j hji⟩

theorem Guarded.step (hp : p.Disciplined inside) (h : Guarded inside s) (hs : p.Step s ev s') :
    Guarded inside s' := by
  intro j hj
  cases ev with
  | outside b =>
    obtain ⟨hstage, hgate, -⟩ := step_outside hs
    rw [hstage] at hj
    rw [hgate]
    exact h j hj
  | task i a =>
    obtain ⟨l, m, hnext, hstage, hmove⟩ := step_task hs
    rw [hstage] at hj
    by_cases hij : j = i
    · subst hij
      rw [Function.update_self] at hj
      obtain ⟨rfl, hgate⟩ | ⟨-, -, hgate⟩ | ⟨rfl, -⟩ := hmove
      · rw [hgate]
        exact h j (hp.stay _ _ _ _ _ _ hnext hj)
      · exact hgate
      · exact absurd hj (hp.leave _ _ _ _ _ _ hnext)
    · rw [Function.update_of_ne hij] at hj
      have hheld := h j hj
      obtain ⟨-, hgate⟩ | ⟨-, hfree, -⟩ | ⟨-, hgate⟩ := hmove
      · rw [hgate, hheld]
      · rw [hfree] at hheld
        cases hheld
      · rw [hgate, release, if_neg, hheld]
        rw [hheld, Option.some.injEq]
        exact hij

end CardDavMcp.Library.Gate
