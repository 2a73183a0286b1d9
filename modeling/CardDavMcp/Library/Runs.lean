import Mathlib.Data.List.Induction
import Mathlib.Tactic.Common

namespace CardDavMcp.Library.Runs

variable {State Label : Type*}

/-- A run of a labelled transition system, with the labels of its steps in
the order they were taken. -/
inductive Run (step : State → Label → State → Prop) (start : State) : List Label → State → Prop
  | nil : Run step start [] start
  | snoc {labels : List Label} {s t : State} {l : Label} :
      Run step start labels s → step s l t → Run step start (labels ++ [l]) t

variable {step : State → Label → State → Prop} {start : State}

theorem Run.cons {labels : List Label} {l : Label} {s t : State} (hl : step start l s)
    (h : Run step s labels t) : Run step start (l :: labels) t := by
  induction h with
  | nil =>
    change Run step start ([] ++ [l]) _
    exact .snoc .nil hl
  | snoc _ hstep ih => exact .snoc ih hstep

theorem Run.of_nil {t : State} (h : Run step start [] t) : t = start := by
  generalize hl : ([] : List Label) = labels at h
  cases h with
  | nil => rfl
  | snoc => simp at hl

theorem Run.of_snoc {labels : List Label} {l : Label} {t : State}
    (h : Run step start (labels ++ [l]) t) : ∃ s, Run step start labels s ∧ step s l t := by
  generalize hl : labels ++ [l] = all at h
  cases h with
  | nil => simp at hl
  | snoc hrun hstep =>
    obtain ⟨rfl, he⟩ := List.append_inj' hl rfl
    cases he
    exact ⟨_, hrun, hstep⟩

theorem Run.of_append {before after : List Label} {t : State}
    (h : Run step start (before ++ after) t) :
    ∃ s, Run step start before s ∧ Run step s after t := by
  induction after using List.reverseRecOn generalizing t with
  | nil => exact ⟨t, by simpa using h, .nil⟩
  | append_singleton after l ih =>
    rw [← List.append_assoc] at h
    obtain ⟨u, hu, hl⟩ := h.of_snoc
    obtain ⟨s, hs, hrest⟩ := ih hu
    exact ⟨s, hs, .snoc hrest hl⟩

/-- The step that stands at a given place of a run. -/
theorem Run.split {before after : List Label} {l : Label} {t : State}
    (h : Run step start (before ++ l :: after) t) :
    ∃ s s', Run step start before s ∧ step s l s' ∧ Run step s' after t := by
  rw [List.append_cons] at h
  obtain ⟨s', hs', hafter⟩ := h.of_append
  obtain ⟨s, hs, hl⟩ := hs'.of_snoc
  exact ⟨s, s', hs, hl, hafter⟩

theorem Run.step_of_mem {labels : List Label} {l : Label} {t : State} (h : Run step start labels t)
    (hl : l ∈ labels) : ∃ s s', step s l s' := by
  obtain ⟨before, after, rfl⟩ := List.append_of_mem hl
  obtain ⟨s, s', -, hs, -⟩ := h.split
  exact ⟨s, s', hs⟩

theorem Run.append {labels labels' : List Label} {s t : State} (h : Run step start labels s)
    (h' : Run step s labels' t) : Run step start (labels ++ labels') t := by
  induction h' with
  | nil => rwa [List.append_nil]
  | snoc _ hs ih =>
    rw [← List.append_assoc]
    exact .snoc ih hs

theorem Run.mono {step' : State → Label → State → Prop} {labels : List Label} {s : State}
    (h : Run step start labels s) (hstep : ∀ s l t, step s l t → step' s l t) :
    Run step' start labels s := by
  induction h with
  | nil => exact .nil
  | snoc _ hs ih => exact .snoc ih (hstep _ _ _ hs)

/-- What holds at the start and is kept by every step holds of every run. The
invariant may speak about the steps so far, and may assume what is promised of
the labels of the whole run and of every shorter one. -/
theorem Run.invariant (admissible : List Label → Prop) {Inv : List Label → State → Prop}
    (hclosed : ∀ labels l, admissible (labels ++ [l]) → admissible labels)
    (hstart : Inv [] start)
    (hstep : ∀ labels s l t, Inv labels s → admissible (labels ++ [l]) → step s l t →
      Inv (labels ++ [l]) t)
    {labels : List Label} {s : State} (h : Run step start labels s) (ha : admissible labels) :
    Inv labels s := by
  induction h with
  | nil => exact hstart
  | snoc _ hs ih => exact hstep _ _ _ _ (ih (hclosed _ _ ha)) ha hs

/-- What a state holds under a key was there at the start or was put there by a
step, and no later step touched the key. -/
theorem Run.provenance {K V : Type*} (holds : State → K → V → Prop) (puts : Label → K → V → Prop)
    (touches : Label → K → Prop)
    (hstep : ∀ s l t k v, step s l t → holds t k v →
      puts l k v ∨ (¬ touches l k ∧ holds s k v))
    {labels : List Label} {s : State} (h : Run step start labels s) {k : K} {v : V}
    (hk : holds s k v) :
    (holds start k v ∧ ∀ x ∈ labels, ¬ touches x k) ∨
      ∃ before l after, labels = before ++ l :: after ∧ puts l k v ∧
        ∀ x ∈ after, ¬ touches x k := by
  induction h with
  | nil => exact .inl ⟨hk, by simp⟩
  | snoc hrun hs ih =>
    rename_i labels s t l
    obtain hputs | ⟨htouches, hold⟩ := hstep s l t k v hs hk
    · exact .inr ⟨labels, l, [], rfl, hputs, by simp⟩
    · have hlater (after : List Label) (hafter : ∀ x ∈ after, ¬ touches x k) :
          ∀ x ∈ after ++ [l], ¬ touches x k := by
        intro x hx
        rw [List.mem_append, List.mem_singleton] at hx
        obtain hx | rfl := hx
        · exact hafter x hx
        · exact htouches
      obtain ⟨hstart, hafter⟩ | ⟨before, l', after, rfl, hputs, hafter⟩ := ih hold
      · exact .inl ⟨hstart, hlater labels hafter⟩
      · exact .inr ⟨before, l', after ++ [l], by simp, hputs, hlater after hafter⟩

/-- A list is pairwise in a relation if all that comes before an element of it is. -/
theorem pairwise_of_split {rel : Label → Label → Prop} {labels : List Label}
    (h : ∀ before l after, labels = before ++ l :: after → ∀ x ∈ before, rel x l) :
    labels.Pairwise rel := by
  induction labels using List.reverseRecOn with
  | nil => exact .nil
  | append_singleton labels l ih =>
    rw [List.pairwise_append]
    refine ⟨ih fun before x after hlabels => ?_, List.pairwise_singleton _ _, fun x hx y hy => ?_⟩
    · exact h before x (after ++ [l]) (by simp [hlabels])
    · rw [List.mem_singleton.mp hy]
      exact h labels l [] rfl x hx

/-- Some labels are taken out of a list, all of one kind. -/
inductive Without (kind : Label → Prop) : List Label → List Label → Prop
  | nil : Without kind [] []
  | keep {labels labels' : List Label} (l : Label) :
      Without kind labels labels' → Without kind (labels ++ [l]) (labels' ++ [l])
  | drop {labels labels' : List Label} {l : Label} :
      kind l → Without kind labels labels' → Without kind (labels ++ [l]) labels'

theorem Without.sublist {kind : Label → Prop} {labels labels' : List Label}
    (h : Without kind labels labels') : labels'.Sublist labels := by
  induction h with
  | nil => exact .slnil
  | keep l _ ih => exact ih.append (.refl _)
  | drop _ _ ih => exact ih.trans (List.sublist_append_left _ _)

end CardDavMcp.Library.Runs
