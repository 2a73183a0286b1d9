import CardDavMcp.Library.Runs
import Mathlib.Data.Finset.Card
import Mathlib.Logic.Function.Basic

namespace CardDavMcp.Library.Interaction

open Runs

/-- A program that asks its surroundings for effects and goes on with their
replies. -/
inductive Prog (E : Type) (R : E → Type) (α : Type)
  | done (a : α)
  | act (e : E) (k : R e → Prog E R α)

variable {E : Type} {R : E → Type} {α β ε : Type}

abbrev Trace (E : Type) (R : E → Type) := List ((e : E) × R e)

def Prog.bind : Prog E R α → (α → Prog E R β) → Prog E R β
  | .done a, f => f a
  | .act e k, f => .act e (fun r => (k r).bind f)

instance : Monad (Prog E R) where
  pure := .done
  bind := .bind

def perform (e : E) : Prog E R (R e) := .act e .done

/-- What a program promises of each effect it asks for, given what it did
before, and what it relies on in the replies. -/
structure Contract (E : Type) (R : E → Type) where
  guar : Trace E R → E → Prop
  rely : (e : E) → R e → Prop

/-- After a trace, as long as the replies are as relied on, every effect is as
promised, and what is returned satisfies the postcondition for the trace that
led to it. -/
def Always (C : Contract E R) (post : Trace E R → α → Prop) : Trace E R → Prog E R α → Prop
  | tr, .done a => post tr a
  | tr, .act e k => C.guar tr e ∧ ∀ r, C.rely e r → Always C post (tr ++ [⟨e, r⟩]) (k r)

variable {C : Contract E R} {tr : Trace E R} {post post' : Trace E R → α → Prop}

theorem always_done {a : α} : Always C post tr (.done a) ↔ post tr a := Iff.rfl

theorem Always.mono {p : Prog E R α} (h : Always C post tr p)
    (hpost : ∀ tr a, post tr a → post' tr a) : Always C post' tr p := by
  induction p generalizing tr with
  | done a => exact hpost tr a h
  | act e k ih => exact ⟨h.1, fun r hr => ih r (h.2 r hr)⟩

/-- A program that keeps a contract keeps every weaker one. -/
theorem Always.weaken {C' : Contract E R} {p : Prog E R α} (h : Always C post tr p)
    (hguar : ∀ tr e, C.guar tr e → C'.guar tr e) (hrely : ∀ e r, C'.rely e r → C.rely e r) :
    Always C' post tr p := by
  induction p generalizing tr with
  | done a => exact h
  | act e k ih => exact ⟨hguar tr e h.1, fun r hr => ih r (h.2 r (hrely e r hr))⟩

/-- A sequence keeps the contract if its second part does after each trace of
the first. -/
theorem always_bind {p : Prog E R β} {f : β → Prog E R α} :
    Always C post tr (p >>= f) ↔ Always C (fun tr b => Always C post tr (f b)) tr p := by
  induction p generalizing tr with
  | done b => exact Iff.rfl
  | act e k ih => exact and_congr Iff.rfl (forall_congr' fun r => imp_congr_right fun _ => ih r)

/-- An effect inside a program that may fail. -/
def ask (e : E) : ExceptT ε (Prog E R) (R e) := ExceptT.mk (.act e (fun r => .done (.ok r)))

/-- A computation without effects inside a program that may fail. -/
def settle (x : Except ε α) : ExceptT ε (Prog E R) α := ExceptT.mk (.done x)

/-- A sequence starts with the effect that its first part starts with. -/
theorem starts_seq {e : E} {p : Prog E R β} {f : β → Prog E R α} (h : ∃ k, p = .act e k) :
    ∃ k, p.bind f = .act e k := by
  obtain ⟨k, rfl⟩ := h
  exact ⟨fun r => (k r).bind f, rfl⟩

theorem starts_bind {e : E} {p : ExceptT ε (Prog E R) β} {f : β → ExceptT ε (Prog E R) α}
    (h : ∃ k, p.run = .act e k) : ∃ k, (p >>= f).run = .act e k := starts_seq h

section Failing

variable {ε' : Type} {post : Trace E R → Except ε α → Prop}

theorem run_tryBind (p : ExceptT ε (Prog E R) β) (f : β → ExceptT ε (Prog E R) α) :
    (p >>= f).run = p.run >>= fun result => match result with
      | .ok b => (f b).run
      | .error e => pure (.error e) := by
  change p.run >>= ExceptT.bindCont f = _
  congr 1
  funext result
  cases result <;> rfl

theorem run_tryCatch (p : ExceptT ε (Prog E R) α) (handle : ε → ExceptT ε (Prog E R) α) :
    (tryCatch p handle).run = p.run >>= fun result => match result with
      | .ok a => pure (.ok a)
      | .error e => (handle e).run := by
  change p.run >>= _ = _
  congr 1
  funext result
  cases result <;> rfl

theorem run_adapt (p : ExceptT ε' (Prog E R) α) (f : ε' → ε) :
    (p.adapt f).run = p.run >>= fun result => pure (result.mapError f) := rfl

/-- A failure ends a sequence of programs that may fail. -/
theorem always_tryBind {p : ExceptT ε (Prog E R) β} {f : β → ExceptT ε (Prog E R) α} :
    Always C post tr (p >>= f).run ↔
      Always C (fun tr result => match result with
        | .ok b => Always C post tr (f b).run
        | .error e => post tr (.error e)) tr p.run := by
  rw [run_tryBind, always_bind]
  constructor
  all_goals
    intro h
    apply h.mono
    intro tr result hresult
    cases result with
    | ok b => exact hresult
    | error e => exact hresult

theorem always_ask_bind {e : E} {f : R e → ExceptT ε (Prog E R) α} :
    Always C post tr (ask e >>= f).run ↔ C.guar tr e ∧ ∀ r, C.rely e r →
      Always C post (tr ++ [⟨e, r⟩]) (f r).run := Iff.rfl

theorem always_settle_bind {x : Except ε β} {f : β → ExceptT ε (Prog E R) α} :
    Always C post tr (settle x >>= f).run ↔ match x with
      | .ok b => Always C post tr (f b).run
      | .error e => post tr (.error e) := by
  cases x <;> exact Iff.rfl

theorem always_settle {x : Except ε α} : Always C post tr (settle x).run ↔ post tr x := Iff.rfl

theorem always_pure {a : α} :
    Always C post tr (pure a : ExceptT ε (Prog E R) α).run ↔ post tr (.ok a) := Iff.rfl

/-- A check between two parts of a sequence belongs to the first of them. -/
theorem always_checked {p : ExceptT ε (Prog E R) β} {check : β → Except ε Unit}
    {k : β → ExceptT ε (Prog E R) α} :
    Always C post tr (p >>= fun b => settle (check b) >>= fun _ => k b).run ↔
      Always C post tr ((p >>= fun b => settle (check b) >>= fun _ => pure b) >>= k).run := by
  simp only [always_tryBind, always_pure]

theorem always_throw {e : ε} :
    Always C post tr (throw e : ExceptT ε (Prog E R) α).run ↔ post tr (.error e) := Iff.rfl

theorem always_adapt {p : ExceptT ε' (Prog E R) α} {f : ε' → ε} :
    Always C post tr (p.adapt f).run ↔
      Always C (fun tr result => post tr (result.mapError f)) tr p.run := by
  rw [run_adapt, always_bind]
  exact Iff.rfl

/-- A handler has to do with whatever failure the program leaves. -/
theorem always_tryCatch {p : ExceptT ε (Prog E R) α} {handle : ε → ExceptT ε (Prog E R) α} :
    Always C post tr (tryCatch p handle).run ↔
      Always C (fun tr result => match result with
        | .ok a => post tr (.ok a)
        | .error e => Always C post tr (handle e).run) tr p.run := by
  rw [run_tryCatch, always_bind]
  constructor
  all_goals
    intro h
    apply h.mono
    intro tr result hresult
    cases result with
    | ok a => exact hresult
    | error e => exact hresult

end Failing

section Pool

variable {W ι : Type} [DecidableEq ι]

/-- An effect as the pool of all calls saw it: who asked for it, the reply,
and the world on both sides. -/
structure Act (W ι E : Type) (R : E → Type) where
  call : ι
  effect : E
  reply : R effect
  before : W
  after : W

def Act.event {W ι : Type} (ev : Act W ι E R) : (e : E) × R e := ⟨ev.effect, ev.reply⟩

/-- One effect of one call is answered by the world they share. -/
def poolStep (world : W → (e : E) → R e → W → Prop) (c : W × (ι → Prog E R α)) (ev : Act W ι E R)
    (c' : W × (ι → Prog E R α)) : Prop :=
  ev.before = c.1 ∧ ev.after = c'.1 ∧ world c.1 ev.effect ev.reply c'.1 ∧
    ∃ k, c.2 ev.call = .act ev.effect k ∧ c'.2 = Function.update c.2 ev.call (k ev.reply)

theorem poolStep_act {world : W → (e : E) → R e → W → Prop} {pool : ι → Prog E R α}
    {w w' : W} {i : ι}
    {e : E} {r : R e} {k : R e → Prog E R α} (hk : pool i = .act e k) (hw : world w e r w') :
    poolStep world (w, pool) ⟨i, e, r, w, w'⟩ (w', Function.update pool i (k r)) :=
  ⟨rfl, rfl, hw, k, hk, rfl⟩

/-- Each step of a run is answered by the world. -/
theorem answered {world : W → (e : E) → R e → W → Prop} {start c : W × (ι → Prog E R α)}
    {log : List (Act W ι E R)} {ev : Act W ι E R} (h : Run (poolStep world) start log c)
    (hev : ev ∈ log) :
    world ev.before ev.effect ev.reply ev.after := by
  obtain ⟨t, t', hbefore, hafter, hanswer, -⟩ := h.step_of_mem hev
  rw [hbefore, hafter]
  exact hanswer

/-- What one call did in a run. -/
def traceOf (i : ι) (log : List (Act W ι E R)) : Trace E R :=
  log.filterMap (fun ev => if ev.call = i then some ev.event else none)

theorem traceOf_append (i : ι) (log rest : List (Act W ι E R)) :
    traceOf i (log ++ rest) = traceOf i log ++ traceOf i rest := List.filterMap_append

theorem traceOf_self (ev : Act W ι E R) : traceOf ev.call [ev] = [ev.event] := by
  simp [traceOf]

theorem traceOf_other {ev : Act W ι E R} {i : ι} (h : ev.call ≠ i) : traceOf i [ev] = [] := by
  simp [traceOf, h]

/-- A step of a call's trace is a step of the run. -/
theorem exists_of_traceOf {i : ι} {log : List (Act W ι E R)} {x : (e : E) × R e}
    (h : x ∈ traceOf i log) : ∃ ev ∈ log, ev.call = i ∧ x = ev.event := by
  obtain ⟨ev, hev, hx⟩ := List.mem_filterMap.mp h
  split_ifs at hx with hi
  exact ⟨ev, hev, hi, (Option.some.inj hx).symm⟩

theorem mem_traceOf {ev : Act W ι E R} {log : List (Act W ι E R)} (h : ev ∈ log) :
    ev.event ∈ traceOf ev.call log := List.mem_filterMap.mpr ⟨ev, h, if_pos rfl⟩

/-- Calls that have a step of a kind each are no more than these steps. -/
theorem card_le_countP {is : Finset ι} {log : List (Act W ι E R)} {kind : Act W ι E R → Bool}
    (h : ∀ i ∈ is, ∃ ev ∈ log, ev.call = i ∧ kind ev) : is.card ≤ log.countP kind := by
  have hsub : is ⊆ ((log.filter kind).map Act.call).toFinset := by
    intro i hi
    obtain ⟨ev, hev, hcall, hkind⟩ := h i hi
    rw [List.mem_toFinset]
    exact List.mem_map.mpr ⟨ev, List.mem_filter.mpr ⟨hev, hkind⟩, hcall⟩
  calc is.card ≤ ((log.filter kind).map Act.call).toFinset.card := Finset.card_le_card hsub
    _ ≤ ((log.filter kind).map Act.call).length := List.toFinset_card_le _
    _ = log.countP kind := by rw [List.length_map, List.countP_eq_length_filter]

/-- What holds of a run in which every call keeps its contract. -/
structure Sound (C : ι → Contract E R) (post : ι → Trace E R → α → Prop) (I : W → Prop)
    (log : List (Act W ι E R)) (c : W × (ι → Prog E R α)) : Prop where
  world : I c.1
  acts : ∀ a ev b, log = a ++ ev :: b →
    (C ev.call).guar (traceOf ev.call a) ev.effect ∧ (C ev.call).rely ev.effect ev.reply
  calls : ∀ i, Always (C i) (post i) (traceOf i log) (c.2 i)

theorem Sound.step {C : ι → Contract E R} {post : ι → Trace E R → α → Prop} {I : W → Prop}
    {world : W → (e : E) → R e → W → Prop}
    (hworld : ∀ i tr w e r w', I w → (C i).guar tr e → world w e r w' → (C i).rely e r ∧ I w')
    {log : List (Act W ι E R)} {ev : Act W ι E R} {c c' : W × (ι → Prog E R α)}
    (h : Sound C post I log c) (hs : poolStep world c ev c') : Sound C post I (log ++ [ev]) c' := by
  obtain ⟨-, -, hw, k, hk, hpool⟩ := hs
  have hcall := h.calls ev.call
  rw [hk] at hcall
  obtain ⟨hguar, hnext⟩ := hcall
  obtain ⟨hrely, hI⟩ := hworld _ _ _ _ _ _ h.world hguar hw
  refine ⟨hI, fun a e b hab => ?_, fun i => ?_⟩
  · cases b using List.reverseRecOn with
    | nil =>
      obtain ⟨rfl, he⟩ := List.append_inj' hab rfl
      cases he
      exact ⟨hguar, hrely⟩
    | append_singleton b e' =>
      rw [← List.cons_append, ← List.append_assoc] at hab
      obtain ⟨rfl, -⟩ := List.append_inj' hab rfl
      exact h.acts a e b rfl
  · by_cases hi : ev.call = i
    · subst hi
      have hdone := hnext ev.reply hrely
      rw [hpool, Function.update_self, traceOf_append, traceOf_self]
      exact hdone
    · rw [hpool, Function.update_of_ne (Ne.symm hi), traceOf_append, traceOf_other hi,
        List.append_nil]
      exact h.calls i

/-- Calls that each keep their contract keep it in every interleaving, if the
world answers as they rely on. -/
theorem pool_sound {C : ι → Contract E R} {post : ι → Trace E R → α → Prop} {I : W → Prop}
    {world : W → (e : E) → R e → W → Prop}
    (hworld : ∀ i tr w e r w', I w → (C i).guar tr e → world w e r w' → (C i).rely e r ∧ I w')
    {w : W} {pool : ι → Prog E R α} (hw : I w) (hpool : ∀ i, Always (C i) (post i) [] (pool i))
    {log : List (Act W ι E R)} {c : W × (ι → Prog E R α)}
    (h : Run (poolStep world) (w, pool) log c) : Sound C post I log c :=
  h.invariant (fun _ => True) (fun _ _ _ => trivial)
    ⟨hw, fun a ev b hab => by simp at hab, hpool⟩
    (fun _ _ _ _ hinv _ hs => hinv.step hworld hs) trivial

theorem Sound.returned {C : ι → Contract E R} {post : ι → Trace E R → α → Prop} {I : W → Prop}
    {log : List (Act W ι E R)} {c : W × (ι → Prog E R α)} (h : Sound C post I log c) {i : ι} {a : α}
    (ha : c.2 i = .done a) : post i (traceOf i log) a := by
  have hi := h.calls i
  rwa [ha, always_done] at hi

section Replay

variable [DecidableEq E]

/-- The rest of a program after a reply, if it waits for this one. -/
def Prog.resume (e : E) (r : R e) : Prog E R α → Option (Prog E R α)
  | .done _ => none
  | .act e' k => if h : e = e' then some (k (h ▸ r)) else none

theorem resume_eq {e : E} {r : R e} {p p' : Prog E R α} (h : p.resume e r = some p') :
    ∃ k, p = .act e k ∧ p' = k r := by
  cases p with
  | done a => cases h
  | act e' k =>
    rw [Prog.resume] at h
    split_ifs at h with he
    subst he
    exact ⟨k, rfl, (Option.some.inj h).symm⟩

/-- What is left of the calls after the steps of a log, if each step is one that
its call waits for. -/
def poolAfter (pool : ι → Prog E R α) : List (Act W ι E R) → Option (ι → Prog E R α)
  | [] => some pool
  | ev :: log =>
    ((pool ev.call).resume ev.effect ev.reply).bind fun p =>
      poolAfter (Function.update pool ev.call p) log

/-- Steps that the world takes one after another. -/
def Linked (world : W → (e : E) → R e → W → Prop) : W → List (Act W ι E R) → Prop
  | _, [] => True
  | w, ev :: log => ev.before = w ∧ world w ev.effect ev.reply ev.after ∧ Linked world ev.after log

/-- A log that suits both the world and the calls is one of a run. -/
theorem run_of_replay {world : W → (e : E) → R e → W → Prop} {w : W} {pool pool' : ι → Prog E R α}
    {log : List (Act W ι E R)} (hworld : Linked world w log)
    (hpool : poolAfter pool log = some pool') :
    ∃ w', Run (poolStep world) (w, pool) log (w', pool') := by
  induction log generalizing w pool with
  | nil =>
    obtain rfl := Option.some.inj hpool
    exact ⟨w, .nil⟩
  | cons ev log ih =>
    obtain ⟨call, effect, reply, before, after⟩ := ev
    obtain ⟨rfl, hstep, hrest⟩ := hworld
    obtain ⟨p, hp, hafter⟩ := Option.bind_eq_some_iff.mp hpool
    obtain ⟨k, hk, rfl⟩ := resume_eq hp
    obtain ⟨w', hrun⟩ := ih hrest hafter
    exact ⟨w', .cons (poolStep_act hk hstep) hrun⟩

end Replay

end Pool

end CardDavMcp.Library.Interaction
