import CardDavMcp.Library.Interaction

namespace CardDavMcp.Library.Interaction

variable {E : Type} {R : E → Type} {α β ε ε' ι σ : Type}

/-- A program can run with this trace and return this value, if the replies
are those of the trace. -/
inductive Executes : Prog E R α → Trace E R → α → Prop
  | done (a : α) : Executes (.done a) [] a
  | act {e : E} {k : R e → Prog E R α} {r : R e} {tr : Trace E R} {a : α} :
      Executes (k r) tr a → Executes (.act e k) (⟨e, r⟩ :: tr) a

theorem executes_done {a b : α} {tr : Trace E R} :
    Executes (.done a) tr b ↔ tr = [] ∧ b = a := by
  constructor
  · rintro ⟨⟩
    exact ⟨rfl, rfl⟩
  · rintro ⟨rfl, rfl⟩
    exact .done b

theorem executes_bind {p : Prog E R β} {f : β → Prog E R α} {tr : Trace E R} {a : α} :
    Executes (p >>= f) tr a ↔
      ∃ before b after, tr = before ++ after ∧ Executes p before b ∧ Executes (f b) after a := by
  induction p generalizing tr with
  | done b =>
    constructor
    · intro h
      exact ⟨[], b, tr, rfl, .done b, h⟩
    · rintro ⟨before, b', after, rfl, hp, hf⟩
      obtain ⟨rfl, rfl⟩ := executes_done.mp hp
      exact hf
  | act e k ih =>
    constructor
    · intro h
      cases h with
      | act h =>
        obtain ⟨before, b, after, rfl, hp, hf⟩ := (ih _).mp h
        exact ⟨_ :: before, b, after, rfl, .act hp, hf⟩
    · rintro ⟨before, b, after, rfl, hp, hf⟩
      cases hp with
      | act hp => exact .act ((ih _).mpr ⟨_, b, after, rfl, hp, hf⟩)

/-- A run that has come to its end does not go on. -/
theorem Executes.of_append {p : Prog E R α} {tr rest : Trace E R} {a b : α} (ha : Executes p tr a)
    (hb : Executes p (tr ++ rest) b) : rest = [] ∧ b = a := by
  induction ha with
  | done a => exact executes_done.mp hb
  | act _ ih =>
    cases hb with
    | act hb => exact ih hb

/-- A trace has one result. -/
theorem Executes.determined {p : Prog E R α} {tr : Trace E R} {a b : α} (ha : Executes p tr a)
    (hb : Executes p tr b) : a = b := by
  rw [← List.append_nil tr] at hb
  exact (ha.of_append hb).2.symm

instance : LawfulMonad (Prog E R) :=
  LawfulMonad.mk' (Prog E R)
    (fun p => by
      induction p with
      | done a => rfl
      | act e k ih => exact congrArg (Prog.act e) (funext ih))
    (fun _ _ => rfl)
    (fun p f g => by
      induction p with
      | done a => rfl
      | act e k ih => exact congrArg (Prog.act e) (funext ih))

/-- After a trace this much is left of a program. -/
inductive Leads : Prog E R α → Trace E R → Prog E R α → Prop
  | refl (p : Prog E R α) : Leads p [] p
  | act {e : E} {k : R e → Prog E R α} {r : R e} {tr : Trace E R} {q : Prog E R α} :
      Leads (k r) tr q → Leads (.act e k) (⟨e, r⟩ :: tr) q

theorem Leads.snoc {p q : Prog E R α} {tr : Trace E R} {e : E} {k : R e → Prog E R α}
    (h : Leads p tr q) (hq : q = .act e k) (r : R e) : Leads p (tr ++ [⟨e, r⟩]) (k r) := by
  induction h with
  | refl p =>
    subst hq
    exact .act (.refl _)
  | act _ ih => exact .act (ih hq)

theorem executes_of_leads {p q : Prog E R α} {tr : Trace E R} {a : α} (h : Leads p tr q)
    (hq : q = .done a) : Executes p tr a := by
  induction h with
  | refl p =>
    subst hq
    exact .done a
  | act _ ih => exact .act (ih hq)

/-- What a program promises, and that it is this program which promises it. -/
theorem Always.leads {C : Contract E R} {post : Trace E R → α → Prop} {p : Prog E R α}
    (h : Always C post [] p) :
    Always ⟨fun tr e => C.guar tr e ∧ ∃ k, Leads p tr (.act e k), C.rely⟩
      (fun tr a => post tr a ∧ Executes p tr a) [] p := by
  suffices hrest : ∀ (q : Prog E R α) (tr : Trace E R), Leads p tr q → Always C post tr q →
      Always ⟨fun tr e => C.guar tr e ∧ ∃ k, Leads p tr (.act e k), C.rely⟩
        (fun tr a => post tr a ∧ Executes p tr a) tr q from
    hrest p [] (.refl p) h
  intro q
  induction q with
  | done a => exact fun tr hleads hpost => ⟨hpost, executes_of_leads hleads rfl⟩
  | act e k ih =>
    exact fun tr hleads halways => ⟨⟨halways.1, k, hleads⟩, fun r hr =>
      ih r _ (hleads.snoc rfl r) (halways.2 r hr)⟩

/-- What a program promises holds of what is left of it. -/
theorem always_of_leads {C : Contract E R} {post : Trace E R → α → Prop} {p q : Prog E R α}
    {before tr : Trace E R} (hrely : ∀ e r, C.rely e r) (h : Always C post before p)
    (hleads : Leads p tr q) : Always C post (before ++ tr) q := by
  induction hleads generalizing before with
  | refl p => rwa [List.append_nil]
  | @act e k r tr q _ ih =>
    rw [List.append_cons]
    exact ih (h.2 r (hrely e r))

/-- What a program asks for in a run, it asks for as promised. -/
theorem Always.asked {C : Contract E R} {post : Trace E R → α → Prop} {p : Prog E R α}
    {before tr : Trace E R} {a : α} (h : Always C post before p) (hrely : ∀ e r, C.rely e r)
    (hrun : Executes p tr a) {x : (e : E) × R e} (hx : x ∈ tr) : ∃ done, C.guar done x.1 := by
  induction hrun generalizing before with
  | done a => exact absurd hx List.not_mem_nil
  | @act e k r tr a _ ih =>
    obtain rfl | hx := List.mem_cons.mp hx
    · exact ⟨before, h.1⟩
    · exact ih (h.2 r (hrely e r)) hx

theorem leads_of_executes {p : Prog E R α} {tr : Trace E R} {a : α} (h : Executes p tr a) :
    Leads p tr (.done a) := by
  induction h with
  | done a => exact .refl _
  | act _ ih => exact .act ih

section Embed

variable {E' : Type} {R' : E' → Type}

/-- A program as part of a larger system, whose effects are among those of the
system. -/
def Prog.embed (inj : E → E') (back : ∀ e, R' (inj e) → R e) : Prog E R α → Prog E' R' α
  | .done a => .done a
  | .act e k => .act (inj e) fun r => (k (back e r)).embed inj back

variable {inj : E → E'} {back : ∀ e, R' (inj e) → R e} {C : Contract E R} {C' : Contract E' R'}
  {post : Trace E R → α → Prop} {post' : Trace E' R' → α → Prop} {tr : Trace E' R'}

/-- A program keeps the contract of the system if it keeps its own one on its
part of the trace. -/
theorem always_embed (part : Trace E' R' → Trace E R) (P : Trace E' R' → Prop)
    (hpart : ∀ tr e r, part (tr ++ [⟨inj e, r⟩]) = part tr ++ [⟨e, back e r⟩])
    (hP : ∀ tr e r, P tr → P (tr ++ [⟨inj e, r⟩]))
    (hguar : ∀ tr e, P tr → C.guar (part tr) e → C'.guar tr (inj e))
    (hrely : ∀ e r, C'.rely (inj e) r → C.rely e (back e r))
    (hpost : ∀ tr a, P tr → post (part tr) a → post' tr a) {p : Prog E R α} (htr : P tr)
    (h : Always C post (part tr) p) : Always C' post' tr (p.embed inj back) := by
  induction p generalizing tr with
  | done a => exact hpost tr a htr h
  | act e k ih =>
    refine ⟨hguar tr e htr h.1, fun r hr => ih (back e r) (hP tr e r htr) ?_⟩
    rw [hpart]
    exact h.2 (back e r) (hrely e r hr)

end Embed

/-- The run in which every step has the reply that a function gives. -/
def playedOut (reply : ∀ e, R e) : Prog E R α → Trace E R × α
  | .done a => ([], a)
  | .act e k =>
    (⟨e, reply e⟩ :: (playedOut reply (k (reply e))).1, (playedOut reply (k (reply e))).2)

theorem executes_playedOut (reply : ∀ e, R e) (p : Prog E R α) :
    Executes p (playedOut reply p).1 (playedOut reply p).2 := by
  induction p with
  | done a => exact .done a
  | act e k ih => exact .act (ih (reply e))

section Alone

variable {W : Type}

/-- The run of one call to its end, at a server that answers by a function. -/
def playedAlone (serve : W → (e : E) → R e × W) (i : ι) :
    W → Prog E R α → List (Act W ι E R) × W × α
  | w, .done a => ([], w, a)
  | w, .act e k =>
    let (r, w') := serve w e
    let (log, last, a) := playedAlone serve i w' (k r)
    (⟨i, e, r, w, w'⟩ :: log, last, a)

/-- The other calls of a pool may wait while one runs to its end. -/
theorem run_playedAlone [DecidableEq ι] {world : W → (e : E) → R e → W → Prop}
    {serve : W → (e : E) → R e × W} (hworld : ∀ w e, world w e (serve w e).1 (serve w e).2) (i : ι)
    (w : W) (pool : ι → Prog E R α) :
    Runs.Run (poolStep world) (w, pool) (playedAlone serve i w (pool i)).1
      ((playedAlone serve i w (pool i)).2.1,
        Function.update pool i (.done (playedAlone serve i w (pool i)).2.2)) := by
  generalize hp : pool i = p
  induction p generalizing w pool with
  | done a =>
    rw [playedAlone, ← hp, Function.update_eq_self]
    exact .nil
  | act e k ih =>
    have hrest := ih (serve w e).1 (serve w e).2
      (Function.update pool i (k (serve w e).1)) (Function.update_self ..)
    rw [Function.update_idem] at hrest
    exact .cons (poolStep_act hp (hworld w e)) hrest

/-- The run in which the calls of a pool take their turns in this order, at a
server that answers by a function. -/
def played [DecidableEq ι] (serve : W → (e : E) → R e × W) : List ι → W → (ι → Prog E R α) →
    List (Act W ι E R) × W × (ι → Prog E R α)
  | [], w, pool => ([], w, pool)
  | i :: turns, w, pool =>
    match pool i with
    | .done _ => played serve turns w pool
    | .act e k =>
      let (r, w') := serve w e
      let (log, last) := played serve turns w' (Function.update pool i (k r))
      (⟨i, e, r, w, w'⟩ :: log, last)

theorem run_played [DecidableEq ι] {world : W → (e : E) → R e → W → Prop}
    {serve : W → (e : E) → R e × W} (hworld : ∀ w e, world w e (serve w e).1 (serve w e).2)
    (turns : List ι) (w : W) (pool : ι → Prog E R α) :
    Runs.Run (poolStep world) (w, pool) (played serve turns w pool).1
      (played serve turns w pool).2 := by
  induction turns generalizing w pool with
  | nil => exact .nil
  | cons i turns ih =>
    rw [played]
    cases hp : pool i with
    | done a => exact ih w pool
    | act e k =>
      exact .cons (poolStep_act hp (hworld w e)) (ih (serve w e).2
        (Function.update pool i (k (serve w e).1)))

/-- What a call of a pool did is a run of it alone. -/
theorem executes_of_run [DecidableEq ι] {world : W → (e : E) → R e → W → Prop} {w : W}
    {pool : ι → Prog E R α} {log : List (Act W ι E R)} {c : W × (ι → Prog E R α)}
    (h : Runs.Run (poolStep world) (w, pool) log c) {i : ι} {a : α} (hdone : c.2 i = .done a) :
    Executes (pool i) (traceOf i log) a := by
  -- the rest of the call is the invariant: what it can still do, it could do after its trace
  suffices hrest : ∀ tr, Executes (c.2 i) tr a → Executes (pool i) (traceOf i log ++ tr) a by
    have hall := hrest [] (hdone ▸ .done a)
    rwa [List.append_nil] at hall
  clear hdone
  induction h with
  | nil => exact fun tr htr => htr
  | @snoc log s t ev _ hs ih =>
    intro tr htr
    obtain ⟨-, -, -, k, hk, hpool⟩ := hs
    rw [traceOf_append, List.append_assoc]
    apply ih
    rw [hpool] at htr
    by_cases hi : ev.call = i
    · subst hi
      rw [Function.update_self] at htr
      rw [traceOf_self, hk]
      exact .act htr
    · rw [Function.update_of_ne (Ne.symm hi)] at htr
      rwa [traceOf_other hi, List.nil_append]

end Alone

section Failing

variable {tr : Trace E R}

theorem executes_tryBind {p : ExceptT ε (Prog E R) β} {f : β → ExceptT ε (Prog E R) α}
    {result : Except ε α} :
    Executes (p >>= f).run tr result ↔
      (∃ before b after, tr = before ++ after ∧ Executes p.run before (.ok b) ∧
        Executes (f b).run after result) ∨
      ∃ e, Executes p.run tr (.error e) ∧ result = .error e := by
  rw [run_tryBind, executes_bind]
  constructor
  · rintro ⟨before, b | b, after, rfl, hp, hf⟩
    · obtain ⟨rfl, rfl⟩ := executes_done.mp hf
      exact .inr ⟨b, by simpa using hp, rfl⟩
    · exact .inl ⟨before, b, after, rfl, hp, hf⟩
  · rintro (⟨before, b, after, rfl, hp, hf⟩ | ⟨e, hp, rfl⟩)
    · exact ⟨before, .ok b, after, rfl, hp, hf⟩
    · exact ⟨tr, .error e, [], by simp, hp, .done _⟩

/-- A sequence succeeds if all of it does. -/
theorem executes_tryBind_ok {p : ExceptT ε (Prog E R) β} {f : β → ExceptT ε (Prog E R) α}
    {a : α} :
    Executes (p >>= f).run tr (.ok a) ↔
      ∃ before b after, tr = before ++ after ∧ Executes p.run before (.ok b) ∧
        Executes (f b).run after (.ok a) := by
  rw [executes_tryBind]
  exact or_iff_left fun ⟨_, _, he⟩ => by cases he

theorem executes_ask {e : E} {result : Except ε (R e)} :
    Executes (ask e : ExceptT ε (Prog E R) (R e)).run tr result ↔
      ∃ r, tr = [⟨e, r⟩] ∧ result = .ok r := by
  constructor
  · intro h
    cases h with
    | act h =>
      obtain ⟨rfl, rfl⟩ := executes_done.mp h
      exact ⟨_, rfl, rfl⟩
  · rintro ⟨r, rfl, rfl⟩
    exact .act (.done _)

theorem executes_settle {x result : Except ε α} :
    Executes (settle x : ExceptT ε (Prog E R) α).run tr result ↔ tr = [] ∧ result = x :=
  executes_done

theorem executes_settle_bind_ok {x : Except ε β} {f : β → ExceptT ε (Prog E R) α} {a : α} :
    Executes (settle x >>= f).run tr (.ok a) ↔ ∃ b, x = .ok b ∧ Executes (f b).run tr (.ok a) := by
  rw [executes_tryBind_ok]
  constructor
  · rintro ⟨_, b, after, rfl, hx, hf⟩
    obtain ⟨rfl, hb⟩ := executes_settle.mp hx
    exact ⟨b, hb.symm, hf⟩
  · rintro ⟨b, rfl, hf⟩
    exact ⟨[], b, tr, rfl, executes_settle.mpr ⟨rfl, rfl⟩, hf⟩

theorem settle_ok_bind (b : β) (f : β → ExceptT ε (Prog E R) α) : (settle (.ok b) >>= f) = f b :=
  rfl

theorem executes_pure {a : α} {result : Except ε α} :
    Executes (pure a : ExceptT ε (Prog E R) α).run tr result ↔ tr = [] ∧ result = .ok a :=
  executes_done

theorem executes_throw {e : ε} {result : Except ε α} :
    Executes (throw e : ExceptT ε (Prog E R) α).run tr result ↔ tr = [] ∧ result = .error e :=
  executes_done

theorem executes_tryCatch {p : ExceptT ε (Prog E R) α} {handle : ε → ExceptT ε (Prog E R) α}
    {result : Except ε α} :
    Executes (tryCatch p handle).run tr result ↔
      (∃ a, Executes p.run tr (.ok a) ∧ result = .ok a) ∨
      ∃ before e after, tr = before ++ after ∧ Executes p.run before (.error e) ∧
        Executes (handle e).run after result := by
  rw [run_tryCatch, executes_bind]
  constructor
  · rintro ⟨before, e | a, after, rfl, hp, hf⟩
    · exact .inr ⟨before, e, after, rfl, hp, hf⟩
    · obtain ⟨rfl, rfl⟩ := executes_done.mp hf
      exact .inl ⟨a, by simpa using hp, rfl⟩
  · rintro (⟨a, hp, rfl⟩ | ⟨before, e, after, rfl, hp, hf⟩)
    · exact ⟨tr, .ok a, [], by simp, hp, .done _⟩
    · exact ⟨before, .error e, after, rfl, hp, hf⟩

theorem executes_adapt {p : ExceptT ε' (Prog E R) α} {f : ε' → ε} {result : Except ε α} :
    Executes (p.adapt f).run tr result ↔
      ∃ outcome, Executes p.run tr outcome ∧ result = outcome.mapError f := by
  rw [run_adapt, executes_bind]
  constructor
  · rintro ⟨before, outcome, after, rfl, hp, hreturn⟩
    obtain ⟨rfl, rfl⟩ := executes_done.mp hreturn
    exact ⟨outcome, by simpa using hp, rfl⟩
  · rintro ⟨outcome, hp, rfl⟩
    exact ⟨tr, outcome, [], by simp, hp, .done _⟩

theorem executes_adapt_ok {p : ExceptT ε' (Prog E R) α} {f : ε' → ε} {a : α} :
    Executes (p.adapt f).run tr (.ok a) ↔ Executes p.run tr (.ok a) := by
  refine executes_adapt.trans ⟨?_, fun hp => ⟨.ok a, hp, rfl⟩⟩
  rintro ⟨outcome, hp, he⟩
  cases outcome with
  | error e => cases he
  | ok b => rwa [Except.ok.inj he]

theorem executes_adapt_error {p : ExceptT ε' (Prog E R) α} {f : ε' → ε} {e : ε} :
    Executes (p.adapt f).run tr (.error e) ↔ ∃ e', Executes p.run tr (.error e') ∧ e = f e' := by
  refine executes_adapt.trans ⟨?_, fun ⟨e', hp, he⟩ => ⟨.error e', hp, by rw [he]; rfl⟩⟩
  rintro ⟨outcome, hp, he⟩
  cases outcome with
  | error e' => exact ⟨e', hp, Except.error.inj he⟩
  | ok b => cases he

end Failing

section Walk

/-- Ask one after the other until the state says to stop or an answer is a
failure. -/
def walk (ask : ι → ExceptT ε (Prog E R) β) (step : σ → β → σ) (stop : σ → Bool) :
    List ι → σ → ExceptT ε (Prog E R) σ
  | [], s => pure s
  | i :: is, s => do
    let answer ← ask i
    if stop (step s answer) then return step s answer else walk ask step stop is (step s answer)

/-- What holds of the state at the start of a walk and after every answer holds
of the state that it returns. -/
theorem always_walk {C : Contract E R} {ask : ι → ExceptT ε (Prog E R) β} {step : σ → β → σ}
    {stop : σ → Bool} {post : Trace E R → Except ε σ → Prop}
    (hask : ∀ i tr s, post tr (.ok s) → Always C (fun tr answer => match answer with
      | .ok b => post tr (.ok (step s b))
      | .error e => post tr (.error e)) tr (ask i).run)
    {is : List ι} {s : σ} {tr : Trace E R} (h : post tr (.ok s)) :
    Always C post tr (walk ask step stop is s).run := by
  induction is generalizing s tr with
  | nil => exact always_pure.mpr h
  | cons i is ih =>
    rw [walk]
    refine always_tryBind.mpr ((hask i tr s h).mono fun tr' answer hanswer => ?_)
    cases answer with
    | error e => exact hanswer
    | ok b =>
      dsimp only at hanswer ⊢
      split_ifs
      · exact always_pure.mpr hanswer
      · exact ih hanswer

/-- How a walk can go: what was asked, with what trace and answer, and what it
returns. -/
inductive Walked (ask : ι → ExceptT ε (Prog E R) β) (step : σ → β → σ) (stop : σ → Bool) :
    List ι → σ → List (Trace E R × Except ε β) → Except ε σ → Prop
  | nil (s : σ) : Walked ask step stop [] s [] (.ok s)
  | fail {i : ι} {is : List ι} {s : σ} {tr : Trace E R} {e : ε} :
      Executes (ask i).run tr (.error e) →
      Walked ask step stop (i :: is) s [(tr, .error e)] (.error e)
  | stop {i : ι} {is : List ι} {s : σ} {tr : Trace E R} {answer : β} :
      Executes (ask i).run tr (.ok answer) → stop (step s answer) = true →
      Walked ask step stop (i :: is) s [(tr, .ok answer)] (.ok (step s answer))
  | next {i : ι} {is : List ι} {s : σ} {tr : Trace E R} {answer : β}
      {asked : List (Trace E R × Except ε β)} {result : Except ε σ} :
      Executes (ask i).run tr (.ok answer) → stop (step s answer) = false →
      Walked ask step stop is (step s answer) asked result →
      Walked ask step stop (i :: is) s ((tr, .ok answer) :: asked) result

theorem executes_walk {ask : ι → ExceptT ε (Prog E R) β} {step : σ → β → σ} {stop : σ → Bool}
    {is : List ι} {s : σ} {tr : Trace E R} {result : Except ε σ} :
    Executes (walk ask step stop is s).run tr result ↔
      ∃ asked, tr = asked.flatMap Prod.fst ∧ Walked ask step stop is s asked result := by
  induction is generalizing s tr with
  | nil =>
    rw [walk, executes_pure]
    constructor
    · rintro ⟨rfl, rfl⟩
      exact ⟨[], rfl, .nil s⟩
    · rintro ⟨asked, rfl, hwalked⟩
      cases hwalked
      exact ⟨rfl, rfl⟩
  | cons i is ih =>
    rw [walk, executes_tryBind]
    constructor
    · rintro (⟨before, answer, after, rfl, hask, hrest⟩ | ⟨e, hask, rfl⟩)
      · split_ifs at hrest with hstop
        · obtain ⟨rfl, rfl⟩ := executes_pure.mp hrest
          exact ⟨_, by simp, .stop hask hstop⟩
        · obtain ⟨asked, rfl, hwalked⟩ := ih.mp hrest
          exact ⟨_, by simp, .next hask (by simpa using hstop) hwalked⟩
      · exact ⟨_, by simp, .fail hask⟩
    · rintro ⟨asked, rfl, hwalked⟩
      cases hwalked with
      | fail hask => exact .inr ⟨_, by simpa using hask, rfl⟩
      | stop hask hstop =>
        refine .inl ⟨_, _, [], by simp, hask, ?_⟩
        rw [if_pos hstop]
        exact executes_pure.mpr ⟨rfl, rfl⟩
      | next hask hstop hwalked =>
        refine .inl ⟨_, _, _, rfl, hask, ?_⟩
        rw [if_neg (by simp [hstop])]
        exact ih.mpr ⟨_, rfl, hwalked⟩

variable {ask : ι → ExceptT ε (Prog E R) β} {step : σ → β → σ} {stop : σ → Bool} {is : List ι}
  {s : σ} {asked : List (Trace E R × Except ε β)} {result : Except ε σ}

/-- The questions of a walk are its first ones. -/
theorem Walked.asked_prefix (h : Walked ask step stop is s asked result) :
    List.Forall₂ (fun i q => Executes (ask i).run q.1 q.2) (is.take asked.length) asked := by
  induction h with
  | nil s => exact .nil
  | fail hask => exact .cons hask .nil
  | stop hask _ => exact .cons hask .nil
  | next hask _ _ ih => exact .cons hask ih

/-- A walk fails with the answer to one of its questions. -/
theorem Walked.error_mem {e : ε} (h : Walked ask step stop is s asked (.error e)) :
    .error e ∈ asked.map Prod.snd := by
  generalize hresult : (Except.error e : Except ε σ) = result at h
  induction h with
  | nil => cases hresult
  | fail => exact Except.error.inj hresult ▸ List.mem_singleton_self _
  | stop => cases hresult
  | next _ _ _ ih => exact List.mem_cons_of_mem _ (ih hresult)

/-- What holds at the start of a walk and after each of its answers holds of what it
returns. -/
theorem Walked.keeps {P : σ → Prop} (h : Walked ask step stop is s asked result)
    (hstep : ∀ i tr b s, Executes (ask i).run tr (.ok b) → (tr, .ok b) ∈ asked → P s →
      P (step s b)) (hs : P s) {t : σ} (ht : result = .ok t) : P t := by
  induction h with
  | nil s => exact Except.ok.inj ht ▸ hs
  | fail => cases ht
  | stop hask _ =>
    obtain rfl := Except.ok.inj ht
    exact hstep _ _ _ _ hask List.mem_cons_self hs
  | next hask _ _ ih =>
    exact ih (fun i tr b s hrun hmem => hstep i tr b s hrun (List.mem_cons_of_mem _ hmem))
      (hstep _ _ _ _ hask List.mem_cons_self hs) ht

end Walk

end CardDavMcp.Library.Interaction
