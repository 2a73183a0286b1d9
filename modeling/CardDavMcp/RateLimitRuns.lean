import CardDavMcp.RateLimitMap

namespace CardDavMcp.RateLimitRuns

open Library.Utf8Text Library.Table Library.Gcra Library.Runs RateLimit RateLimitMap

section Family

variable {Id : Type} [DecidableEq Id]

/-- One charge in a family of maps that have a quota each. -/
def ChargeStep (quota : Id → Quota) (maps : Id → BucketMap) (c : Charge Id)
    (maps' : Id → BucketMap) : Prop :=
  ∃ order, chargeIn order (quota c.map) c.now c.map c.key maps = (c, maps')

/-- The accesses that charges make to one map. -/
def accessesOf (id : Id) (charges : List (Charge Id)) : List Access :=
  charges.filterMap (fun c => if c.map = id then some ⟨c.key, c.now, c.allowed⟩ else none)

theorem accessesOf_append (id : Id) (charges rest : List (Charge Id)) :
    accessesOf id (charges ++ rest) = accessesOf id charges ++ accessesOf id rest :=
  List.filterMap_append

theorem accessesOf_self (c : Charge Id) : accessesOf c.map [c] = [⟨c.key, c.now, c.allowed⟩] := by
  simp [accessesOf]

theorem accessesOf_other {id : Id} {c : Charge Id} (h : c.map ≠ id) : accessesOf id [c] = [] := by
  simp [accessesOf, h]

theorem ChargeStep.access {quota : Id → Quota} {maps maps' : Id → BucketMap} {c : Charge Id}
    (h : ChargeStep quota maps c maps') :
    AccessStep (quota c.map) (maps c.map) ⟨c.key, c.now, c.allowed⟩ (maps' c.map) ∧
      ∀ id, id ≠ c.map → maps' id = maps id := by
  obtain ⟨order, hc⟩ := h
  simp only [chargeIn, Prod.mk.injEq] at hc
  obtain ⟨hcharge, hmaps⟩ := hc
  have hallowed : c.allowed = (charge order (quota c.map) c.now c.key (maps c.map)).1 := by
    rw [← hcharge]
  refine ⟨⟨order, ?_⟩, fun id hid => ?_⟩
  · rw [← hmaps, Function.update_self]
    exact Prod.ext hallowed.symm rfl
  · rw [← hmaps, Function.update_of_ne hid]

/-- Each map of a family runs on its own accesses and on nothing else. -/
theorem run_accesses {quota : Id → Quota} {maps maps' : Id → BucketMap} {charges : List (Charge Id)}
    (h : Run (ChargeStep quota) maps charges maps') (id : Id) :
    Run (AccessStep (quota id)) (maps id) (accessesOf id charges) (maps' id) := by
  induction h with
  | nil => exact .nil
  | snoc hrun hs ih =>
    rename_i charges s t c
    rw [accessesOf_append]
    obtain ⟨haccess, hother⟩ := hs.access
    by_cases hid : c.map = id
    · subst hid
      rw [accessesOf_self]
      exact .snoc ih haccess
    · rw [accessesOf_other hid, List.append_nil, hother id (Ne.symm hid)]
      exact ih

theorem chargeIn_eq (order : MapOrder) (q : Quota) (now : Nat) (id : Id) (key : Text)
    (maps : Id → BucketMap) :
    chargeIn order q now id key maps =
      (⟨id, key, now, (check q (bucketOf (maps id) key) now).1⟩,
        Function.update maps id (charge order q now key (maps id)).2) := by
  rw [← charge_fst order]
  rfl

/-- The charges of one call: all at its time, no two in one map. -/
def OneCall (now : Nat) (charges : List (Charge Id)) : Prop :=
  (∀ c ∈ charges, c.now = now) ∧ charges.Pairwise (fun c d => c.map ≠ d.map)

theorem pairwise_accessesOf {Call : Type} {time : Call → Nat} {charges : Call → List (Charge Id)}
    {calls : List Call} {R : Nat → Nat → Prop} (hcalls : ∀ c ∈ calls, OneCall (time c) (charges c))
    (htime : (calls.map time).Pairwise R) (id : Id) :
    (accessesOf id (calls.flatMap charges)).Pairwise (fun x y => R x.now y.now) := by
  rw [accessesOf, List.pairwise_filterMap, List.pairwise_flatMap]
  rw [List.pairwise_map] at htime
  refine ⟨fun call hcall => ?_, htime.imp_of_mem fun {p p'} hp hp' hR c hc d hd => ?_⟩
  · refine (hcalls call hcall).2.imp fun {c d} hne x hx y hy => ?_
    split_ifs at hx hy with hcid hdid
    · exact absurd (hcid.trans hdid.symm) hne
  · intro x hx y hy
    split_ifs at hx hy
    cases hx
    cases hy
    rw [(hcalls p hp).1 c hc, (hcalls p' hp').1 d hd]
    exact hR

end Family

/-- A call of the tool limiter, with its answer and the charges it made. -/
structure ToolCheck where
  bearerHash : Text
  sub : Option Text
  category : Category
  now : Nat
  result : Except RateLimited Unit
  charges : List (Charge (Identity × Category))

def LimiterStep (l : Limiter) (c : ToolCheck) (l' : Limiter) : Prop :=
  ∃ order, l.check order c.bearerHash c.sub c.category c.now = (c.result, c.charges, l')

/-- A call of the session limiter. -/
structure InitializeCheck where
  bearerHash : Text
  sub : Option Text
  now : Nat
  result : Except RejectedBy Unit
  charge : Charge Identity

def InitializeStep (l : InitializeLimiter) (c : InitializeCheck) (l' : InitializeLimiter) : Prop :=
  ∃ order, l.check order c.bearerHash c.sub c.now = (c.result, c.charge, l')

/-- Calls of the tool limiter one after another. -/
def checkAll (order : Identity → MapOrder) (l : Limiter) :
    List (Text × Option Text × Category × Nat) → List ToolCheck × Limiter
  | [] => ([], l)
  | (bearerHash, sub, category, now) :: rest =>
    let (result, charges, l) := l.check order bearerHash sub category now
    let (log, l) := checkAll order l rest
    (⟨bearerHash, sub, category, now, result, charges⟩ :: log, l)

theorem checkAll_run (order : Identity → MapOrder) (l : Limiter)
    (calls : List (Text × Option Text × Category × Nat)) :
    Run LimiterStep l (checkAll order l calls).1 (checkAll order l calls).2 := by
  induction calls generalizing l with
  | nil => exact .nil
  | cons call rest ih => exact .cons ⟨order, rfl⟩ (ih _)

/-- Calls of the session limiter one after another. -/
def initializeAll (order : MapOrder) (l : InitializeLimiter) :
    List (Text × Option Text × Nat) → List InitializeCheck × InitializeLimiter
  | [] => ([], l)
  | (bearerHash, sub, now) :: rest =>
    let (result, charge, l) := l.check order bearerHash sub now
    let (log, l) := initializeAll order l rest
    (⟨bearerHash, sub, now, result, charge⟩ :: log, l)

theorem initializeAll_run (order : MapOrder) (l : InitializeLimiter)
    (calls : List (Text × Option Text × Nat)) :
    Run InitializeStep l (initializeAll order l calls).1 (initializeAll order l calls).2 := by
  induction calls generalizing l with
  | nil => exact .nil
  | cons call rest ih => exact .cons ⟨order, rfl⟩ (ih _)

theorem chargeIn_step {Id : Type} [DecidableEq Id] (quota : Id → Quota) {order : MapOrder} {id : Id}
    {now : Nat} {key : Text} {maps maps' : Id → BucketMap} {c : Charge Id}
    (h : chargeIn order (quota id) now id key maps = (c, maps')) :
    ChargeStep quota maps c maps' ∧ c.map = id ∧ c.now = now ∧ c.key = key := by
  have hc : c = ⟨id, key, now, (charge order (quota id) now key (maps id)).1⟩ := by
    simp only [chargeIn, Prod.mk.injEq] at h
    exact h.1.symm
  subst hc
  exact ⟨⟨order, h⟩, rfl, rfl, rfl⟩

def toolQuota (l : Limiter) (id : Identity × Category) : Quota := l.quota id.2

/-- A call of the tool limiter charges the bearer's map and then, if that
allowed it, the subject's. -/
theorem LimiterStep.charges {l l' : Limiter} {c : ToolCheck} (h : LimiterStep l c l') :
    toolQuota l' = toolQuota l ∧ Run (ChargeStep (toolQuota l)) l.maps c.charges l'.maps ∧
      OneCall c.now c.charges := by
  obtain ⟨order, hcheck⟩ := h
  rw [Limiter.check] at hcheck
  generalize hbearer : chargeIn (order .bearer) (l.quota c.category) c.now (.bearer, c.category)
    c.bearerHash l.maps = bearer at hcheck
  obtain ⟨bearer, maps⟩ := bearer
  obtain ⟨hb, hbmap, hbnow, -⟩ := chargeIn_step (toolQuota l) hbearer
  have hrun : Run (ChargeStep (toolQuota l)) l.maps [bearer] maps := .cons hb .nil
  have hone : OneCall c.now [bearer] := ⟨by simp [hbnow], by simp⟩
  cases hallowed : bearer.allowed with
  | false =>
    simp only [hallowed, Bool.not_false, if_true, Prod.mk.injEq] at hcheck
    obtain ⟨-, hcharges, rfl⟩ := hcheck
    rw [← hcharges]
    exact ⟨rfl, hrun, hone⟩
  | true =>
    cases hsub : c.sub with
    | none =>
      simp only [hallowed, hsub, Bool.not_true, Bool.false_eq_true, if_false,
        Prod.mk.injEq] at hcheck
      obtain ⟨-, hcharges, rfl⟩ := hcheck
      rw [← hcharges]
      exact ⟨rfl, hrun, hone⟩
    | some s =>
      simp only [hallowed, hsub, Bool.not_true, Bool.false_eq_true, if_false,
        Prod.mk.injEq] at hcheck
      generalize hsubject : chargeIn (order .sub) (l.quota c.category) c.now (.sub, c.category) s
        maps = subject at hcheck
      obtain ⟨subject, maps'⟩ := subject
      obtain ⟨hs, hsmap, hsnow, -⟩ := chargeIn_step (toolQuota l) hsubject
      obtain ⟨-, hcharges, rfl⟩ := hcheck
      rw [← hcharges]
      refine ⟨rfl, .cons hb (.cons hs .nil), by simp [hbnow, hsnow], ?_⟩
      simp [hbmap, hsmap]

theorem InitializeStep.charges {l l' : InitializeLimiter} {c : InitializeCheck}
    (h : InitializeStep l c l') :
    l'.quota = l.quota ∧ Run (ChargeStep (fun _ => l.quota)) l.maps [c.charge] l'.maps ∧
      OneCall c.now [c.charge] := by
  obtain ⟨order, hcheck⟩ := h
  unfold InitializeLimiter.check at hcheck
  cases hsub : c.sub with
  | none =>
    simp only [hsub] at hcheck
    generalize hbearer : chargeIn order l.quota c.now .bearer c.bearerHash l.maps = bearer at hcheck
    obtain ⟨bearer, maps⟩ := bearer
    obtain ⟨hb, -, hbnow, -⟩ := chargeIn_step (fun _ => l.quota) hbearer
    simp only [Prod.mk.injEq] at hcheck
    obtain ⟨-, rfl, rfl⟩ := hcheck
    exact ⟨rfl, .cons hb .nil, by simp [hbnow], by simp⟩
  | some s =>
    simp only [hsub] at hcheck
    generalize hsubject : chargeIn order l.quota c.now .sub s l.maps = subject at hcheck
    obtain ⟨subject, maps⟩ := subject
    obtain ⟨hs, -, hsnow, -⟩ := chargeIn_step (fun _ => l.quota) hsubject
    simp only [Prod.mk.injEq] at hcheck
    obtain ⟨-, rfl, rfl⟩ := hcheck
    exact ⟨rfl, .cons hs .nil, by simp [hsnow], by simp⟩

theorem run_limiter {l l' : Limiter} {log : List ToolCheck} (h : Run LimiterStep l log l') :
    toolQuota l' = toolQuota l ∧
      Run (ChargeStep (toolQuota l)) l.maps (log.flatMap ToolCheck.charges) l'.maps := by
  induction h with
  | nil => exact ⟨rfl, .nil⟩
  | snoc _ hs ih =>
    obtain ⟨hquota, hrun⟩ := ih
    obtain ⟨hquota', hrun', -⟩ := hs.charges
    rw [hquota] at hquota' hrun'
    rw [List.flatMap_append, List.flatMap_singleton]
    exact ⟨hquota', hrun.append hrun'⟩

theorem initialize_runs {l l' : InitializeLimiter} {log : List InitializeCheck}
    (h : Run InitializeStep l log l') :
    l'.quota = l.quota ∧
      Run (ChargeStep (fun _ => l.quota)) l.maps (log.map InitializeCheck.charge) l'.maps := by
  induction h with
  | nil => exact ⟨rfl, .nil⟩
  | snoc _ hs ih =>
    obtain ⟨hquota, hrun⟩ := ih
    obtain ⟨hquota', hrun', -⟩ := hs.charges
    rw [hquota] at hquota' hrun'
    rw [List.map_append]
    exact ⟨hquota', hrun.append hrun'⟩

end CardDavMcp.RateLimitRuns
