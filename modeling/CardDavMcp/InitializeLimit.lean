import CardDavMcp.RateLimitRuns

namespace CardDavMcp.InitializeLimit

open Library.Utf8Text Library.Table Library.Gcra Library.Runs RateLimit RateLimitMap RateLimitRuns

/-- At most as many distinct keys reach a map as it may hold. -/
def Few (log : List Access) : Prop := (log.map Access.key).toFinset.card ≤ MAX_BUCKETS_PER_MAP

theorem Few.of_subset {log log' : List Access} (h : Few log) (hsub : log' ⊆ log) : Few log' := by
  refine (Finset.card_le_card fun key hkey => ?_).trans h
  rw [List.mem_toFinset] at hkey ⊢
  exact List.map_subset _ hsub hkey

/-- A map that nothing is evicted from holds the keys that were accessed. -/
def Holds (log : List Access) (map : BucketMap) : Prop :=
  ∀ key, key ∈ map ↔ key ∈ log.map Access.key

variable {q : Quota} {log : List Access} {x : Access} {map : BucketMap}

/-- There is room for a new key in a map that few keys reach. -/
theorem Holds.room (h : Holds log map) (hfew : Few (log ++ [x])) (hnew : map.lookup x.key = none) :
    len map < MAX_BUCKETS_PER_MAP := by
  refine len_lt_of_new (fun key hkey => ?_) hfew (by simp) hnew
  rw [List.map_append]
  exact List.mem_append_left _ ((h key).mp hkey)

theorem Holds.step (h : Holds log map) (hfew : Few (log ++ [x])) {map' : BucketMap}
    (hs : AccessStep q map x map') : Holds (log ++ [x]) map' := by
  obtain ⟨order, hcharge⟩ := hs
  have hmap : map' = (charge order q x.now x.key map).2 := by rw [hcharge]
  subst hmap
  intro key
  rw [← AList.lookup_isSome, List.map_append, List.mem_append, List.map_singleton,
    List.mem_singleton]
  by_cases hkey : key = x.key
  · subst hkey
    simp [charge_self]
  · rw [lookup_charge_room (h.room hfew) hkey, AList.lookup_isSome, h key]
    simp [hkey]

theorem Holds.of_run (h : Run (AccessStep q) ∅ log map) (hfew : Few log) : Holds log map :=
  h.invariant Few (fun _ _ h => h.of_subset (List.subset_append_left _ _)) (fun key => by simp)
    (fun _ _ _ _ hinv ha hs => hinv.step ha hs) hfew

/-- Whose bucket a call is charged to. -/
def chargedTo (bearerHash : Text) : Option Text → Identity × Text
  | none => (.bearer, bearerHash)
  | some s => (.sub, s)

/-- What a call is given. -/
def input (c : InitializeCheck) : Text × Option Text × Nat := (c.bearerHash, c.sub, c.now)

def answer (id : Identity) (allowed : Bool) : Except RejectedBy Unit :=
  if allowed then .ok () else .error (match id with | .bearer => .bearer | .sub => .subject)

theorem initializeStep_iff {l l' : InitializeLimiter} {c : InitializeCheck} :
    InitializeStep l c l' ↔ ∃ order,
      chargeIn order l.quota c.now (chargedTo c.bearerHash c.sub).1 (chargedTo c.bearerHash c.sub).2
        l.maps = (c.charge, l'.maps) ∧
      l'.quota = l.quota ∧ c.result = answer (chargedTo c.bearerHash c.sub).1 c.charge.allowed := by
  apply exists_congr
  intro order
  unfold InitializeLimiter.check
  obtain ⟨bearerHash, sub, now, result, ch⟩ := c
  obtain ⟨quota, maps'⟩ := l'
  cases sub <;> simp only [chargedTo, answer, Prod.mk.injEq, InitializeLimiter.mk.injEq] <;> grind

/-- A limiter that keeps every bucket for ever. -/
def IdealStep (q : Quota) (s : Identity × Text → Nat) (c : InitializeCheck)
    (s' : Identity × Text → Nat) : Prop :=
  let bucket := chargedTo c.bearerHash c.sub
  c.charge = ⟨bucket.1, bucket.2, c.now, (check q (s bucket) c.now).1⟩ ∧
    c.result = answer bucket.1 c.charge.allowed ∧
    s' = Function.update s bucket (check q (s bucket) c.now).2

def Couples (l : InitializeLimiter) (s : Identity × Text → Nat) : Prop :=
  ∀ id key, s (id, key) = bucketOf (l.maps id) key

def hasRoom (l : InitializeLimiter) (c : InitializeCheck) : Prop :=
  let bucket := chargedTo c.bearerHash c.sub
  (l.maps bucket.1).lookup bucket.2 = none → len (l.maps bucket.1) < MAX_BUCKETS_PER_MAP

theorem Couples.charged {l l' : InitializeLimiter} {s : Identity × Text → Nat} {c : InitializeCheck}
    {order : MapOrder} (h : Couples l s) (hroom : hasRoom l c)
    (hmaps : l'.maps = Function.update l.maps (chargedTo c.bearerHash c.sub).1
      (charge order l.quota c.now (chargedTo c.bearerHash c.sub).2
        (l.maps (chargedTo c.bearerHash c.sub).1)).2) :
    Couples l' (Function.update s (chargedTo c.bearerHash c.sub)
      (check l.quota (s (chargedTo c.bearerHash c.sub)) c.now).2) := by
  generalize hbucket : chargedTo c.bearerHash c.sub = bucket at *
  obtain ⟨id, key⟩ := bucket
  rw [hasRoom, hbucket] at hroom
  intro id' key'
  rw [hmaps]
  by_cases hid : id' = id
  · subst hid
    rw [Function.update_self, bucketOf_charge hroom]
    by_cases hkey : key' = key
    · subst hkey
      rw [Function.update_self, if_pos rfl, h]
    · rw [Function.update_of_ne (by simp [hkey]), if_neg hkey, h]
  · rw [Function.update_of_ne (by simp [hid]), Function.update_of_ne hid, h]

/-- Where there is room, a call of the limiter is a call of the ideal one. -/
theorem Couples.ideal {l l' : InitializeLimiter} {s : Identity × Text → Nat} {c : InitializeCheck}
    (h : Couples l s) (hroom : hasRoom l c) (hs : InitializeStep l c l') :
    ∃ s', IdealStep l.quota s c s' ∧ Couples l' s' := by
  obtain ⟨order, hcharge, -, hresult⟩ := initializeStep_iff.mp hs
  rw [chargeIn_eq, Prod.mk.injEq] at hcharge
  refine ⟨_, ⟨?_, hresult, rfl⟩, h.charged hroom hcharge.2.symm⟩
  rw [← hcharge.1, ← h]

theorem Couples.real {l : InitializeLimiter} {s s' : Identity × Text → Nat} {c : InitializeCheck}
    (h : Couples l s) (hroom : hasRoom l c) (hs : IdealStep l.quota s c s') :
    ∃ l', InitializeStep l c l' ∧ l'.quota = l.quota ∧ Couples l' s' := by
  obtain ⟨hcharge, hresult, rfl⟩ := hs
  let bucket := chargedTo c.bearerHash c.sub
  let after := (charge .asStored l.quota c.now bucket.2 (l.maps bucket.1)).2
  refine ⟨⟨l.quota, Function.update l.maps bucket.1 after⟩,
    initializeStep_iff.mpr ⟨.asStored, ?_, rfl, hresult⟩, rfl, h.charged hroom rfl⟩
  rw [chargeIn_eq, hcharge, ← h]

/-- The keys that a run brings to each map are few. -/
def FewKeys (log : List InitializeCheck) : Prop :=
  ∀ id, Few (accessesOf id (log.map InitializeCheck.charge))

theorem FewKeys.of_sublist {log log' : List InitializeCheck} (h : FewKeys log)
    (hsub : log'.Sublist log) :
    FewKeys log' :=
  fun id => (h id).of_subset ((hsub.map InitializeCheck.charge).filterMap _).subset

/-- The keys that calls bring to a map depend on what the calls are given. -/
theorem keys_of_inputs {log : List InitializeCheck} (id : Identity)
    (hlog : ∀ c ∈ log, c.charge.map = (chargedTo c.bearerHash c.sub).1 ∧
      c.charge.key = (chargedTo c.bearerHash c.sub).2) :
    (accessesOf id (log.map InitializeCheck.charge)).map Access.key =
      (log.map input).filterMap (fun i =>
        if (chargedTo i.1 i.2.1).1 = id then some (chargedTo i.1 i.2.1).2 else none) := by
  rw [accessesOf, List.filterMap_map, List.map_filterMap, List.filterMap_map]
  apply List.filterMap_congr
  intro c hc
  obtain ⟨hmap, hkey⟩ := hlog c hc
  simp only [Function.comp, input, hmap]
  split_ifs with hid <;> simp [hid, hkey]

/-- In a run that few keys reach there is always room. -/
theorem room_of_run {l₀ l : InitializeLimiter} {log : List InitializeCheck} {c : InitializeCheck}
    (hnew : ∀ id, l₀.maps id = ∅) (h : Run InitializeStep l₀ log l) (hfew : FewKeys (log ++ [c]))
    (hc : c.charge.map = (chargedTo c.bearerHash c.sub).1 ∧
      c.charge.key = (chargedTo c.bearerHash c.sub).2) : hasRoom l c := by
  have hrun := run_accesses (initialize_runs h).2 c.charge.map
  rw [hnew] at hrun
  have hfew' := hfew c.charge.map
  rw [List.map_append, accessesOf_append, List.map_singleton, accessesOf_self] at hfew'
  have hholds := Holds.of_run hrun (hfew'.of_subset (List.subset_append_left _ _))
  rw [hasRoom, ← hc.1, ← hc.2]
  exact hholds.room hfew'

theorem initializeStep_charge {l l' : InitializeLimiter} {c : InitializeCheck}
    (h : InitializeStep l c l') : c.charge.map = (chargedTo c.bearerHash c.sub).1 ∧
      c.charge.key = (chargedTo c.bearerHash c.sub).2 ∧ c.charge.now = c.now := by
  obtain ⟨order, hcharge, -, -⟩ := initializeStep_iff.mp h
  rw [chargeIn_eq, Prod.mk.injEq] at hcharge
  rw [← hcharge.1]
  exact ⟨rfl, rfl, rfl⟩

theorem FewKeys.of_input {l₀ l l' : InitializeLimiter} {log log' : List InitializeCheck}
    (h : FewKeys log') (hrun : Run InitializeStep l₀ log l) (hrun' : Run InitializeStep l₀ log' l')
    (hinput : log.map input = log'.map input) : FewKeys log := by
  have hcharges {log : List InitializeCheck} {l : InitializeLimiter}
    (h : Run InitializeStep l₀ log l) :
      ∀ c ∈ log, c.charge.map = (chargedTo c.bearerHash c.sub).1 ∧
        c.charge.key = (chargedTo c.bearerHash c.sub).2 := by
    intro c hc
    obtain ⟨u, u', hs⟩ := h.step_of_mem hc
    exact ⟨(initializeStep_charge hs).1, (initializeStep_charge hs).2.1⟩
  intro id
  have hid := h id
  rw [Few, keys_of_inputs id (hcharges hrun')] at hid
  rw [Few, keys_of_inputs id (hcharges hrun), hinput]
  exact hid

/-- A run that few keys reach is a run of the ideal limiter. -/
theorem run_ideal {l₀ l : InitializeLimiter} {log : List InitializeCheck}
    (hnew : ∀ id, l₀.maps id = ∅) (h : Run InitializeStep l₀ log l) (hfew : FewKeys log) :
    ∃ s, Run (IdealStep l₀.quota) (fun _ => full) log s ∧ Couples l s := by
  induction h with
  | nil => exact ⟨_, .nil, fun id key => by simp [hnew, bucketOf]⟩
  | snoc hrun hs ih =>
    obtain ⟨s, hideal, hcouples⟩ := ih (hfew.of_sublist (List.sublist_append_left _ _))
    have hcharge := initializeStep_charge hs
    obtain ⟨s', hstep, hcouples'⟩ :=
      hcouples.ideal (room_of_run hnew hrun hfew ⟨hcharge.1, hcharge.2.1⟩) hs
    rw [(initialize_runs hrun).1] at hstep
    exact ⟨s', .snoc hideal hstep, hcouples'⟩

/-- And a run of the ideal limiter that few keys reach is a run of the real one. -/
theorem run_real {l₀ : InitializeLimiter} {log : List InitializeCheck} {s : Identity × Text → Nat}
    (hnew : ∀ id, l₀.maps id = ∅) (h : Run (IdealStep l₀.quota) (fun _ => full) log s)
    (hfew : FewKeys log) : ∃ l, Run InitializeStep l₀ log l ∧ Couples l s := by
  induction h with
  | nil => exact ⟨_, .nil, fun id key => by simp [hnew, bucketOf]⟩
  | snoc hideal hs ih =>
    obtain ⟨l, hrun, hcouples⟩ := ih (hfew.of_sublist (List.sublist_append_left _ _))
    have hcharge := hs.1
    have hroom := room_of_run hnew hrun hfew (by rw [hcharge]; exact ⟨rfl, rfl⟩)
    rw [← (initialize_runs hrun).1] at hs
    obtain ⟨l', hstep, -, hcouples'⟩ := hcouples.real hroom hs
    exact ⟨l', .snoc hrun hstep, hcouples'⟩

/-- Refused calls are taken out of a run, any of them. -/
inductive Drops : List InitializeCheck → List InitializeCheck → Prop
  | nil : Drops [] []
  | keep {log log' : List InitializeCheck} (c : InitializeCheck) :
      Drops log log' → Drops (log ++ [c]) (log' ++ [c])
  | drop {log log' : List InitializeCheck} (c : InitializeCheck) :
      c.result ≠ .ok () → Drops log log' → Drops (log ++ [c]) log'

theorem Drops.sublist {log log' : List InitializeCheck} (h : Drops log log') :
    log'.Sublist log := by
  induction h with
  | nil => exact .slnil
  | keep c _ ih => exact ih.append (.refl _)
  | drop c _ _ ih => exact ih.trans (List.sublist_append_left _ _)

theorem answer_ok {id : Identity} {allowed : Bool} :
    answer id allowed = .ok () ↔ allowed = true := by
  cases allowed <;> simp [answer]

/-- A refused call leaves every bucket as it is. -/
theorem IdealStep.refused {s s' : Identity × Text → Nat} {c : InitializeCheck}
    (h : IdealStep q s c s') (hc : c.result ≠ .ok ()) : s' = s := by
  obtain ⟨hcharge, hresult, rfl⟩ := h
  rw [hresult, Ne, answer_ok, hcharge, Bool.not_eq_true, check_fst] at hc
  rw [check_of_not_conforms hc, Function.update_eq_self]

theorem Drops.ideal {log log' : List InitializeCheck} (h : Drops log log')
    {s₀ s : Identity × Text → Nat} (hrun : Run (IdealStep q) s₀ log s) :
    Run (IdealStep q) s₀ log' s := by
  induction h generalizing s with
  | nil => exact hrun
  | keep c _ ih =>
    obtain ⟨u, hu, hs⟩ := hrun.of_snoc
    exact .snoc (ih hu) hs
  | drop c hc _ ih =>
    obtain ⟨u, hu, hs⟩ := hrun.of_snoc
    rw [hs.refused hc]
    exact ih hu

/-- The limiter with two buckets: it accepts when both would allow, and
charges both, and only then. -/
def TwoBucketStep (q : Quota) (s : Identity × Text → Nat) (c : InitializeCheck)
    (s' : Identity × Text → Nat) : Prop :=
  ∃ subject, c.sub = some subject ∧
    let allowed :=
      conforms q (s (.bearer, c.bearerHash)) c.now && conforms q (s (.sub, subject)) c.now
    (c.result = .ok () ↔ allowed = true) ∧
    s' = if allowed then Function.update (Function.update s
        (.bearer, c.bearerHash) (check q (s (.bearer, c.bearerHash)) c.now).2)
        (.sub, subject) (check q (s (.sub, subject)) c.now).2
      else s

/-- The two-bucket limiter holds the subjects' buckets of the ideal one, and
no bearer's bucket is emptier than that of its subject. -/
structure Tighter (owner : Text → Text) (s t : Identity × Text → Nat) : Prop where
  subject : ∀ key, t (.sub, key) = s (.sub, key)
  bearer : ∀ key, t (.bearer, key) ≤ t (.sub, owner key)

theorem Tighter.step {owner : Text → Text} {s s' t : Identity × Text → Nat} {c : InitializeCheck}
    (h : Tighter owner s t) (hsub : c.sub = some (owner c.bearerHash)) (hs : IdealStep q s c s') :
    ∃ t', TwoBucketStep q t c t' ∧ Tighter owner s' t' := by
  obtain ⟨hcharge, hresult, hs'⟩ := hs
  rw [hcharge] at hresult
  simp only [hsub, chargedTo, check_fst, ← h.subject] at hresult hs'
  have hle := h.bearer c.bearerHash
  cases hc : conforms q (t (.sub, owner c.bearerHash)) c.now with
  | false =>
    have hsame : s' = s := by
      rw [hs', check_of_not_conforms hc, h.subject, Function.update_eq_self]
    refine ⟨t, ⟨_, hsub, ?_, by simp [hc]⟩, hsame ▸ h⟩
    rw [hresult, answer_ok, hc, Bool.and_false]
  | true =>
    have hb := conforms_anti hle hc
    refine ⟨_, ⟨_, hsub, by rw [hresult, answer_ok, hb, hc]; rfl, rfl⟩, ?_, ?_⟩
    all_goals
      intro key
      simp only [hb, hc, Bool.and_self, if_true, hs']
    · by_cases hkey : key = owner c.bearerHash
      · subst hkey
        rw [Function.update_self, Function.update_self]
      · rw [Function.update_of_ne (by simp [hkey]), Function.update_of_ne (by simp),
          Function.update_of_ne (by simp [hkey]), h.subject]
    · have hsubject : t (.sub, owner key) ≤ (Function.update (Function.update t
          (.bearer, c.bearerHash) (check q (t (.bearer, c.bearerHash)) c.now).2)
          (.sub, owner c.bearerHash) (check q (t (.sub, owner c.bearerHash)) c.now).2)
            (.sub, owner key) := by
        by_cases howner : owner key = owner c.bearerHash
        · rw [howner, Function.update_self]
          exact check_ge
        · rw [Function.update_of_ne (by simp [howner]), Function.update_of_ne (by simp)]
      rw [Function.update_of_ne (by simp)]
      by_cases hkey : key = c.bearerHash
      · subst hkey
        rw [Function.update_self, Function.update_self, check_of_conforms hb, check_of_conforms hc]
        dsimp only
        omega
      · rw [Function.update_of_ne (by simp [hkey])]
        exact (h.bearer key).trans hsubject

theorem run_two_buckets {owner : Text → Text} {log : List InitializeCheck}
    (hsub : ∀ c ∈ log, c.sub = some (owner c.bearerHash)) {s : Identity × Text → Nat}
    (h : Run (IdealStep q) (fun _ => full) log s) :
    ∃ t, Run (TwoBucketStep q) (fun _ => full) log t ∧ Tighter owner s t := by
  induction h with
  | nil => exact ⟨_, .nil, fun _ => rfl, fun _ => le_rfl⟩
  | snoc _ hs ih =>
    obtain ⟨t, ht, htighter⟩ := ih (fun c hc => hsub c (List.mem_append_left _ hc))
    obtain ⟨t', hstep, htighter'⟩ := htighter.step (hsub _ (by simp)) hs
    exact ⟨t', .snoc ht hstep, htighter'⟩

/-- An accepted call adds one cell to the bucket it is charged to, and changes
no other bucket. -/
def ChargesOne (q : Quota) (l : InitializeLimiter) (c : InitializeCheck)
    (l' : InitializeLimiter) : Prop :=
  let bucket := chargedTo c.bearerHash c.sub
  bucketOf (l'.maps bucket.1) bucket.2 =
    max (bucketOf (l.maps bucket.1) bucket.2) c.now + q.period ∧
    bucketOf (l.maps bucket.1) bucket.2 < bucketOf (l'.maps bucket.1) bucket.2 ∧
    ∀ id key, (id, key) ≠ bucket → bucketOf (l'.maps id) key = bucketOf (l.maps id) key

theorem InitializeStep.chargesOne {l l' : InitializeLimiter} {c : InitializeCheck}
    (hroom : hasRoom l c)
    (hperiod : 0 < l.quota.period) (hs : InitializeStep l c l') (hok : c.result = .ok ()) :
    ChargesOne l.quota l c l' := by
  obtain ⟨order, hcharge, -, hresult⟩ := initializeStep_iff.mp hs
  rw [chargeIn_eq, Prod.mk.injEq] at hcharge
  obtain ⟨hcharge, hmaps⟩ := hcharge
  rw [hresult, answer_ok, ← hcharge, check_fst] at hok
  rw [ChargesOne]
  generalize hbucket : chargedTo c.bearerHash c.sub = bucket at *
  obtain ⟨id, key⟩ := bucket
  rw [hasRoom, hbucket] at hroom
  dsimp only at hroom hmaps hok ⊢
  have hself : bucketOf (l'.maps id) key =
    max (bucketOf (l.maps id) key) c.now + l.quota.period := by
    rw [← hmaps, Function.update_self, bucketOf_charge hroom, if_pos rfl, check_of_conforms hok]
  refine ⟨hself, by omega, fun id' key' hne => ?_⟩
  rw [← hmaps]
  by_cases hid : id' = id
  · subst hid
    rw [Function.update_self, bucketOf_charge hroom, if_neg (fun hkey => hne (by rw [hkey]))]
  · rw [Function.update_of_ne hid]

/-- The ideal limiter answers the same calls in the same way. -/
theorem ideal_determined {s₀ s s' : Identity × Text → Nat} {log log' : List InitializeCheck}
    (h : Run (IdealStep q) s₀ log s) (h' : Run (IdealStep q) s₀ log' s')
    (hinput : log.map input = log'.map input) : log = log' ∧ s = s' := by
  induction h generalizing log' s' with
  | nil =>
    obtain rfl : log' = [] := by simpa using hinput.symm
    exact ⟨rfl, h'.of_nil.symm⟩
  | snoc hrun hs ih =>
    rename_i log u t c
    obtain rfl | ⟨log', c', rfl⟩ := log'.eq_nil_or_concat
    · simp at hinput
    rw [List.concat_eq_append] at hinput h' ⊢
    rw [List.map_append, List.map_append] at hinput
    obtain ⟨hlog, hc⟩ := List.append_inj' hinput rfl
    obtain ⟨u', hrun', hs'⟩ := h'.of_snoc
    obtain ⟨rfl, rfl⟩ := ih hrun' hlog
    obtain ⟨hcharge, hresult, rfl⟩ := hs
    obtain ⟨hcharge', hresult', rfl⟩ := hs'
    obtain ⟨bearerHash, sub, now, result, ch⟩ := c
    obtain ⟨bearerHash', sub', now', result', ch'⟩ := c'
    simp only [List.map_cons, List.map_nil, List.cons.injEq, input, Prod.mk.injEq, and_true] at hc
    obtain ⟨rfl, rfl, rfl⟩ := hc
    dsimp only at hcharge hcharge' hresult hresult'
    subst hcharge hcharge' hresult hresult'
    exact ⟨rfl, rfl⟩

/-- Charging the subject alone gives nothing up, refused calls leave no trace,
and an accepted one is charged once. -/
theorem bearer_charge_redundant {replenish burst : Nat} {log : List InitializeCheck}
    {l : InitializeLimiter} (h : Run InitializeStep (.new replenish burst) log l)
    (hfew : FewKeys log) :
    (∀ owner : Text → Text, (∀ c ∈ log, c.sub = some (owner c.bearerHash)) →
      ∃ t, Run (TwoBucketStep (InitializeLimiter.new replenish burst).quota)
      (fun _ => full) log t) ∧
    (∀ log', Drops log log' → (∃ l', Run InitializeStep (.new replenish burst) log' l') ∧
      ∀ log'' l'', Run InitializeStep (.new replenish burst) log'' l'' →
        log''.map input = log'.map input → log'' = log') ∧
    ∀ a c b, log = a ++ c :: b → c.result = .ok () →
      ∃ u u', Run InitializeStep (.new replenish burst) a u ∧ InitializeStep u c u' ∧
        ChargesOne (InitializeLimiter.new replenish burst).quota u c u' := by
  have hnew : ∀ id, (InitializeLimiter.new replenish burst).maps id = ∅ := fun _ => rfl
  obtain ⟨s, hideal, -⟩ := run_ideal hnew h hfew
  refine ⟨fun owner hsub => ?_, fun log' hd => ?_, fun a c b hlog hok => ?_⟩
  · obtain ⟨t, ht, -⟩ := run_two_buckets hsub hideal
    exact ⟨t, ht⟩
  · have hfew' := hfew.of_sublist hd.sublist
    obtain ⟨l', hl', -⟩ := run_real hnew (hd.ideal hideal) hfew'
    refine ⟨⟨l', hl'⟩, fun log'' l'' hrun hinput => ?_⟩
    obtain ⟨s'', hideal'', -⟩ := run_ideal hnew hrun (hfew'.of_input hrun hl' hinput)
    exact (ideal_determined hideal'' (hd.ideal hideal) hinput).1
  · subst hlog
    obtain ⟨u, u', hu, hs, -⟩ := h.split
    have hcharge := initializeStep_charge hs
    have hquota := (initialize_runs hu).1
    refine ⟨u, u', hu, hs, hquota ▸ InitializeStep.chargesOne ?_ ?_ hs hok⟩
    · refine room_of_run hnew hu (hfew.of_sublist ?_) ⟨hcharge.1, hcharge.2.1⟩
      simp
    · rw [hquota, InitializeLimiter.new]
      dsimp only
      split_ifs with hzero
      · decide
      · exact Nat.pos_of_ne_zero hzero

/-- Two bearers of one subject with one cell between them: the second is
refused, and taking it out changes nothing for the third call. -/
def sampleInputs : List (Text × Option Text × Nat) :=
  [("h1".toList, some "s".toList, 5), ("h2".toList, some "s".toList, 6),
    ("h2".toList, some "s".toList, 6 + INITIALIZE_REPLENISH)]

def sampleLog (inputs : List (Text × Option Text × Nat)) : List InitializeCheck :=
  (initializeAll .asStored (.new INITIALIZE_REPLENISH 1) inputs).1

theorem bearer_charge_redundant_sample :
    (sampleLog sampleInputs).map (fun c => c.charge.allowed) = [true, false, true] ∧
    (∃ t, Run (TwoBucketStep (InitializeLimiter.new INITIALIZE_REPLENISH 1).quota) (fun _ => full)
      (sampleLog sampleInputs) t) := by
  have hfew : FewKeys (sampleLog sampleInputs) := by
    intro id
    cases id
    all_goals
      rw [Few]
      decide +kernel
  exact ⟨by decide +kernel, (bearer_charge_redundant (initializeAll_run _ _ _) hfew).1
    (fun _ => "s".toList) (by decide +kernel)⟩

end CardDavMcp.InitializeLimit
