import CardDavMcp.RateLimitRuns
import Mathlib.Algebra.GroupWithZero.Nat

namespace CardDavMcp.RefusedCalls

open Library.Utf8Text Library.Table Library.Gcra Library.Runs RateLimit RateLimitMap RateLimitRuns

/-- A map and a key in it. -/
abbrev Slot := (Identity × Category) × Text

def bucketAt (maps : Identity × Category → BucketMap) (slot : Slot) : Nat :=
  bucketOf (maps slot.1) slot.2

def bearerSlot (c : ToolCheck) : Slot := ((.bearer, c.category), c.bearerHash)

def subjectSlot (c : ToolCheck) (subject : Text) : Slot := ((.sub, c.category), subject)

/-- The buckets that a call may be charged to. -/
def slotsOf (c : ToolCheck) : List Slot := bearerSlot c :: c.sub.toList.map (subjectSlot c)

section Charges

variable {order : MapOrder} {q : Quota} {now : Nat} {slot other : Slot}
  {maps : Identity × Category → BucketMap}

theorem chargeIn_allowed :
    (chargeIn order q now slot.1 slot.2 maps).1.allowed = conforms q (bucketAt maps slot) now := by
  rw [chargeIn_eq, ← check_fst]
  rfl

theorem chargeIn_maps : (chargeIn order q now slot.1 slot.2 maps).2 =
    Function.update maps slot.1 (charge order q now slot.2 (maps slot.1)).2 := rfl

theorem bucketAt_charged : bucketAt (chargeIn order q now slot.1 slot.2 maps).2 slot =
    (check q (bucketAt maps slot) now).2 := by
  rw [chargeIn_maps, bucketAt, Function.update_self, bucketOf, charge_self]
  rfl

theorem chargeIn_other {id : Identity × Category} (h : id ≠ slot.1) :
    (chargeIn order q now slot.1 slot.2 maps).2 id = maps id := Function.update_of_ne h ..

theorem bucketAt_other_map (h : other.1 ≠ slot.1) :
    bucketAt (chargeIn order q now slot.1 slot.2 maps).2 other = bucketAt maps other := by
  rw [bucketAt, chargeIn_other h, bucketAt]

def HasRoom (maps : Identity × Category → BucketMap) (slot : Slot) : Prop :=
  (maps slot.1).lookup slot.2 = none → len (maps slot.1) < MAX_BUCKETS_PER_MAP

theorem bucketAt_other (hroom : HasRoom maps slot) (h : other ≠ slot) :
    bucketAt (chargeIn order q now slot.1 slot.2 maps).2 other = bucketAt maps other := by
  by_cases hmap : other.1 = slot.1
  · have hkey : other.2 ≠ slot.2 := fun hkey => h (Prod.ext hmap hkey)
    rw [chargeIn_maps, bucketAt, hmap, Function.update_self, bucketOf_charge hroom, if_neg hkey,
      bucketAt, hmap]
  · exact bucketAt_other_map hmap

end Charges

variable {limiter l l' : Limiter} {c : ToolCheck} {log log' : List ToolCheck}

/-- What a call can do: the bearer's bucket refuses it, or allows it and there
is no subject, or the subject's bucket decides. -/
theorem step_cases (h : LimiterStep l c l') : ∃ order : Identity → MapOrder,
    let bearer :=
      chargeIn (order .bearer) (l.quota c.category) c.now (bearerSlot c).1 (bearerSlot c).2 l.maps
    (bearer.1.allowed = false ∧ c.result = .error .rateLimited ∧ l' = { l with maps := bearer.2 }) ∨
    (bearer.1.allowed = true ∧ c.sub = none ∧ c.result = .ok () ∧
      l' = { l with maps := bearer.2 }) ∨
    ∃ s, bearer.1.allowed = true ∧ c.sub = some s ∧
      let subject := chargeIn (order .sub) (l.quota c.category) c.now (subjectSlot c s).1
        (subjectSlot c s).2 bearer.2
      c.result = (if subject.1.allowed then .ok () else .error .rateLimited) ∧
        l' = { l with maps := subject.2 } := by
  obtain ⟨order, hcheck⟩ := h
  refine ⟨order, ?_⟩
  dsimp only [bearerSlot, subjectSlot]
  rw [Limiter.check] at hcheck
  generalize chargeIn (order .bearer) (l.quota c.category) c.now (.bearer, c.category)
    c.bearerHash l.maps =
      bearer at hcheck ⊢
  obtain ⟨bearer, maps⟩ := bearer
  dsimp only at hcheck ⊢
  cases hallowed : bearer.allowed with
  | false =>
    simp only [hallowed, Bool.not_false, if_true, Prod.mk.injEq] at hcheck
    exact .inl ⟨rfl, hcheck.1.symm, hcheck.2.2.symm⟩
  | true =>
    right
    simp only [hallowed, Bool.not_true, Bool.false_eq_true, if_false] at hcheck
    cases hsub : c.sub with
    | none =>
      simp only [hsub, Prod.mk.injEq] at hcheck
      exact .inl ⟨rfl, rfl, hcheck.1.symm, hcheck.2.2.symm⟩
    | some s =>
      simp only [hsub, Prod.mk.injEq] at hcheck
      exact .inr ⟨s, rfl, rfl, hcheck.1.symm, hcheck.2.2.symm⟩

/-- Every bucket of a call would let it through. -/
def Allowed (l : Limiter) (c : ToolCheck) : Prop :=
  ∀ slot ∈ slotsOf c, conforms (l.quota c.category) (bucketAt l.maps slot) c.now = true

theorem allowed_iff : Allowed l c ↔
    conforms (l.quota c.category) (bucketAt l.maps (bearerSlot c)) c.now = true ∧
      ∀ s, c.sub = some s →
        conforms (l.quota c.category) (bucketAt l.maps (subjectSlot c s)) c.now = true := by
  simp [Allowed, slotsOf]

/-- The bearer's bucket lets a call through that the subject's bucket refuses. -/
def Wasted (l : Limiter) (c : ToolCheck) : Prop :=
  conforms (l.quota c.category) (bucketAt l.maps (bearerSlot c)) c.now = true ∧
    ∃ s, c.sub = some s ∧
      conforms (l.quota c.category) (bucketAt l.maps (subjectSlot c s)) c.now = false

/-- What a call does to the buckets. -/
structure StepSpec (l : Limiter) (c : ToolCheck) (l' : Limiter) : Prop where
  quota : l'.quota = l.quota
  result : c.result = .ok () ↔ Allowed l c
  bearer : bucketAt l'.maps (bearerSlot c) =
    (check (l.quota c.category) (bucketAt l.maps (bearerSlot c)) c.now).2
  subject : ∀ s, c.sub = some s → bucketAt l'.maps (subjectSlot c s) =
    if conforms (l.quota c.category) (bucketAt l.maps (bearerSlot c)) c.now then
      (check (l.quota c.category) (bucketAt l.maps (subjectSlot c s)) c.now).2
    else bucketAt l.maps (subjectSlot c s)
  others : (∀ slot ∈ slotsOf c, HasRoom l.maps slot) → ∀ slot, slot ∉ slotsOf c →
    bucketAt l'.maps slot = bucketAt l.maps slot

theorem step_spec (h : LimiterStep l c l') : StepSpec l c l' := by
  have hmaps : ∀ s, (subjectSlot c s).1 ≠ (bearerSlot c).1 := by simp [subjectSlot, bearerSlot]
  have hslots : ∀ s, subjectSlot c s ≠ bearerSlot c := fun s heq => hmaps s (congrArg Prod.fst heq)
  have hmem : bearerSlot c ∈ slotsOf c := List.mem_cons_self ..
  obtain ⟨order, hcases⟩ := step_cases h
  simp only [chargeIn_allowed] at hcases
  obtain ⟨hbearer, hresult, rfl⟩ | ⟨hbearer, hsub, hresult, rfl⟩ |
    ⟨s, hbearer, hsub, hresult, rfl⟩ := hcases
  · constructor
    · rfl
    · simp [hresult, allowed_iff, hbearer]
    · exact bucketAt_charged
    · intro s _
      rw [if_neg (by simp [hbearer])]
      exact bucketAt_other_map (hmaps s)
    · intro hroom slot hslot
      exact bucketAt_other (hroom _ hmem) fun heq => hslot (heq ▸ hmem)
  · constructor
    · rfl
    · simp [hresult, allowed_iff, hbearer, hsub]
    · exact bucketAt_charged
    · simp [hsub]
    · intro hroom slot hslot
      exact bucketAt_other (hroom _ hmem) fun heq => hslot (heq ▸ hmem)
  · have hmem' : subjectSlot c s ∈ slotsOf c := by simp [slotsOf, hsub]
    rw [bucketAt_other_map (hmaps s)] at hresult
    constructor
    · rfl
    · cases hsubject : conforms (l.quota c.category) (bucketAt l.maps (subjectSlot c s)) c.now <;>
        simp [hresult, allowed_iff, hbearer, hsub, hsubject]
    · exact (bucketAt_other_map (hmaps s).symm).trans bucketAt_charged
    · intro s' hs'
      obtain rfl : s = s' := Option.some.inj (hsub.symm.trans hs')
      have hframe : bucketAt (chargeIn (order .bearer) (l.quota c.category) c.now (bearerSlot c).1
          (bearerSlot c).2 l.maps).2 (subjectSlot c s) = bucketAt l.maps (subjectSlot c s) :=
        bucketAt_other_map (hmaps s)
      rw [if_pos hbearer, ← hframe]
      exact bucketAt_charged
    · intro hroom slot hslot
      have hroom' : HasRoom (chargeIn (order .bearer) (l.quota c.category) c.now (bearerSlot c).1
          (bearerSlot c).2 l.maps).2 (subjectSlot c s) := by
        rw [HasRoom, chargeIn_other (hmaps s)]
        exact hroom _ hmem'
      have hsubject : slot ≠ subjectSlot c s := fun heq => hslot (heq ▸ hmem')
      have hbearer : slot ≠ bearerSlot c := fun heq => hslot (heq ▸ hmem)
      exact (bucketAt_other hroom' hsubject).trans (bucketAt_other (hroom _ hmem) hbearer)

/-- Whatever is left in the buckets of a call stays there. -/
def SpendsNothing (l : Limiter) (c : ToolCheck) (l' : Limiter) : Prop :=
  ∀ slot ∈ slotsOf c, ∀ t, remaining (l.quota c.category) (bucketAt l'.maps slot) t =
    remaining (l.quota c.category) (bucketAt l.maps slot) t

/-- A refusal that wastes nothing leaves the buckets of the call as they are. -/
theorem StepSpec.refused (h : StepSpec l c l') (hrefused : c.result ≠ .ok ())
    (hwasted : ¬ Wasted l c) :
    ∀ slot ∈ slotsOf c, bucketAt l'.maps slot = bucketAt l.maps slot := by
  have hbearer : conforms (l.quota c.category) (bucketAt l.maps (bearerSlot c)) c.now = false := by
    rw [ne_eq, h.result, allowed_iff] at hrefused
    by_contra hallowed
    rw [Bool.not_eq_false] at hallowed
    refine hrefused ⟨hallowed, fun s hs => ?_⟩
    by_contra hsubject
    exact hwasted ⟨hallowed, s, hs, Bool.not_eq_true _ ▸ hsubject⟩
  intro slot hslot
  rw [slotsOf, List.mem_cons, List.mem_map] at hslot
  obtain rfl | ⟨s, hs, rfl⟩ := hslot
  · rw [h.bearer, check_of_not_conforms hbearer]
  · rw [h.subject s (Option.mem_toList.mp hs), if_neg (by simp [hbearer])]

/-- A refusal spends nothing exactly if it is not wasted. -/
theorem StepSpec.spendsNothing_iff (h : StepSpec l c l') (hperiod : 0 < (l.quota c.category).period)
    (hrefused : c.result ≠ .ok ()) : SpendsNothing l c l' ↔ ¬ Wasted l c := by
  constructor
  · rintro hnothing ⟨hbearer, -⟩
    have hspent := hnothing _ (List.mem_cons_self ..) c.now
    have hone := remaining_check hperiod hbearer
    rw [← h.bearer] at hone
    omega
  · intro hwasted slot hslot t
    rw [h.refused hrefused hwasted slot hslot]

/-- The slots that calls may be charged to are few in each map. -/
def FewKeys (log : List ToolCheck) : Prop :=
  ∀ id, (((log.flatMap slotsOf).filter (fun slot => slot.1 = id)).map Prod.snd).toFinset.card ≤
    MAX_BUCKETS_PER_MAP

theorem FewKeys.of_subset (h : FewKeys log) (hsub : log'.flatMap slotsOf ⊆ log.flatMap slotsOf) :
    FewKeys log' := by
  intro id
  refine (Finset.card_le_card fun key hkey => ?_).trans (h id)
  rw [List.mem_toFinset] at hkey ⊢
  exact List.map_subset _ (List.filter_subset _ hsub) hkey

/-- The keys in the maps are those of calls. -/
def Holds (log : List ToolCheck) (l : Limiter) : Prop :=
  ∀ id key, key ∈ l.maps id → (id, key) ∈ log.flatMap slotsOf

theorem mem_chargeIn {order : MapOrder} {q : Quota} {now : Nat} {slot : Slot}
    {maps : Identity × Category → BucketMap} {id : Identity × Category} {key : Text}
    (h : key ∈ (chargeIn order q now slot.1 slot.2 maps).2 id) : key ∈ maps id ∨
    (id, key) = slot := by
  by_cases hid : id = slot.1
  · subst hid
    by_cases hkey : key = slot.2
    · exact .inr (Prod.ext rfl hkey)
    · left
      rw [chargeIn_maps, Function.update_self] at h
      obtain ⟨e, he⟩ := Option.isSome_iff_exists.mp (AList.lookup_isSome.mpr h)
      exact AList.lookup_isSome.mp (Option.isSome_iff_exists.mpr ⟨e, lookup_charge hkey he⟩)
  · rw [chargeIn_other hid] at h
    exact .inl h

theorem Holds.step (h : Holds log l) (hs : LimiterStep l c l') : Holds (log ++ [c]) l' := by
  intro id key hkey
  rw [List.flatMap_append, List.flatMap_singleton, List.mem_append]
  have hbearer : (id, key) = bearerSlot c → (id, key) ∈ slotsOf c :=
    fun heq => heq ▸ List.mem_cons_self ..
  obtain ⟨order, ⟨-, -, rfl⟩ | ⟨-, -, -, rfl⟩ | ⟨s, -, hsub, -, rfl⟩⟩ := step_cases hs
  · exact (mem_chargeIn hkey).imp (h id key) hbearer
  · exact (mem_chargeIn hkey).imp (h id key) hbearer
  · have hmem' : subjectSlot c s ∈ slotsOf c := by simp [slotsOf, hsub]
    obtain hkey | heq := mem_chargeIn hkey
    · exact (mem_chargeIn hkey).imp (h id key) hbearer
    · exact .inr (heq ▸ hmem')

/-- Where few keys are charged there is always room. -/
theorem Holds.room (h : Holds log l) (hfew : FewKeys (log ++ [c])) :
    ∀ slot ∈ slotsOf c, HasRoom l.maps slot := by
  intro slot hslot hnew
  have hkeys (key : Text) (hkey : (slot.1, key) ∈ (log ++ [c]).flatMap slotsOf) :
      key ∈ (((log ++ [c]).flatMap slotsOf).filter (fun s => s.1 = slot.1)).map Prod.snd :=
    List.mem_map.mpr ⟨_, List.mem_filter.mpr ⟨hkey, decide_eq_true rfl⟩, rfl⟩
  refine len_lt_of_new (fun key hkey => hkeys key ?_) (hfew slot.1) (hkeys _ (by simp [hslot])) hnew
  rw [List.flatMap_append]
  exact List.mem_append_left _ (h _ _ hkey)

theorem holds_of_run (hnew : ∀ id, limiter.maps id = ∅) (h : Run LimiterStep limiter log l) :
    Holds log l := by
  induction h with
  | nil => exact fun id key hkey => by simp [hnew] at hkey
  | snoc _ hs ih => exact ih.step hs

theorem quota_of_run (h : Run LimiterStep limiter log l) : l.quota = limiter.quota := by
  induction h with
  | nil => rfl
  | snoc _ hs ih => exact (step_spec hs).quota.trans ih

/-- A call that does not waste a cell. -/
def CarefulStep (l : Limiter) (c : ToolCheck) (l' : Limiter) : Prop :=
  LimiterStep l c l' ∧ ¬ Wasted l c

theorem careful_run (h : Run CarefulStep limiter log l) : Run LimiterStep limiter log l := by
  induction h with
  | nil => exact .nil
  | snoc _ hs ih => exact .snoc ih hs.1

/-- A call that wastes nothing charges its buckets if it is accepted, and none otherwise. -/
theorem StepSpec.buckets (h : StepSpec l c l') (hroom : ∀ slot ∈ slotsOf c, HasRoom l.maps slot)
    (hwasted : ¬ Wasted l c) (slot : Slot) : bucketAt l'.maps slot =
      if c.result = .ok () ∧ slot ∈ slotsOf c then
        (check (l.quota c.category) (bucketAt l.maps slot) c.now).2
      else bucketAt l.maps slot := by
  by_cases hslot : slot ∈ slotsOf c
  · by_cases hok : c.result = .ok ()
    · rw [if_pos ⟨hok, hslot⟩]
      have hallowed := allowed_iff.mp (h.result.mp hok)
      rw [slotsOf, List.mem_cons, List.mem_map] at hslot
      obtain rfl | ⟨s, hs, rfl⟩ := hslot
      · exact h.bearer
      · rw [h.subject s (Option.mem_toList.mp hs), if_pos hallowed.1]
    · rw [if_neg fun hboth => hok hboth.1]
      exact h.refused hok hwasted slot hslot
  · rw [if_neg fun hboth => hslot hboth.2]
    exact h.others hroom slot hslot

def accepted (log : List ToolCheck) : List ToolCheck := log.filter fun c => c.result = .ok ()

/-- The times at which calls came to a slot. -/
def timesAt (slot : Slot) (log : List ToolCheck) : List Nat :=
  (log.filter fun c => slot ∈ slotsOf c).map ToolCheck.now

theorem timesAt_accepted (slot : Slot) (log : List ToolCheck) (c : ToolCheck) :
    timesAt slot (accepted (log ++ [c])) =
      timesAt slot (accepted log) ++ if c.result = .ok () ∧ slot ∈ slotsOf c then
      [c.now] else [] := by
  rw [accepted, List.filter_append, timesAt, List.filter_append, List.map_append, timesAt, accepted]
  by_cases hok : c.result = .ok () <;> by_cases hslot : slot ∈ slotsOf c <;> simp [hok, hslot]

theorem category_of_mem {slot : Slot} (h : slot ∈ slotsOf c) : slot.1.2 = c.category := by
  rw [slotsOf, List.mem_cons, List.mem_map] at h
  obtain rfl | ⟨s, -, rfl⟩ := h <;> rfl

/-- The bucket of a slot that was charged for the accepted calls of a log and nothing else. -/
def spent (limiter : Limiter) (slot : Slot) (log : List ToolCheck) : Nat :=
  bucketAfter (limiter.quota slot.1.2) (timesAt slot (accepted log))

/-- If no call is wasted, the accepted ones are all that the buckets remember. -/
theorem buckets_of_run (hnew : ∀ id, limiter.maps id = ∅) (h : Run CarefulStep limiter log l)
    (hfew : FewKeys log) (slot : Slot) : bucketAt l.maps slot = spent limiter slot log := by
  induction h with
  | nil => simp [bucketAt, bucketOf, hnew, spent, timesAt, accepted]
  | @snoc log l l' c hrun hs ih =>
    have hbefore := ih (hfew.of_subset (by simp))
    have hroom := (holds_of_run hnew (careful_run hrun)).room hfew
    rw [(step_spec hs.1).buckets hroom hs.2, spent, timesAt_accepted, hbefore]
    split_ifs with hcharged
    · rw [bucketAfter_concat, category_of_mem hcharged.2, ← quota_of_run (careful_run hrun)]
      rw [spent, category_of_mem hcharged.2, ← quota_of_run (careful_run hrun)]
    · rw [List.append_nil, spent]

def input (c : ToolCheck) : Text × Option Text × Category × Nat :=
  (c.bearerHash, c.sub, c.category, c.now)

theorem slotsOf_input {c c' : ToolCheck} (h : input c = input c') : slotsOf c = slotsOf c' := by
  simp only [input, Prod.mk.injEq] at h
  simp [slotsOf, bearerSlot, subjectSlot, h]

theorem slotsOf_inputs (h : log.map input = log'.map input) :
    log.flatMap slotsOf = log'.flatMap slotsOf := by
  have hslots : ∀ calls : List ToolCheck, calls.flatMap slotsOf =
      (calls.map input).flatMap fun i => slotsOf ⟨i.1, i.2.1, i.2.2.1, i.2.2.2, .ok (), []⟩ := by
    intro calls
    rw [List.flatMap_map]
    exact List.flatMap_congr fun c _ => slotsOf_input rfl
  rw [hslots log, hslots log', h]

theorem result_ext {r r' : Except RateLimited Unit} (h : r = .ok () ↔ r' = .ok ()) : r = r' := by
  match r, r' with
  | .ok (), .ok () => rfl
  | .error .rateLimited, .error .rateLimited => rfl
  | .ok (), .error _ => exact (h.mp rfl).symm
  | .error _, .ok () => exact h.mpr rfl

/-- Two limiters with the same buckets answer a call in the same way. -/
theorem StepSpec.same {m m' : Limiter} {d : ToolCheck} (h : StepSpec l c l') (h' : StepSpec m d m')
    (hquota : m.quota = l.quota) (hbuckets : bucketAt m.maps = bucketAt l.maps)
    (hinput : input d = input c) :
    d.result = c.result ∧ (Wasted m d ↔ Wasted l c) := by
  obtain ⟨bearerHash, sub, category, now, result, charges⟩ := c
  obtain ⟨_, _, _, _, result', charges'⟩ := d
  simp only [input, Prod.mk.injEq] at hinput
  obtain ⟨rfl, rfl, rfl, rfl⟩ := hinput
  constructor
  · apply result_ext
    rw [h.result, h'.result, allowed_iff, allowed_iff, hquota, hbuckets]
    rfl
  · rw [Wasted, Wasted, hquota, hbuckets]
    rfl

/-- Taking refused calls out of a run in which none is wasted changes neither
the other answers nor the buckets. -/
theorem same_without (hnew : ∀ id, limiter.maps id = ∅)
    (hwithout : Without (fun c => c.result ≠ .ok ()) log log') (h : Run CarefulStep limiter log l)
    (hfew : FewKeys log) {log'' : List ToolCheck} {m : Limiter}
    (hm : Run LimiterStep limiter log'' m)
    (hinput : log''.map input = log'.map input) :
    log''.map ToolCheck.result = log'.map ToolCheck.result ∧ bucketAt m.maps = bucketAt l.maps := by
  induction hwithout generalizing l log'' m with
  | nil =>
    obtain rfl : log'' = [] := List.map_eq_nil_iff.mp hinput
    rw [h.of_nil, hm.of_nil]
    exact ⟨rfl, rfl⟩
  | @keep log log' c hwithout ih =>
    obtain ⟨u, hu, hs, hwasted⟩ := h.of_snoc
    obtain rfl | ⟨log'', d, rfl⟩ := log''.eq_nil_or_concat
    · simp at hinput
    rw [List.concat_eq_append] at hinput hm ⊢
    obtain ⟨v, hv, hd⟩ := hm.of_snoc
    have hinputs := hinput
    rw [List.map_append, List.map_append] at hinput
    obtain ⟨hlog, hc⟩ := List.append_inj' hinput rfl
    obtain ⟨hresults, hbuckets⟩ := ih hu (hfew.of_subset (by simp)) hv hlog
    have hquota : v.quota = u.quota := (quota_of_run hv).trans (quota_of_run (careful_run hu)).symm
    have hc : input d = input c := (List.cons.inj hc).1
    obtain ⟨hresult, hsame⟩ := (step_spec hs).same (step_spec hd) hquota hbuckets hc
    refine ⟨by simp [hresults, hresult], ?_⟩
    have hfew'' : FewKeys (log'' ++ [d]) := by
      apply hfew.of_subset
      intro slot hslot
      rw [slotsOf_inputs hinputs, List.mem_flatMap] at hslot
      obtain ⟨e, he, hslot⟩ := hslot
      exact List.mem_flatMap.mpr ⟨e, (hwithout.sublist.append (.refl _)).subset he, hslot⟩
    funext slot
    rw [(step_spec hs).buckets ((holds_of_run hnew (careful_run hu)).room hfew) hwasted,
      (step_spec hd).buckets ((holds_of_run hnew hv).room hfew'') (mt hsame.mp hwasted),
        hresult, hbuckets, hquota, slotsOf_input hc]
    simp only [input, Prod.mk.injEq] at hc
    rw [hc.2.2.1, hc.2.2.2]
  | @drop log log' c hrefused hwithout ih =>
    obtain ⟨u, hu, hs, hwasted⟩ := h.of_snoc
    obtain ⟨hresults, hbuckets⟩ := ih hu (hfew.of_subset (by simp)) hm hinput
    refine ⟨hresults, hbuckets.trans ?_⟩
    funext slot
    rw [(step_spec hs).buckets ((holds_of_run hnew (careful_run hu)).room hfew) hwasted,
      if_neg fun hboth => hrefused hboth.1]

/-- What follows for a run in which no call is wasted. -/
structure Harmless (limiter : Limiter) (log : List ToolCheck) : Prop where
  decided : ∀ a c b, log = a ++ c :: b → (c.result = .ok () ↔
    ∀ slot ∈ slotsOf c, conforms (limiter.quota c.category) (spent limiter slot a) c.now = true)
  deleted : ∀ log', Without (fun c => c.result ≠ .ok ()) log log' →
    (∃ log'' m, Run LimiterStep limiter log'' m ∧ log''.map input = log'.map input) ∧
    ∀ log'' m, Run LimiterStep limiter log'' m → log''.map input = log'.map input →
      log''.map ToolCheck.result = log'.map ToolCheck.result

theorem checkAll_input (order : Identity → MapOrder) (l : Limiter)
    (calls : List (Text × Option Text × Category × Nat)) :
    (checkAll order l calls).1.map input = calls := by
  induction calls generalizing l with
  | nil => rfl
  | cons call rest ih => exact congrArg (call :: ·) (ih _)

theorem harmless (hnew : ∀ id, limiter.maps id = ∅) (h : Run CarefulStep limiter log l)
    (hfew : FewKeys log) :
    Harmless limiter log := by
  constructor
  · rintro a c b rfl
    obtain ⟨u, u', hu, hs, -⟩ := h.split
    have hbuckets := buckets_of_run hnew hu (hfew.of_subset (by simp))
    rw [(step_spec hs.1).result, Allowed, quota_of_run (careful_run hu)]
    simp only [hbuckets]
  · intro log' hwithout
    refine ⟨⟨_, _, checkAll_run (fun _ => .asStored) limiter (log'.map input), checkAll_input ..⟩,
      ?_⟩
    intro log'' m hm hinput
    exact (same_without hnew hwithout h hfew hm hinput).1

theorem period_pos {n : Nat} (hpos : n ≠ 0) (h : n < 2 ^ 32) : 0 < (perMinute n).period :=
  Nat.div_pos (by rw [NANOS_PER_SEC]; omega) (Nat.pos_of_ne_zero hpos)

/-- A refusal spends nothing exactly if the subject's bucket does not refuse
what the bearer's bucket lets through. Where that never happens, refused calls
leave no trace. -/
theorem refused_calls (reads writes : Nat) (hreads : reads < 2 ^ 32) (hwrites : writes < 2 ^ 32)
    (limiter : Limiter) (hnew : Limiter.new reads writes = some limiter) :
    (∀ log l c l', Run LimiterStep limiter log l → LimiterStep l c l' → c.result ≠ .ok () →
      (SpendsNothing l c l' ↔ ¬ Wasted l c)) ∧
    ∀ log l, Run CarefulStep limiter log l → FewKeys log → Harmless limiter log := by
  rw [Limiter.new] at hnew
  split_ifs at hnew with hzero
  rw [Bool.or_eq_true, decide_eq_true_eq, decide_eq_true_eq, not_or] at hzero
  obtain rfl := Option.some.inj hnew
  refine ⟨fun log l c l' hrun hs hrefused =>
    (step_spec hs).spendsNothing_iff ?_ hrefused, fun log l hrun hfew =>
    harmless (fun _ => rfl) hrun hfew⟩
  rw [quota_of_run hrun]
  cases c.category
  · exact period_pos hzero.1 hreads
  · exact period_pos hzero.2 hwrites

/-- One write a minute. -/
def sampleLimiter : Limiter := ⟨60, 1, fun _ => ∅⟩

def called (l : Limiter) (bearerHash : Text) (now : Nat) : ToolCheck × Limiter :=
  let (result, charges, l') := l.check (fun _ => .asStored) bearerHash (some "s".toList) .write now
  (⟨bearerHash, some "s".toList, .write, now, result, charges⟩, l')

theorem called_step (l : Limiter) (bearerHash : Text) (now : Nat) :
    LimiterStep l (called l bearerHash now).1 (called l bearerHash now).2 :=
  ⟨fun _ => .asStored, rfl⟩

def firstCall : ToolCheck × Limiter := called sampleLimiter "h1".toList 5

/-- The bearer calls again too soon. -/
def secondCall : ToolCheck × Limiter := called firstCall.2 "h1".toList 6

/-- Another bearer of the subject calls too soon. -/
def otherCall : ToolCheck × Limiter := called firstCall.2 "h2".toList 6

instance (l : Limiter) (c : ToolCheck) : Decidable (Wasted l c) :=
  decidable_of_iff (conforms (l.quota c.category) (bucketAt l.maps (bearerSlot c)) c.now = true ∧
      c.sub.any (fun s =>
        !conforms (l.quota c.category) (bucketAt l.maps (subjectSlot c s)) c.now) = true) <| by
    simp [Wasted, Option.any_eq_true]

theorem refused_calls_sample : ∃ log l, Run CarefulStep sampleLimiter log l ∧
    log.map ToolCheck.result = [.ok (), .error .rateLimited] ∧ Harmless sampleLimiter log := by
  have hfirst : CarefulStep sampleLimiter firstCall.1 firstCall.2 :=
    ⟨called_step .., by decide +kernel⟩
  have hsecond : CarefulStep firstCall.2 secondCall.1 secondCall.2 :=
    ⟨called_step .., by decide +kernel⟩
  have hrun : Run CarefulStep sampleLimiter [firstCall.1, secondCall.1] secondCall.2 :=
    .cons hfirst (.cons hsecond .nil)
  have hfew : FewKeys [firstCall.1, secondCall.1] := by
    rintro ⟨identity, category⟩
    cases identity <;> cases category <;> decide +kernel
  exact ⟨_, _, hrun, by decide +kernel,
    (refused_calls 60 1 (by decide) (by decide) sampleLimiter rfl).2 _ _ hrun hfew⟩

/-- The other bearer is refused and has spent its only write. -/
theorem refusal_spends : ¬ ∀ reads writes limiter, Limiter.new reads writes = some limiter →
    ∀ log l c l', Run LimiterStep limiter log l → LimiterStep l c l' → c.result ≠ .ok () →
      SpendsNothing l c l' := by
  intro h
  have hnothing := h 60 1 sampleLimiter rfl [firstCall.1] firstCall.2 otherCall.1 otherCall.2
    (.cons (called_step ..) .nil) (called_step ..) (by decide +kernel) (bearerSlot otherCall.1)
    (List.mem_cons_self ..) 6
  revert hnothing
  decide +kernel

end CardDavMcp.RefusedCalls
