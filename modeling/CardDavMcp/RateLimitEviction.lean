import CardDavMcp.RateLimitRuns

namespace CardDavMcp.RateLimitEviction

open Library.Utf8Text Library.Table Library.Gcra Library.Runs RateLimit RateLimitMap RateLimitRuns

def Increasing (log : List Access) : Prop := log.Pairwise (fun x y => x.now < y.now)

/-- Between two accesses to a key that follow each other, fewer distinct other
keys are accessed than a map may hold. -/
def Active (k : Text) (log : List Access) : Prop :=
  ∀ a x b y c, log = a ++ x :: b ++ y :: c → x.key = k → y.key = k → (∀ z ∈ b, z.key ≠ k) →
    (b.map Access.key).toFinset.card < MAX_BUCKETS_PER_MAP

/-- Since its last access a key saw as many distinct others as a map may hold. -/
def Crowded (k : Text) (log : List Access) : Prop :=
  ∃ a x b, log = a ++ x :: b ∧ x.key = k ∧ (∀ z ∈ b, z.key ≠ k) ∧
    MAX_BUCKETS_PER_MAP ≤ (b.map Access.key).toFinset.card

/-- The bucket kept for ever is full again, now and from now on. -/
def Refilled (q : Quota) (k : Text) (log : List Access) : Prop :=
  ∀ t, (∀ y ∈ log, y.now < t) → bucketAfter q (timesOf k log) ≤ t

/-- What a bounded map keeps of every key, and of one key that stays active. -/
structure Follows (q : Quota) (k : Text) (log : List Access) (map : BucketMap) : Prop where
  seen : ∀ key e, map.lookup key = some e →
    ∃ a x b, log = a ++ x :: b ∧ x.key = key ∧ x.now = e.lastSeen ∧ ∀ y ∈ b, y.key ≠ key
  bounded : ∀ key e, map.lookup key = some e → e.bucket ≤ e.lastSeen + q.burst * q.period
  present : ∀ e, map.lookup k = some e → e.bucket = bucketAfter q (timesOf k log)
  absent : map.lookup k = none → Refilled q k log ∨ Crowded k log
  decided : ∀ a x b, log = a ++ x :: b → x.key = k →
    x.allowed = (check q (bucketAfter q (timesOf k a)) x.now).1

variable {q : Quota} {k : Text} {log : List Access} {x : Access} {map : BucketMap}

theorem Increasing.lt_last (h : Increasing (log ++ [x])) {y : Access} (hy : y ∈ log) :
    y.now < x.now := by
  rw [Increasing, List.pairwise_append] at h
  exact h.2.2 y hy x (List.mem_singleton_self x)

theorem Increasing.of_append {rest : List Access} (h : Increasing (log ++ rest)) :
    Increasing log := by
  rw [Increasing, List.pairwise_append] at h
  exact h.1

theorem Active.of_append {rest : List Access} (h : Active k (log ++ rest)) : Active k log := by
  intro a x b y c hlog
  subst hlog
  exact h a x b y (c ++ rest) (by simp)

theorem Crowded.snoc (h : Crowded k log) (hx : x.key ≠ k) : Crowded k (log ++ [x]) := by
  obtain ⟨a, y, b, rfl, hy, hb, hcard⟩ := h
  refine ⟨a, y, b ++ [x], by simp, hy, fun z hz => ?_, hcard.trans ?_⟩
  · rw [List.mem_append, List.mem_singleton] at hz
    obtain hz | rfl := hz
    · exact hb z hz
    · exact hx
  · apply Finset.card_le_card
    rw [List.map_append, List.toFinset_append]
    exact Finset.subset_union_left

/-- The last access of an active key is not crowded out. -/
theorem Active.not_crowded (h : Active k (log ++ [x])) (hx : x.key = k) : ¬ Crowded k log := by
  rintro ⟨a, y, b, rfl, hy, hb, hcard⟩
  have hlt := h a y b x [] (by simp) hy hx hb
  omega

theorem Refilled.snoc (h : Refilled q k log) (hx : x.key ≠ k) : Refilled q k (log ++ [x]) := by
  intro t ht
  rw [timesOf_append, timesOf_other hx, List.append_nil]
  exact h t (fun y hy => ht y (List.mem_append_left _ hy))

/-- An entry that was seen no earlier than the last access of a key, in a run
of increasing times, was accessed after it. -/
theorem mem_since (hinc : Increasing log) {a b a' b' : List Access} {y z : Access}
    (hy : log = a ++ y :: b) (hz : log = a' ++ z :: b') (hle : y.now ≤ z.now)
    (hne : z.key ≠ y.key) :
    z ∈ b := by
  have hmem : z ∈ a ++ y :: b := by
    rw [← hy, hz]
    simp
  rw [List.mem_append, List.mem_cons] at hmem
  obtain hmem | rfl | hmem := hmem
  · rw [hy, Increasing, List.pairwise_append] at hinc
    have := hinc.2.2 z hmem y List.mem_cons_self
    omega
  · exact absurd rfl hne
  · exact hmem

theorem Follows.crowded (h : Follows q k log map) (hinc : Increasing log) {kept : BucketMap}
    {e : BucketEntry} (hfull : MAX_BUCKETS_PER_MAP ≤ len kept) (hk : kept.lookup k = some e)
    (hkept : ∀ k' e', kept.lookup k' = some e' → map.lookup k' = some e' ∧ e.lastSeen ≤ e'.lastSeen)
    (hx : x.key ≠ k) (hnew : map.lookup x.key = none) : Crowded k (log ++ [x]) := by
  obtain ⟨a, y, b, hlog, hy, hnow, hb⟩ := h.seen k e (hkept k e hk).1
  have hsub : kept.keys.erase k ⊆ b.map Access.key := by
    intro k' hk'
    rw [kept.keys_nodup.mem_erase_iff] at hk'
    obtain ⟨e', he'⟩ := Option.isSome_iff_exists.mp
      (AList.lookup_isSome.mpr (AList.mem_keys.mpr hk'.2))
    obtain ⟨hmap, hle⟩ := hkept k' e' he'
    obtain ⟨a', z, b', hlog', hz, hznow, -⟩ := h.seen k' e' hmap
    refine List.mem_map.mpr ⟨z, mem_since hinc hlog hlog' (by omega) ?_, hz⟩
    rw [hz, hy]
    exact hk'.1
  have hmem : k ∈ kept.keys := AList.mem_keys.mp (AList.lookup_isSome.mp (by simp [hk]))
  have hxkept : x.key ∉ kept.keys := by
    intro hxk
    obtain ⟨e', he'⟩ := Option.isSome_iff_exists.mp
      (AList.lookup_isSome.mpr (AList.mem_keys.mpr hxk))
    simp [(hkept _ _ he').1] at hnew
  refine ⟨a, y, b ++ [x], by rw [hlog]; simp, hy, fun z hz => ?_, ?_⟩
  · rw [List.mem_append, List.mem_singleton] at hz
    obtain hz | rfl := hz
    · exact hb z hz
    · exact hx
  · have hcard : (insert x.key (kept.keys.erase k).toFinset).card = len kept := by
      rw [Finset.card_insert_of_notMem (fun hmem' =>
          hxkept (List.mem_of_mem_erase (List.mem_toFinset.mp hmem'))),
        List.toFinset_card_of_nodup (kept.keys_nodup.erase k), List.length_erase_of_mem hmem, len]
      have := List.length_pos_of_mem hmem
      omega
    rw [← hcard] at hfull
    refine hfull.trans (Finset.card_le_card ?_)
    rw [Finset.insert_subset_iff]
    refine ⟨by simp, fun k' hk' => ?_⟩
    have := hsub (List.mem_toFinset.mp hk')
    rw [List.mem_toFinset, List.map_append]
    exact List.mem_append_left _ this

theorem Follows.seen_step (h : Follows q k log map) {map' : BucketMap}
    (hs : AccessStep q map x map') {key : Text} {e : BucketEntry} (he : map'.lookup key = some e) :
    (∃ a y b, log ++ [x] = a ++ y :: b ∧ y.key = key ∧ y.now = e.lastSeen ∧
      ∀ z ∈ b, z.key ≠ key) := by
  obtain ⟨order, hcharge⟩ := hs
  have hmap : map' = (charge order q x.now x.key map).2 := by rw [hcharge]
  subst hmap
  by_cases hkey : key = x.key
  · subst hkey
    rw [charge_self, Option.some.injEq] at he
    exact ⟨log, x, [], rfl, rfl, by rw [← he], by simp⟩
  · obtain ⟨a, y, b, hlog, hy, hnow, hb⟩ := h.seen key e (lookup_charge hkey he)
    refine ⟨a, y, b ++ [x], by rw [hlog]; simp, hy, hnow, fun z hz => ?_⟩
    rw [List.mem_append, List.mem_singleton] at hz
    obtain hz | rfl := hz
    · exact hb z hz
    · exact Ne.symm hkey

theorem Follows.bounded_step (h : Follows q k log map) (hinc : Increasing (log ++ [x]))
    {map' : BucketMap} (hs : AccessStep q map x map') {key : Text} {e : BucketEntry}
    (he : map'.lookup key = some e) : e.bucket ≤ e.lastSeen + q.burst * q.period := by
  obtain ⟨order, hcharge⟩ := hs
  have hmap : map' = (charge order q x.now x.key map).2 := by rw [hcharge]
  subst hmap
  by_cases hkey : key = x.key
  · subst hkey
    rw [charge_self, Option.some.injEq] at he
    subst he
    cases hold : map.lookup x.key with
    | none =>
      have hfull : bucketOf map x.key = full := by simp [bucketOf, hold]
      rw [hfull]
      exact check_le (Nat.zero_le _) le_rfl
    | some e =>
      have hbucket : bucketOf map x.key = e.bucket := by simp [bucketOf, hold]
      obtain ⟨a, y, b, hlog, -, hnow, -⟩ := h.seen _ _ hold
      have hlt := hinc.lt_last (y := y) (by rw [hlog]; simp)
      rw [hbucket]
      exact check_le (h.bounded _ _ hold) (by omega)
  · exact h.bounded key e (lookup_charge hkey he)

/-- The bucket at hand, kept or renewed, decides like the one kept for ever. -/
theorem Follows.check_eq (h : Follows q k log map) (hq : 1 ≤ q.burst)
    (hinc : Increasing (log ++ [x])) (hact : Active k (log ++ [x])) (hx : x.key = k) :
    check q (bucketOf map k) x.now = check q (bucketAfter q (timesOf k log)) x.now := by
  cases hold : map.lookup k with
  | some e =>
    have hbucket : bucketOf map k = e.bucket := by simp [bucketOf, hold]
    rw [hbucket, h.present e hold]
  | none =>
    have hbucket : bucketOf map k = full := by simp [bucketOf, hold]
    obtain hrefilled | hcrowded := h.absent hold
    · rw [hbucket, check_of_le hq (hrefilled x.now (fun y hy => hinc.lt_last hy))]
    · exact absurd hcrowded (hact.not_crowded hx)

/-- A dropped entry was idle for long enough to be full, or crowded out. -/
theorem Follows.absent_step (h : Follows q k log map) (hidle : q.burst * q.period ≤ BUCKET_IDLE_TTL)
    (hinc : Increasing (log ++ [x])) {map' : BucketMap} (hs : AccessStep q map x map')
    (hx : x.key ≠ k) (hnone : map'.lookup k = none) :
    Refilled q k (log ++ [x]) ∨ Crowded k (log ++ [x]) := by
  obtain ⟨order, hcharge⟩ := hs
  have hmap : map' = (charge order q x.now x.key map).2 := by rw [hcharge]
  subst hmap
  cases hold : map.lookup k with
  | none =>
    obtain hrefilled | hcrowded := h.absent hold
    · exact .inl (hrefilled.snoc hx)
    · exact .inr (hcrowded.snoc hx)
  | some e =>
    rw [charge_other (Ne.symm hx)] at hnone
    split_ifs at hnone with hnew
    · obtain htime | ⟨kept, hfull, hk, hkept⟩ := makeRoom_drops hold hnone
      · left
        intro t ht
        rw [timesOf_append, timesOf_other hx, List.append_nil, ← h.present e hold]
        have hbound := h.bounded k e hold
        have hnow := ht x (List.mem_append_right _ (List.mem_singleton_self x))
        have hpos : 0 < BUCKET_IDLE_TTL := by decide
        omega
      · exact .inr (h.crowded hinc.of_append hfull hk hkept hx hnew)
    · simp [hold] at hnone

theorem Follows.step (h : Follows q k log map) (hq : 1 ≤ q.burst)
    (hidle : q.burst * q.period ≤ BUCKET_IDLE_TTL) (hinc : Increasing (log ++ [x]))
    (hact : Active k (log ++ [x])) {map' : BucketMap} (hs : AccessStep q map x map') :
    Follows q k (log ++ [x]) map' where
  seen key e he := h.seen_step hs he
  bounded key e he := h.bounded_step hinc hs he
  present e he := by
    obtain ⟨order, hcharge⟩ := hs
    have hmap : map' = (charge order q x.now x.key map).2 := by rw [hcharge]
    subst hmap
    rw [timesOf_append]
    by_cases hx : x.key = k
    · subst hx
      rw [charge_self, Option.some.injEq] at he
      rw [timesOf_self, bucketAfter_concat, ← he, h.check_eq hq hinc hact rfl]
    · rw [timesOf_other hx, List.append_nil]
      exact h.present e (lookup_charge (Ne.symm hx) he)
  absent hnone := by
    by_cases hx : x.key = k
    · obtain ⟨order, hcharge⟩ := hs
      have hmap : map' = (charge order q x.now x.key map).2 := by rw [hcharge]
      rw [hmap, ← hx, charge_self] at hnone
      simp at hnone
    · exact h.absent_step hidle hinc hs hx hnone
  decided a y b hlog hy := by
    cases b using List.reverseRecOn with
    | nil =>
      obtain ⟨rfl, he⟩ := List.append_inj' hlog rfl
      cases he
      obtain ⟨order, hcharge⟩ := hs
      have hallowed : x.allowed = (charge order q x.now x.key map).1 := by rw [hcharge]
      rw [hallowed, charge_fst, hy, h.check_eq hq hinc hact hy]
    | append_singleton b z =>
      rw [← List.cons_append, ← List.append_assoc] at hlog
      obtain ⟨rfl, -⟩ := List.append_inj' hlog rfl
      exact h.decided a y b rfl hy

theorem Follows.empty : Follows q k [] ∅ where
  seen _ _ h := by simp at h
  bounded _ _ h := by simp at h
  present _ h := by simp at h
  absent _ := .inl fun t _ => Nat.zero_le t
  decided a x b h := by simp at h

theorem Follows.of_run (hq : 1 ≤ q.burst) (hidle : q.burst * q.period ≤ BUCKET_IDLE_TTL)
    (h : Run (AccessStep q) ∅ log map) (hinc : Increasing log) (hact : Active k log) :
    Follows q k log map :=
  h.invariant (fun log => Increasing log ∧ Active k log)
    (fun _ _ h => ⟨h.1.of_append, h.2.of_append⟩) .empty
    (fun _ _ _ _ hinv ha hs => hinv.step hq hidle ha.1 ha.2 hs) ⟨hinc, hact⟩

/-- Every decision about a key that stays active is that of one bucket that is
kept for ever and fed the accesses to this key alone. -/
def DecidesAsUnbounded (q : Quota) (log : List Access) : Prop :=
  ∀ k, Active k log → ∀ a x b, log = a ++ x :: b → x.key = k →
    x.allowed = (check q (bucketAfter q (timesOf k a)) x.now).1

theorem decidesAsUnbounded (hq : 1 ≤ q.burst) (hidle : q.burst * q.period ≤ BUCKET_IDLE_TTL)
    (h : Run (AccessStep q) ∅ log map) (hinc : Increasing log) : DecidesAsUnbounded q log :=
  fun _ hact => (Follows.of_run hq hidle h hinc hact).decided

theorem perMinute_refills {n : Nat} (hn : 0 < n) :
    1 ≤ (perMinute n).burst ∧ (perMinute n).burst * (perMinute n).period ≤ BUCKET_IDLE_TTL := by
  refine ⟨hn, ?_⟩
  have hmul : n * (60 * NANOS_PER_SEC / n) ≤ 60 * NANOS_PER_SEC := Nat.mul_div_le _ _
  have hidle : 60 * NANOS_PER_SEC ≤ BUCKET_IDLE_TTL := by decide
  exact hmul.trans hidle

/-- The session limiter as it is deployed. -/
def deployedInitialize : InitializeLimiter :=
  .new INITIALIZE_REPLENISH MAX_INITIALIZES_PER_IDENTITY

/-- In every run at increasing times, every map of both limiters decides about
its active keys as an unbounded one would. -/
theorem bounded_maps_decide :
    (∀ (reads writes : Nat) (l₀ l : Limiter) (log : List ToolCheck),
      Limiter.new reads writes = some l₀ → Run LimiterStep l₀ log l →
      (log.map ToolCheck.now).Pairwise (· < ·) →
      ∀ id, DecidesAsUnbounded (l₀.quota id.2) (accessesOf id (log.flatMap ToolCheck.charges))) ∧
    ∀ (l : InitializeLimiter) (log : List InitializeCheck),
      Run InitializeStep deployedInitialize log l →
      (log.map InitializeCheck.now).Pairwise (· < ·) →
      ∀ id, DecidesAsUnbounded deployedInitialize.quota
        (accessesOf id (log.map InitializeCheck.charge)) := by
  constructor
  · intro reads writes l₀ l log hnew hrun htime id
    rw [Limiter.new] at hnew
    split_ifs at hnew with hzero
    simp only [Bool.or_eq_true, decide_eq_true_eq, not_or] at hzero
    cases hnew
    have hquota : ∀ category, 1 ≤ (Limiter.quota ⟨reads, writes, fun _ => ∅⟩ category).burst ∧
        (Limiter.quota ⟨reads, writes, fun _ => ∅⟩ category).burst *
          (Limiter.quota ⟨reads, writes, fun _ => ∅⟩ category).period ≤ BUCKET_IDLE_TTL := by
      intro category
      cases category with
      | read => exact perMinute_refills (Nat.pos_of_ne_zero hzero.1)
      | write => exact perMinute_refills (Nat.pos_of_ne_zero hzero.2)
    refine decidesAsUnbounded (hquota id.2).1 (hquota id.2).2
      (run_accesses (run_limiter hrun).2 id) ?_
    refine pairwise_accessesOf (fun c hc => ?_) htime id
    obtain ⟨s, s', hs⟩ := hrun.step_of_mem hc
    exact hs.charges.2.2
  · intro l log hrun htime id
    apply decidesAsUnbounded (by decide) (by decide) (run_accesses (initialize_runs hrun).2 id)
    rw [List.map_eq_flatMap]
    refine pairwise_accessesOf (fun c hc => ?_) htime id
    obtain ⟨s, s', hs⟩ := hrun.step_of_mem hc
    exact hs.charges.2.2

def sampleLimiter : Limiter := ⟨1, 1, fun _ => ∅⟩

/-- The second call is refused by its subject, the third by its bearer. -/
def sampleChecks : List ToolCheck :=
  (checkAll (fun _ => .asStored) sampleLimiter
    [("h1".toList, some "s".toList, .read, 5), ("h2".toList, some "s".toList, .read, 6),
      ("h1".toList, none, .read, 7)]).1

def sampleInitializes : List InitializeCheck :=
  (initializeAll .asStored deployedInitialize
    [("h1".toList, some "s".toList, 5), ("h2".toList, none, 6)]).1

theorem bounded_maps_decide_sample :
    (sampleChecks.flatMap ToolCheck.charges).map Charge.allowed = [true, true, true, false, false] ∧
    DecidesAsUnbounded (perMinute 1)
      (accessesOf (.sub, .read) (sampleChecks.flatMap ToolCheck.charges)) ∧
    sampleInitializes.map (fun c => c.charge.allowed) = [true, true] ∧
    DecidesAsUnbounded deployedInitialize.quota
      (accessesOf .sub (sampleInitializes.map InitializeCheck.charge)) :=
  ⟨by decide +kernel,
    bounded_maps_decide.1 1 1 sampleLimiter _ sampleChecks rfl (checkAll_run _ _ _)
      (by decide +kernel)
      (.sub, .read),
    by decide +kernel,
    bounded_maps_decide.2 _ sampleInitializes (initializeAll_run _ _ _) (by decide +kernel) .sub⟩

end CardDavMcp.RateLimitEviction
