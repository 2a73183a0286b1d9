import CardDavMcp.RateLimit
import CardDavMcp.Library.BoundedTable

namespace CardDavMcp.RateLimitMap

open Library Library.Utf8Text Library.Table Library.Gcra Library.Runs RateLimit

/-- One access to a map: whose bucket was tested, when, and what it said. -/
structure Access where
  key : Text
  now : Nat
  allowed : Bool
deriving DecidableEq, Repr

/-- The order in which a hash map is visited may be another one each time. -/
def AccessStep (q : Quota) (map : BucketMap) (x : Access) (map' : BucketMap) : Prop :=
  ∃ order, charge order q x.now x.key map = (x.allowed, map')

/-- The times at which a key was accessed. -/
def timesOf (k : Text) (log : List Access) : List Nat :=
  (log.filter (fun x => x.key = k)).map Access.now

theorem timesOf_append (k : Text) (log rest : List Access) :
    timesOf k (log ++ rest) = timesOf k log ++ timesOf k rest := by
  simp [timesOf]

theorem timesOf_self (x : Access) : timesOf x.key [x] = [x.now] := by simp [timesOf]

theorem timesOf_other {k : Text} {x : Access} (h : x.key ≠ k) : timesOf k [x] = [] := by
  simp [timesOf, h]

def sweepIdle (now : Nat) (map : BucketMap) : BucketMap :=
  if len map ≥ MAX_BUCKETS_PER_MAP then
    retain (fun _ entry => now - entry.lastSeen < BUCKET_IDLE_TTL) map else map

theorem makeRoom_eq (order : MapOrder) (now : Nat) (map : BucketMap) :
    makeRoom order now map =
      if len (sweepIdle now map) ≥ MAX_BUCKETS_PER_MAP then
        evictMin order BucketEntry.lastSeen (sweepIdle now map) else sweepIdle now map := rfl

theorem lookup_sweepIdle {now : Nat} {map : BucketMap} {k : Text} {e : BucketEntry}
    (h : (sweepIdle now map).lookup k = some e) : map.lookup k = some e :=
    BoundedTable.lookup_sweep h

theorem lookup_makeRoom {order : MapOrder} {now : Nat} {map : BucketMap} {k : Text}
    {e : BucketEntry} (h : (makeRoom order now map).lookup k = some e) : map.lookup k = some e := by
  rw [makeRoom_eq] at h
  split_ifs at h
  · exact lookup_sweepIdle (lookup_evictMin h)
  · exact lookup_sweepIdle h

theorem makeRoom_of_lt (order : MapOrder) (now : Nat) {map : BucketMap}
    (h : len map < MAX_BUCKETS_PER_MAP) : makeRoom order now map = map := by
  have hsweep : sweepIdle now map = map := if_neg (Nat.not_le.mpr h)
  rw [makeRoom_eq, hsweep, if_neg (Nat.not_le.mpr h)]

/-- An entry is dropped for one of two reasons: it was idle, or a full map
holds no entry that was seen before it. -/
theorem makeRoom_drops {order : MapOrder} {now : Nat} {map : BucketMap} {k : Text} {e : BucketEntry}
    (hk : map.lookup k = some e) (h : (makeRoom order now map).lookup k = none) :
    BUCKET_IDLE_TTL ≤ now - e.lastSeen ∨
      ∃ kept : BucketMap, MAX_BUCKETS_PER_MAP ≤ len kept ∧ kept.lookup k = some e ∧
        ∀ k' e', kept.lookup k' = some e' → map.lookup k' = some e' ∧ e.lastSeen ≤ e'.lastSeen := by
  cases hs : (sweepIdle now map).lookup k with
  | none =>
    left
    by_contra hidle
    have hkept : (sweepIdle now map).lookup k = some e :=
      BoundedTable.lookup_sweep_fresh hk (decide_eq_true (not_le.mp hidle))
    rw [hs] at hkept
    cases hkept
  | some e' =>
    right
    have he : e' = e := by simpa [hk] using (lookup_sweepIdle hs).symm
    subst he
    rw [makeRoom_eq] at h
    split_ifs at h with hfull
    · exact ⟨sweepIdle now map, hfull, hs, fun k' e'' hk' =>
        ⟨lookup_sweepIdle hk', evicted_is_least hs h k' e'' hk'⟩⟩
    · simp [hs] at h

/-- The bucket that a map holds for a key, or else a full one. -/
def bucketOf (map : BucketMap) (key : Text) : Nat :=
  ((map.lookup key).map BucketEntry.bucket).getD full

theorem charge_fst (order : MapOrder) (q : Quota) (now : Nat) (key : Text) (map : BucketMap) :
    (charge order q now key map).1 = (check q (bucketOf map key) now).1 := by
  cases h : map.lookup key <;> simp [charge, getOrInsertWithQuota, bucketOf, h]

theorem charge_self (order : MapOrder) (q : Quota) (now : Nat) (key : Text) (map : BucketMap) :
    (charge order q now key map).2.lookup key = some ⟨(check q (bucketOf map key) now).2, now⟩ := by
  cases h : map.lookup key <;> simp [charge, getOrInsertWithQuota, bucketOf, h]

theorem charge_other {order : MapOrder} {q : Quota} {now : Nat} {key k : Text} {map : BucketMap}
    (hk : k ≠ key) : (charge order q now key map).2.lookup k =
      if map.lookup key = none then (makeRoom order now map).lookup k else map.lookup k := by
  cases h : map.lookup key <;> simp [charge, getOrInsertWithQuota, h, AList.lookup_insert_ne hk]

theorem lookup_charge {order : MapOrder} {q : Quota} {now : Nat} {key k : Text} {map : BucketMap}
    {e : BucketEntry} (hk : k ≠ key) (h : (charge order q now key map).2.lookup k = some e) :
    map.lookup k = some e := by
  rw [charge_other hk] at h
  split_ifs at h
  · exact lookup_makeRoom h
  · exact h

theorem lookup_charge_room {order : MapOrder} {q : Quota} {now : Nat} {key k : Text}
    {map : BucketMap}
    (hroom : map.lookup key = none → len map < MAX_BUCKETS_PER_MAP) (hk : k ≠ key) :
    (charge order q now key map).2.lookup k = map.lookup k := by
  rw [charge_other hk]
  split_ifs with hnew
  · rw [makeRoom_of_lt _ _ (hroom hnew)]
  · rfl

/-- Where there is room, a charge touches one bucket only. -/
theorem bucketOf_charge {order : MapOrder} {q : Quota} {now : Nat} {key : Text} {map : BucketMap}
    (hroom : map.lookup key = none → len map < MAX_BUCKETS_PER_MAP) (k : Text) :
    bucketOf (charge order q now key map).2 k =
      if k = key then (check q (bucketOf map key) now).2 else bucketOf map k := by
  split_ifs with hk
  · subst hk
    rw [bucketOf, charge_self]
    rfl
  · rw [bucketOf, lookup_charge_room hroom hk, bucketOf]

end CardDavMcp.RateLimitMap
