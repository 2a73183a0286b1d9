import CardDavMcp.DavClient
import CardDavMcp.LastUsed
import CardDavMcp.OAuthFlow
import CardDavMcp.RateLimitMap
import CardDavMcp.ValidationCache

namespace CardDavMcp.BoundedMaps

open Library.Utf8Text Library.Table Library.BoundedTable Library.Gcra Library.Runs
    RateLimit RateLimitMap
open OAuthProxy OAuthFlow

/-- A test of a bucket, for the map that holds it. -/
structure BucketWrite where
  now : Nat
  key : Text

def writeBucket (q : Quota) (map : BucketMap) (w : BucketWrite) (map' : BucketMap) : Prop :=
  ∃ order, map' = (charge order q w.now w.key map).2

theorem charge_of_mem {q : Quota} {order : MapOrder} {now : Nat} {key : Text} {map : BucketMap}
    (hk : key ∈ map) : (charge order q now key map).2 =
      map.insert key ⟨(check q (bucketOf map key) now).2, now⟩ := by
  obtain ⟨entry, hentry⟩ := Option.isSome_iff_exists.mp (AList.lookup_isSome.mpr hk)
  simp [charge, getOrInsertWithQuota, bucketOf, hentry, AList.insert_insert]

theorem charge_of_notMem {q : Quota} {order : MapOrder} {now : Nat} {key : Text} {map : BucketMap}
    (hk : key ∉ map) : (charge order q now key map).2 =
      insertCapped order MAX_BUCKETS_PER_MAP BucketEntry.lastSeen
        (fun entry => decide (now - entry.lastSeen < BUCKET_IDLE_TTL)) key
        ⟨(check q (bucketOf map key) now).2, now⟩ map := by
  have hnone : map.lookup key = none := AList.lookup_eq_none.mpr hk
  have hswept : (sweepIdle now map).lookup key = none := by
    cases hs : (sweepIdle now map).lookup key with
    | none => rfl
    | some entry =>
      rw [lookup_sweepIdle hs] at hnone
      cases hnone
  have hroom : makeRoom order now map =
      if len (sweepIdle now map) ≥ MAX_BUCKETS_PER_MAP ∧
        ((sweepIdle now map).lookup key).isNone then
        evictMin order BucketEntry.lastSeen (sweepIdle now map) else sweepIdle now map := by
    rw [makeRoom_eq, hswept]
    simp
  simp only [charge, getOrInsertWithQuota, bucketOf, hnone, AList.insert_insert, hroom]
  rfl

theorem buckets_keep (q : Quota) : Keeps MAX_BUCKETS_PER_MAP BucketEntry.lastSeen (writeBucket q)
    (fun w entry => w.now - entry.lastSeen < BUCKET_IDLE_TTL) BucketWrite.key
    (fun map w => ⟨(check q (bucketOf map w.key) w.now).2, w.now⟩) := by
  apply keeps_of_inserts
  intro map w map' hw
  obtain ⟨order, rfl⟩ := hw
  by_cases hk : w.key ∈ map
  · rw [charge_of_mem hk]
    exact inserts_of_mem hk
  · rw [charge_of_notMem hk]
    exact inserts_insertCapped (by decide)

structure DiscoveryWrite where
  now : Nat
  key : DavClient.Key
  discovery : DavClient.DavDiscovery

def writeDiscovery (cache : DavClient.Discoveries) (w : DiscoveryWrite)
    (cache' : DavClient.Discoveries) :
    Prop := ∃ order, cache' = DavClient.discoveryInsert order w.now w.key w.discovery cache

theorem discoveries_keep :
    Keeps DavClient.DISCOVERY_CAP DavClient.CachedDiscovery.cachedAt writeDiscovery
    (fun w entry => w.now - entry.cachedAt < DavClient.DISCOVERY_TTL) DiscoveryWrite.key
    (fun _ w => ⟨w.discovery, w.now⟩) := by
  apply keeps_of_inserts
  intro cache w cache' hw
  obtain ⟨order, rfl⟩ := hw
  exact inserts_insertCapped (by decide)

section Validation

variable {𝕜 : Type} [Field 𝕜] [LinearOrder 𝕜] [FloorRing 𝕜]

structure ValidationWrite (𝕜 : Type) where
  now : 𝕜
  key : LogtoOidc.Key
  identity : LogtoOidc.AuthenticatedIdentity
  exp : Option Int

def writeValidation (cache : LogtoOidc.Cache 𝕜) (w : ValidationWrite 𝕜)
    (cache' : LogtoOidc.Cache 𝕜) : Prop :=
  ∃ order, cache' = LogtoOidc.cacheInsert order w.now w.key w.identity w.exp cache

theorem validations_keep :
    Keeps LogtoOidc.CACHE_CAP LogtoOidc.CacheEntry.expiresAt (writeValidation (𝕜 := 𝕜))
    (fun w entry => decide (entry.expiresAt > w.now)) ValidationWrite.key
    (fun _ w => ⟨w.identity, w.now + LogtoOidc.cacheTtl w.now w.exp⟩) := by
  apply keeps_of_inserts
  intro cache w cache' hw
  obtain ⟨order, rfl⟩ := hw
  exact inserts_insertCapped (by decide)

end Validation

section LastUse

variable {Ip : Type}

structure UseWrite (Ip : Type) where
  now : Nat
  tokenHash : Text
  ip : Option Ip

def writeUse (map : LastUsed.LastUsedTracker Ip) (w : UseWrite Ip)
    (map' : LastUsed.LastUsedTracker Ip) : Prop :=
  ∃ order, map' = LastUsed.record order w.now w.tokenHash w.ip map

theorem uses_keep : Keeps LastUsed.MAX_ENTRIES LastUsed.LastUsedRecord.usedAt (@writeUse Ip)
    (fun _ _ => true) UseWrite.tokenHash (fun _ w => ⟨w.now, w.ip⟩) := by
  apply keeps_of_inserts
  intro map w map' hw
  obtain ⟨order, rfl⟩ := hw
  rw [LastUsed.record_eq]
  exact inserts_insertCapped (by decide)

end LastUse

structure PendingWrite where
  now : Nat
  state : Text
  pending : Pending

def writePending (map : PendingMap) (w : PendingWrite) (map' : PendingMap) : Prop :=
  map' = (insertPending w.now w.state w.pending map).2

/-- What an insertion into the map of pending authorizations does. It never
evicts, it refuses. -/
structure Admits (w : PendingWrite) (map : PendingMap) : Prop where
  stored : (insertPending w.now w.state w.pending map).1 = true →
    (insertPending w.now w.state w.pending map).2.lookup w.state = some w.pending
  others : ∀ k p, k ≠ w.state → (insertPending w.now w.state w.pending map).2.lookup k = some p →
    map.lookup k = some p
  kept : ∀ k p, k ≠ w.state → map.lookup k = some p → fresh w.now p →
    (insertPending w.now w.state w.pending map).2.lookup k = some p
  refused : len map ≤ PENDING_CAP → ((insertPending w.now w.state w.pending map).1 = false ↔
    len map = PENDING_CAP ∧ ∀ k p, map.lookup k = some p → fresh w.now p)
  unchanged : len map ≤ PENDING_CAP → (insertPending w.now w.state w.pending map).1 = false →
    (insertPending w.now w.state w.pending map).2 = map

theorem pending_admits (w : PendingWrite) (map : PendingMap) : Admits w map := by
  have hsweep : sweepPending w.now map = sweep PENDING_CAP (fresh w.now) map := rfl
  have hle : len (sweepPending w.now map) ≤ len map := len_sweep_le
  have hkept (k : Text) (p : Pending) (h : map.lookup k = some p) (hfresh : fresh w.now p) :
      (sweepPending w.now map).lookup k = some p := lookup_sweep_fresh h hfresh
  obtain ⟨hfull, hins⟩ | ⟨hfull, hins⟩ := insertPending_cases w.now w.state w.pending map
  · have hself (hcap : len map ≤ PENDING_CAP) : sweepPending w.now map = map :=
      sweep_eq_self (hcap.trans hfull)
    constructor
    · intro h
      rw [hins] at h
      cases h
    · intro k p _ h
      rw [hins] at h
      exact OAuthFlow.lookup_sweep h
    · intro k p _ h hfresh
      rw [hins]
      exact hkept k p h hfresh
    · intro hcap
      rw [hins]
      have hlen := hfull.trans hle
      exact ⟨fun _ =>
        ⟨le_antisymm hcap hlen, fun k p => fresh_of_sweep hlen (hself hcap)⟩, fun _ => rfl⟩
    · intro hcap _
      rw [hins]
      exact hself hcap
  · constructor
    · intro _
      rw [hins]
      exact AList.lookup_insert _
    · intro k p hne h
      rw [hins, AList.lookup_insert_ne hne] at h
      exact OAuthFlow.lookup_sweep h
    · intro k p hne h hfresh
      rw [hins, AList.lookup_insert_ne hne]
      exact hkept k p h hfresh
    · intro _
      rw [hins]
      refine ⟨nofun, fun ⟨hlen, hfresh⟩ => absurd ?_ hfull⟩
      rw [hsweep, sweep_of_fresh hfresh, hlen]
    · intro _ h
      rw [hins] at h
      cases h

theorem len_writePending {map map' : PendingMap} {w : PendingWrite} (h : writePending map w map')
    (hcap : len map ≤ PENDING_CAP) : len map' ≤ PENDING_CAP := by
  rw [h]
  have hle : len (sweepPending w.now map) ≤ len map := len_sweep_le
  obtain ⟨hfull, hins⟩ | ⟨hfull, hins⟩ := insertPending_cases w.now w.state w.pending map
  · rw [hins]
    exact hle.trans hcap
  · rw [hins]
    have := len_insert_le w.state w.pending (sweepPending w.now map)
    dsimp only
    omega

/-- Every map that is keyed by an identity keeps within its cap and gives up
only what it may. -/
theorem maps_keep (𝕜 Ip : Type) [Field 𝕜] [LinearOrder 𝕜] [FloorRing 𝕜] (q : Quota) :
    Keeps MAX_BUCKETS_PER_MAP BucketEntry.lastSeen (writeBucket q)
      (fun w entry => w.now - entry.lastSeen < BUCKET_IDLE_TTL) BucketWrite.key
      (fun map w => ⟨(check q (bucketOf map w.key) w.now).2, w.now⟩) ∧
    Keeps DavClient.DISCOVERY_CAP DavClient.CachedDiscovery.cachedAt writeDiscovery
      (fun w entry => w.now - entry.cachedAt < DavClient.DISCOVERY_TTL) DiscoveryWrite.key
      (fun _ w => ⟨w.discovery, w.now⟩) ∧
    Keeps LogtoOidc.CACHE_CAP LogtoOidc.CacheEntry.expiresAt (writeValidation (𝕜 := 𝕜))
      (fun w entry => decide (entry.expiresAt > w.now)) ValidationWrite.key
      (fun _ w => ⟨w.identity, w.now + LogtoOidc.cacheTtl w.now w.exp⟩) ∧
    Keeps LastUsed.MAX_ENTRIES LastUsed.LastUsedRecord.usedAt (@writeUse Ip)
      (fun _ _ => true) UseWrite.tokenHash (fun _ w => ⟨w.now, w.ip⟩) ∧
    (∀ log map, Run (TableStep writePending) ∅ log map → len map ≤ PENDING_CAP) ∧
    ∀ w map, Admits w map :=
  ⟨buckets_keep q, discoveries_keep, validations_keep, uses_keep,
    fun _ _ h => len_le_of_run (fun _ _ _ => len_writePending) h, pending_admits⟩

end CardDavMcp.BoundedMaps
