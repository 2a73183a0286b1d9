import CardDavMcp.Library.Gcra
import CardDavMcp.Library.Table
import CardDavMcp.Library.Utf8Text

namespace CardDavMcp.RateLimit

open Library.Utf8Text Library.Table Library.Gcra

def NANOS_PER_SEC : Nat := 1000000000
def MAX_INITIALIZES_PER_IDENTITY : Nat := 32
def INITIALIZE_REPLENISH : Nat := 60 * NANOS_PER_SEC
def MAX_BUCKETS_PER_MAP : Nat := 4096
def BUCKET_IDLE_TTL : Nat := 3600 * NANOS_PER_SEC

structure BucketEntry where
  bucket : Nat
  lastSeen : Nat
deriving DecidableEq, Repr

abbrev BucketMap := Dict Text BucketEntry
abbrev MapOrder := IterOrder Text BucketEntry

inductive Category
  | read | write
deriving DecidableEq, Repr

/-- `n` cells a minute: one every sixty seconds divided by `n`, in whole
nanoseconds, and `n` at once. -/
def perMinute (n : Nat) : Quota := ⟨60 * NANOS_PER_SEC / n, n⟩

/-- Make room for one more key: first drop what is idle, then, if that was not
enough, the entry seen longest ago. -/
def makeRoom (order : MapOrder) (now : Nat) (map : BucketMap) : BucketMap :=
  let map := if len map ≥ MAX_BUCKETS_PER_MAP then
    retain (fun _ entry => now - entry.lastSeen < BUCKET_IDLE_TTL) map else map
  if len map ≥ MAX_BUCKETS_PER_MAP then evictMin order BucketEntry.lastSeen map else map

def getOrInsertWithQuota (order : MapOrder) (now : Nat) (key : Text) (map : BucketMap) :
    Nat × BucketMap :=
  match map.lookup key with
  | some entry => (entry.bucket, map.insert key { entry with lastSeen := now })
  | none => (full, (makeRoom order now map).insert key ⟨full, now⟩)

/-- Fetch the bucket of a key and test it. The map and the caller share the
bucket. -/
def charge (order : MapOrder) (quota : Quota) (now : Nat) (key : Text) (map : BucketMap) :
    Bool × BucketMap :=
  let (bucket, map) := getOrInsertWithQuota order now key map
  let (allowed, bucket) := check quota bucket now
  (allowed, map.insert key ⟨bucket, now⟩)

/-- Which identity a map is keyed by. -/
inductive Identity
  | bearer | sub
deriving DecidableEq, Repr

/-- A test of one bucket, for the record. -/
structure Charge (Id : Type) where
  map : Id
  key : Text
  now : Nat
  allowed : Bool

/-- Test a bucket of one map of a family of maps. -/
def chargeIn {Id : Type} [DecidableEq Id] (order : MapOrder) (quota : Quota) (now : Nat) (id : Id)
    (key : Text) (maps : Id → BucketMap) : Charge Id × (Id → BucketMap) :=
  let (allowed, map) := charge order quota now key (maps id)
  (⟨id, key, now, allowed⟩, Function.update maps id map)

structure Limiter where
  readsPerMin : Nat
  writesPerMin : Nat
  maps : Identity × Category → BucketMap

def Limiter.new (readsPerMin writesPerMin : Nat) : Option Limiter :=
  if readsPerMin = 0 || writesPerMin = 0 then none
  else some ⟨readsPerMin, writesPerMin, fun _ => ∅⟩

def Limiter.quota (l : Limiter) : Category → Quota
  | .read => perMinute l.readsPerMin
  | .write => perMinute l.writesPerMin

inductive RateLimited
  | rateLimited
deriving DecidableEq, Repr

/-- The bearer's bucket first, then the subject's. The charges made are
returned beside the answer. -/
def Limiter.check (order : Identity → MapOrder) (l : Limiter) (bearerHash : Text)
    (sub : Option Text) (category : Category) (now : Nat) :
    Except RateLimited Unit × List (Charge (Identity × Category)) × Limiter :=
  let (bearer, maps) :=
    chargeIn (order .bearer) (l.quota category) now (.bearer, category) bearerHash l.maps
  if !bearer.allowed then (.error .rateLimited, [bearer], { l with maps })
  else match sub with
    | none => (.ok (), [bearer], { l with maps })
    | some s =>
      let (subject, maps) := chargeIn (order .sub) (l.quota category) now (.sub, category) s maps
      (if subject.allowed then .ok () else .error .rateLimited, [bearer, subject], { l with maps })

inductive RejectedBy
  | subject | bearer
deriving DecidableEq, Repr

structure InitializeLimiter where
  quota : Quota
  maps : Identity → BucketMap

/-- A period of zero stands for one cell a minute, a burst of zero for one. -/
def InitializeLimiter.new (replenish1Per burst : Nat) : InitializeLimiter where
  quota := ⟨if replenish1Per = 0 then (perMinute 1).period else replenish1Per, max burst 1⟩
  maps _ := ∅

/-- One charge: the subject's bucket if there is a subject, else the bearer's. -/
def InitializeLimiter.check (order : MapOrder) (l : InitializeLimiter) (bearerHash : Text)
    (sub : Option Text) (now : Nat) :
    Except RejectedBy Unit × Charge Identity × InitializeLimiter :=
  match sub with
  | none =>
    let (bearer, maps) := chargeIn order l.quota now .bearer bearerHash l.maps
    (if bearer.allowed then .ok () else .error .bearer, bearer, { l with maps })
  | some s =>
    let (subject, maps) := chargeIn order l.quota now .sub s l.maps
    (if subject.allowed then .ok () else .error .subject, subject, { l with maps })

end CardDavMcp.RateLimit
