import CardDavMcp.Library.Interaction
import CardDavMcp.Library.Table
import CardDavMcp.Library.Utf8Text
import Mathlib.Algebra.Order.Floor.Ring
import Mathlib.Algebra.Order.Field.Basic

namespace CardDavMcp.LogtoOidc

open Library.Utf8Text Library.Table Library.Interaction

inductive AudField
  | single (aud : Text)
  | multi (auds : List Text)
deriving DecidableEq, Repr

def AudField.isMatch (aud : AudField) (expected : Text) : Bool :=
  match aud with
  | .single s => s = expected
  | .multi xs => xs.any (· = expected)

structure LogtoAccessTokenClaims where
  sub : Text
  aud : AudField
  exp : Int
  email : Option Text := none
  name : Option Text := none
  username : Option Text := none
deriving DecidableEq, Repr

structure AuthenticatedIdentity where
  userId : Text
  email : Option Text
  name : Option Text
  exp : Option Int
deriving DecidableEq, Repr

inductive ValidationError
  | http (message : String)
  | jwksUpstream (status : Nat)
deriving DecidableEq, Repr

inductive Algorithm
  | HS256 | HS384 | HS512 | ES256 | ES384 | RS256 | RS384 | RS512 | PS256 | PS384 | PS512 | EdDSA
deriving DecidableEq, Repr

structure Header where
  alg : Algorithm
  kid : Option Text
deriving DecidableEq, Repr

structure DecodingKey where
  bytes : List UInt8
deriving DecidableEq, Repr

structure Validation where
  alg : Algorithm
  audiences : List Text
  issuer : Text
  requiredSpecClaims : List String
deriving DecidableEq, Repr

abbrev Key := List UInt8

/-- The client without its caches, with the two pure functions it takes from
other crates. -/
structure LogtoValidationClient where
  expectedAudiences : List Text
  expectedIssuer : Text
  hashToken : Text → Key
  decodeHeader : Text → Option Header

/-- The steps in which a call touches the caches, the clock or the network. -/
inductive Effect
  | cacheLookup (key : Key)
  | decodingKeyFor (kid : Text)
  | decode (token : Text) (key : DecodingKey) (validation : Validation)
  | cacheInsert (key : Key) (identity : AuthenticatedIdentity) (exp : Option Int)
  | cacheRemove (key : Key)
deriving DecidableEq, Repr

abbrev Reply : Effect → Type
  | .cacheLookup _ => Option AuthenticatedIdentity
  | .decodingKeyFor _ => Except ValidationError (Option DecodingKey)
  | .decode _ _ _ => Option LogtoAccessTokenClaims
  | .cacheInsert _ _ _ | .cacheRemove _ => Unit

def allowedAlgorithm (alg : Algorithm) : Bool :=
  [.ES384, .ES256, .RS256, .RS384, .RS512, .EdDSA].contains alg

def LogtoValidationClient.validation (c : LogtoValidationClient) (alg : Algorithm) : Validation :=
  ⟨alg, c.expectedAudiences, c.expectedIssuer, ["exp", "aud", "iss", "sub"]⟩

def identityOf (claims : LogtoAccessTokenClaims) : AuthenticatedIdentity where
  userId := claims.sub
  email := claims.email <|> claims.username
  name := claims.name
  exp := some claims.exp

/-- Answer from the cache, or else verify in full and remember the result. -/
def LogtoValidationClient.validateToken (c : LogtoValidationClient) (token : Text) :
    Prog Effect Reply (Except ValidationError (Option AuthenticatedIdentity)) := do
  let key := c.hashToken token
  match ← perform (Effect.cacheLookup key) with
  | some hit => return .ok (some hit)
  | none =>
    match c.decodeHeader token with
    | none => return .ok none
    | some header =>
      match header.kid with
      | none => return .ok none
      | some kid =>
        match ← perform (Effect.decodingKeyFor kid) with
        | .error e => return .error e
        | .ok none => return .ok none
        | .ok (some decodingKey) =>
          if !allowedAlgorithm header.alg then return .ok none
          else
            match ← perform (Effect.decode token decodingKey (c.validation header.alg)) with
            | none => return .ok none
            | some claims =>
              if !c.expectedAudiences.any (fun expected => claims.aud.isMatch expected) then
                return .ok none
              else
                let _ ← perform (Effect.cacheInsert key (identityOf claims) (some claims.exp))
                return .ok (some (identityOf claims))

def LogtoValidationClient.dropToken (c : LogtoValidationClient) (token : Text) :
    Prog Effect Reply Unit := do
  let _ ← perform (Effect.cacheRemove (c.hashToken token))

def MAX_CACHE_TTL : Nat := 60
def CACHE_CAP : Nat := 256

section Cache

variable {𝕜 : Type} [Field 𝕜] [LinearOrder 𝕜] [IsStrictOrderedRing 𝕜] [FloorRing 𝕜]

structure CacheEntry (𝕜 : Type) where
  identity : AuthenticatedIdentity
  expiresAt : 𝕜

abbrev Cache (𝕜 : Type) := Dict Key (CacheEntry 𝕜)

/-- The wall clock in whole seconds. -/
def nowUnix (now : 𝕜) : Int := ⌊now⌋

def cacheTtl (now : 𝕜) (exp : Option Int) : 𝕜 :=
  match exp with
  | none => (MAX_CACHE_TTL : 𝕜)
  | some exp => min ((max (exp - nowUnix now) 0 : Int) : 𝕜) (MAX_CACHE_TTL : 𝕜)

def cacheLookup (now : 𝕜) (key : Key) (cache : Cache 𝕜) : Option AuthenticatedIdentity :=
  match cache.lookup key with
  | some e => if e.expiresAt > now then some e.identity else none
  | none => none

/-- Drop what has expired from a full cache. -/
def cacheSweep (now : 𝕜) (cache : Cache 𝕜) : Cache 𝕜 :=
  if len cache ≥ CACHE_CAP then retain (fun _ e => decide (e.expiresAt > now)) cache else cache

def cacheInsert (order : IterOrder Key (CacheEntry 𝕜)) (now : 𝕜) (key : Key)
    (identity : AuthenticatedIdentity) (exp : Option Int) (cache : Cache 𝕜) : Cache 𝕜 :=
  let entry := ⟨identity, now + cacheTtl now exp⟩
  let swept := cacheSweep now cache
  let room := if len swept ≥ CACHE_CAP ∧ (swept.lookup key).isNone then
    evictMin order CacheEntry.expiresAt swept else swept
  room.insert key entry

end Cache

end CardDavMcp.LogtoOidc
