import CardDavMcp.DavClient
import CardDavMcp.LogtoOidc
import CardDavMcp.Vcard

namespace CardDavMcp.ContactTools

open Library.Utf8Text Library.Interaction ToolError Contact Vcard RateLimit Urls DavError DavClient
open LogtoOidc (AuthenticatedIdentity)

/-- What the middleware leaves for a tool call. -/
structure RequestContext where
  token : Option Text
  identity : Option AuthenticatedIdentity
deriving DecidableEq, Repr

structure CreateContactParams where
  addressbookHref : Text
  contact : ContactInput
deriving DecidableEq, Repr

structure UpdateContactParams where
  contactHref : Text
  etag : Option Text := none
  contact : ContactInput
deriving DecidableEq, Repr

structure DeleteContactParams where
  contactHref : Text
  etag : Option Text := none
deriving DecidableEq, Repr

structure ContactWriteResult where
  href : Text
  etag : Option Text
  uid : Text
deriving DecidableEq, Repr

structure DeleteContactResult where
  href : Text
  deleted : Bool
deriving DecidableEq, Repr

/-- The service as far as the contact tools use it, with the hash that keys
the rate limiter. -/
structure CardDavMcpService where
  carddav : CardDavClient
  tokenHash : Text → Text

abbrev Tool (α : Type) := Fallible ErrorData α

def missingIdentityErr : ErrorData := internalError "no authenticated identity in request context"
def missingTokenErr : ErrorData := internalError "no access token in request context"

def tokenFromCtx (ctx : RequestContext) : Except ErrorData Text :=
  match ctx.token with
  | some token => .ok token
  | none => .error missingTokenErr

def identityFromCtx (ctx : RequestContext) : Except ErrorData AuthenticatedIdentity :=
  match ctx.identity with
  | some identity => .ok identity
  | none => .error missingIdentityErr

def hexEncode (bytes : Bytes) : Text :=
  let digit (n : Nat) := "0123456789abcdef".toList.getD n '0'
  bytes.flatMap (fun b => [digit (b.toNat / 16), digit (b.toNat % 16)])

def generateUid : Tool Text := do
  let bytes ← ask (Effect.fillBytes 16)
  return hexEncode bytes ++ "@carddav-mcp".toList

/-- The UID that an update keeps, if the stored card has one and the caller
does not ask for another. -/
def keptUid (stored : Text) (contact : ContactInput) : Except ErrorData Text :=
  match (parseVcard stored).uid with
  | none => .error (invalidParams "existing vCard has no UID; refusing replacement")
  | some existingUid =>
    if contact.uid.any (fun uid => uid ≠ existingUid) then
      .error (invalidParams "contact UID cannot be changed during update")
    else .ok existingUid

def SESSION_EXPIRED : String :=
  "Your carddav-mcp session has expired or Stalwart rejected its bearer. Disconnect and reconnect " ++
  "the MCP client to obtain a fresh Logto token, then retry."

namespace CardDavMcpService

variable (s : CardDavMcpService)

def rateLimitCheck (ctx : RequestContext) (category : Category) : Tool Unit := do
  let token ← settle (tokenFromCtx ctx)
  let identity ← settle (identityFromCtx ctx)
  match ← ask (Effect.rateLimitCheck (s.tokenHash token) (some identity.userId) category) with
  | .ok () => return ()
  | .error .rateLimited => throw ⟨RATE_LIMITED_CODE, "rate limit exceeded - try again in a minute"⟩

/-- Forget a session whose bearer was rejected, and say so. -/
def reactToAuthExpiry {α : Type} (ctx : RequestContext) (result : Tool α) : Tool α :=
  tryCatch result fun error =>
    if error.code ≠ AUTH_EXPIRED_CODE then throw error
    else match ctx.token with
      | some token => do
        s.carddav.evict token
        ask (Effect.dropToken token)
        throw ⟨AUTH_EXPIRED_CODE, SESSION_EXPIRED⟩
      | none => throw ⟨AUTH_EXPIRED_CODE, SESSION_EXPIRED⟩

def createContact (ctx : RequestContext) (params : CreateContactParams) : Tool ContactWriteResult :=
  s.reactToAuthExpiry ctx do
    s.rateLimitCheck ctx .write
    settle (validateContactInput params.contact)
    let token ← settle (tokenFromCtx ctx)
    let uid ← match params.contact.uid with
      | some uid => pure uid
      | none => generateUid
    settle (validateUid uid)
    let vcard ← settle (buildVcard params.contact uid)
    let written ←
      (s.carddav.createContact token params.addressbookHref uid vcard).adapt mapCarddavErr
    return ⟨written.href, written.etag, uid⟩

def updateContact (ctx : RequestContext) (params : UpdateContactParams) : Tool ContactWriteResult :=
  s.reactToAuthExpiry ctx do
    s.rateLimitCheck ctx .write
    settle (validateContactInput params.contact)
    let token ← settle (tokenFromCtx ctx)
    let existing ← (s.carddav.getContact token params.contactHref).adapt mapCarddavErr
    let existingUid ← settle (keptUid existing.vcard params.contact)
    let vcard ← settle (buildVcard params.contact existingUid)
    let etag := params.etag <|> existing.etag
    let written ← (s.carddav.updateContact token params.contactHref etag vcard).adapt mapCarddavErr
    return ⟨written.href, written.etag, existingUid⟩

def deleteContact (ctx : RequestContext) (params : DeleteContactParams) :
    Tool DeleteContactResult :=
  s.reactToAuthExpiry ctx do
    s.rateLimitCheck ctx .write
    let token ← settle (tokenFromCtx ctx)
    (s.carddav.deleteContact token params.contactHref params.etag).adapt mapCarddavErr
    return ⟨params.contactHref, true⟩

end CardDavMcpService

/-- A URL of the plain service. -/
def plainUrl (path : Text) : Url := withPath
  { serialization := [], scheme := "https".toList, hostStr := some "dav.test".toList,
    portOrKnownDefault := some 443 } path

/-- A service that reads plain URLs, at `https://dav.test/`. -/
def plainService : CardDavMcpService where
  carddav :=
    { url := plainUrls
      xml := ⟨fun _ => [], fun _ => none⟩
      hashToken := fun token => token.map (fun c => UInt8.ofNat c.toNat)
      isIpAddr := fun _ => false
      isHeaderValue := fun value => value.all (fun c => (32 ≤ c.toNat && c.toNat ≠ 127) || c = '\t')
      utf8Error := fun _ => "invalid utf-8"
      baseUrl := plainUrl ['/']
      discoveryUrl := plainUrl ('/' :: WELL_KNOWN)
      maxResponseBytes := 1024 }
  tokenHash := id

end CardDavMcp.ContactTools
