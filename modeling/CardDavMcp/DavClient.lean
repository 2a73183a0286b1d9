import CardDavMcp.Library.Interaction
import CardDavMcp.Library.Table
import CardDavMcp.Multistatus
import CardDavMcp.RateLimit
import CardDavMcp.Urls

namespace CardDavMcp.DavClient

open Library.Utf8Text Library.Table Library.Interaction Urls DavError Multistatus RateLimit

abbrev Bytes := List UInt8
abbrev Key := Bytes

def CURRENT_USER_PRINCIPAL_BODY : Text := r#"<?xml version="1.0" encoding="UTF-8"?>
<d:propfind xmlns:d="DAV:">
  <d:prop><d:current-user-principal/></d:prop>
</d:propfind>"#.toList

def ADDRESSBOOK_HOME_BODY : Text := r#"<?xml version="1.0" encoding="UTF-8"?>
<d:propfind xmlns:d="DAV:" xmlns:card="urn:ietf:params:xml:ns:carddav">
  <d:prop><card:addressbook-home-set/></d:prop>
</d:propfind>"#.toList

def LIST_ADDRESSBOOKS_BODY : Text := r#"<?xml version="1.0" encoding="UTF-8"?>
<d:propfind xmlns:d="DAV:" xmlns:card="urn:ietf:params:xml:ns:carddav" xmlns:cs="http://calendarserver.org/ns/">
  <d:prop>
    <d:resourcetype/>
    <d:displayname/>
    <cs:getctag/>
  </d:prop>
</d:propfind>"#.toList

def LIST_CONTACTS_BODY : Text := r#"<?xml version="1.0" encoding="UTF-8"?>
<card:addressbook-query xmlns:d="DAV:" xmlns:card="urn:ietf:params:xml:ns:carddav">
  <d:prop><d:getetag/><card:address-data/></d:prop>
</card:addressbook-query>"#.toList

structure DavDiscovery where
  principalHref : Text
  addressbookHomeHref : Text
deriving DecidableEq, Repr

structure DavAddressBook where
  href : Text
  displayName : Text
  ctag : Option Text
deriving DecidableEq, Repr

structure DavContact where
  href : Text
  etag : Option Text
  vcard : Text
deriving DecidableEq, Repr

structure DavWriteResult where
  href : Text
  etag : Option Text
deriving DecidableEq, Repr

inductive Method
  | propfind | report | get | put | delete
deriving DecidableEq, Repr

structure DavRequest where
  method : Method
  url : Url
  headers : List (String × Text)
  body : Text := []
deriving DecidableEq, Repr

def DavRequest.header (request : DavRequest) (name : String) : Option Text :=
  (request.headers.find? (fun h => h.1 = name)).map Prod.snd

/-- A response as it comes in: the headers that the client looks at, and the
chunks of the body as far as they arrive. -/
structure RawResponse where
  status : Nat
  etag : Option Bytes := none
  location : Option Bytes := none
  contentLength : Option Bytes := none
  chunks : List (Except String Bytes) := []

structure DavHttpResponse where
  status : Nat
  body : Bytes
  etag : Option Text
  location : Option Text
deriving DecidableEq, Repr

/-- What the client takes from other crates. -/
structure Crates where
  url : UrlCrate
  xml : QuickXml
  hashToken : Text → Key
  isIpAddr : Text → Bool
  isHeaderValue : Text → Bool
  /-- How the error of a text that is not UTF-8 reads. -/
  utf8Error : Bytes → String

structure CardDavClient extends Crates where
  baseUrl : Url
  discoveryUrl : Url
  maxResponseBytes : Nat

def WELL_KNOWN : Text := ".well-known/carddav".toList

/-- The client's base URL: without query and fragment, its path ending in a
slash. -/
def baseOf (U : UrlCrate) (parsed : Url) : Url :=
  let cleared := U.clearFragment (U.clearQuery parsed)
  if cleared.path.getLast? = some '/' then cleared else U.setPath cleared (cleared.path ++ ['/'])

def CardDavClient.new (K : Crates) (stalwartBase : Text) (connectIp : Option Text)
    (maxResponseBytes : Nat) : Except String CardDavClient := do
  if maxResponseBytes = 0 then throw "CardDAV response cap must be > 0"
  let some parsed := K.url.parse stalwartBase | throw "parse Stalwart DAV base URL"
  if !((parsed.scheme = "http".toList || parsed.scheme = "https".toList) &&
    parsed.hostStr.isSome) then
    throw "Stalwart DAV base URL must be absolute http(s)"
  let baseUrl := baseOf K.url parsed
  let some discoveryUrl := K.url.join baseUrl WELL_KNOWN | throw "build CardDAV discovery URL"
  if connectIp.any (fun ip => !K.isIpAddr ip) then
    throw "CARDDAV_MCP_STALWART_CONNECT_IP is not a valid IP"
  return { K with baseUrl, discoveryUrl, maxResponseBytes }

/-- The steps in which a request of the service touches what all requests
share: the network, the caches, the limiter and the source of randomness. -/
inductive Effect
  | send (request : DavRequest)
  | discoveryLookup (key : Key)
  | discoveryInsert (key : Key) (discovery : DavDiscovery)
  | discoveryRemove (key : Key)
  | rateLimitCheck (bearerHash : Text) (sub : Option Text) (category : Category)
  | dropToken (token : Text)
  | fillBytes (len : Nat)
deriving DecidableEq, Repr

abbrev Reply : Effect → Type
  | .send _ => Except String RawResponse
  | .discoveryLookup _ => Option DavDiscovery
  | .discoveryInsert _ _ | .discoveryRemove _ | .dropToken _ => Unit
  | .rateLimitCheck _ _ _ => Except RateLimited Unit
  | .fillBytes _ => Bytes

abbrev Fallible (ε α : Type) := ExceptT ε (Prog Effect Reply) α
abbrev Dav (α : Type) := Fallible CardDavError α

/-- The text of a header value, if all of it is visible. -/
def headerToStr (value : Bytes) : Option Text :=
  if value.all (fun b => (32 ≤ b && b < 127) || b = 9) then
    some (value.map (fun b => Char.ofNat b.toNat))
  else none

/-- A number of 64 bits in decimal, after an optional plus sign. -/
def parseU64 (s : Text) : Option Nat :=
  let digits := stripPrefix ['+'] s
  let value := digits.foldl (fun n c => 10 * n + (c.toNat - '0'.toNat)) 0
  if !digits.isEmpty && digits.all Char.isDigit && value < 2 ^ 64 then some value else none

def readChunks (maxBytes : Nat) (body : Bytes) : List (Except String Bytes) →
    Except CardDavError Bytes
  | [] => .ok body
  | .error e :: _ => .error (.http e)
  | .ok chunk :: rest =>
    if body.length + chunk.length > maxBytes then .error .tooLarge
    else readChunks maxBytes (body ++ chunk) rest

def readLimited (response : RawResponse) (maxBytes : Nat) : Except CardDavError Bytes :=
  if (response.contentLength.bind headerToStr >>= parseU64).any (· > maxBytes) then .error .tooLarge
  else readChunks maxBytes [] response.chunks

def ensureMultistatus (status : Nat) : Except CardDavError Unit :=
  if status = 207 ∨ status = 200 then .ok ()
  else if status = 404 then .error .notFound
  else .error (.upstream status)

def normalizeHref (href : Text) : Text := trimEndMatches '/' href

def hrefTail (href : Text) : Option Text :=
  ((trimEndMatches '/' href).splitOn '/').reverse.find? (fun part => !part.isEmpty)

def escapeXml (value : Text) : Text :=
  replaceChar '\'' "&apos;".toList (replaceChar '"' "&quot;".toList
    (replaceChar '>' "&gt;".toList
      (replaceChar '<' "&lt;".toList (replaceChar '&' "&amp;".toList value))))

def isIllegalXmlChar (c : Char) : Bool :=
  let n := c.toNat
  n ≤ 0x8 || n = 0xB || n = 0xC || (0xE ≤ n && n ≤ 0x1F)

def propFilter (name : String) (escaped : Text) : Text :=
  "    <card:prop-filter name=\"".toList ++ name.toList ++
    "\"><card:text-match collation=\"i;unicode-casemap\" match-type=\"contains\">".toList ++
    escaped ++ "</card:text-match></card:prop-filter>\n".toList

def searchBody (escaped : Text) : Text :=
  r#"<?xml version="1.0" encoding="UTF-8"?>
<card:addressbook-query xmlns:d="DAV:" xmlns:card="urn:ietf:params:xml:ns:carddav">
  <d:prop><d:getetag/><card:address-data/></d:prop>
  <card:filter test="anyof">
"#.toList ++ ["FN", "N", "EMAIL", "TEL", "ORG"].flatMap (propFilter · escaped) ++
  "  </card:filter>\n</card:addressbook-query>".toList

namespace CardDavClient

variable (c : CardDavClient)

/-- The URL of an href, if it stays with the client's origin. -/
def resolveHref (href : Text) : Except CardDavError Url :=
  if trim href ≠ href ∨ href.isEmpty then .error (.invalidHref href)
  else match c.url.join c.baseUrl href with
    | none => .error (.invalidHref href)
    | some resolved =>
      let sameOrigin := resolved.scheme = c.baseUrl.scheme ∧ resolved.hostStr = c.baseUrl.hostStr ∧
        resolved.portOrKnownDefault = c.baseUrl.portOrKnownDefault
      if ¬ sameOrigin ∨ ¬ resolved.username.isEmpty ∨ resolved.password.isSome ∨
        resolved.fragment.isSome then
        .error (.invalidHref href)
      else .ok resolved

variable {ε : Type}

def evict (token : Text) : Fallible ε Unit := ask (Effect.discoveryRemove (c.hashToken token))

def bearerAuth (token : Text) (request : DavRequest) : DavRequest :=
  { request with headers := request.headers ++ [("authorization", "Bearer ".toList ++ token)] }

/-- What becomes of a response that did not reject the bearer. -/
def receive (response : RawResponse) : Except CardDavError DavHttpResponse := do
  let body ← readLimited response c.maxResponseBytes
  return ⟨response.status, body, response.etag.bind headerToStr, response.location.bind headerToStr⟩

def send (token : Text) (request : DavRequest) : Dav DavHttpResponse :=
  let request := bearerAuth token request
  if !request.headers.all (fun h => c.isHeaderValue h.2) then throw (.http "builder error")
  else do
    match ← ask (Effect.send request) with
    | .error e => throw (.http e)
    | .ok response =>
      if response.status = 401 ∨ response.status = 403 then
        c.evict token
        throw .unauthorized
      else settle (c.receive response)

def propfindRequest (url : Url) (depth : String) (body : Text) : DavRequest where
  method := .propfind
  url
  headers :=
    [("depth", depth.toList), ("content-type", "application/xml; charset=utf-8".toList),
     ("accept", "application/xml".toList)]
  body

def propfind (token : Text) (url : Url) (depth : String) (body : Text) : Dav DavHttpResponse := do
  let response ← c.send token (propfindRequest url depth body)
  settle (ensureMultistatus response.status)
  return response

/-- The principal and the home set of the caller, from the cache or else from
two requests. -/
def discover (token : Text) : Dav DavDiscovery := do
  match ← ask (Effect.discoveryLookup (c.hashToken token)) with
  | some discovery => return discovery
  | none =>
    let principalResponse ← c.propfind token c.discoveryUrl "0" CURRENT_USER_PRINCIPAL_BODY
    let responses ← settle (parseMultistatus c.xml principalResponse.body)
    match responses.findSome? ParsedDavResponse.currentUserPrincipal with
    | none => throw (.invalidData "discovery response omitted current-user-principal")
    | some principalHref =>
      let principalUrl ← settle (c.resolveHref principalHref)
      let homeResponse ← c.propfind token principalUrl "0" ADDRESSBOOK_HOME_BODY
      let responses ← settle (parseMultistatus c.xml homeResponse.body)
      match responses.findSome? ParsedDavResponse.addressbookHome with
      | none => throw (.invalidData "principal response omitted addressbook-home-set")
      | some addressbookHomeHref =>
        let _ ← settle (c.resolveHref addressbookHomeHref)
        ask (Effect.discoveryInsert (c.hashToken token) ⟨principalHref, addressbookHomeHref⟩)
        return ⟨principalHref, addressbookHomeHref⟩

/-- What is picked from the items of a listing, each with an href that has to
resolve. -/
def collect {β : Type} (href : β → Text) (pick : ParsedDavResponse → Option β) :
    List ParsedDavResponse → Except CardDavError (List β)
  | [] => .ok []
  | item :: rest =>
    match pick item with
    | none => collect href pick rest
    | some found => do
      let _ ← c.resolveHref (href found)
      let others ← collect href pick rest
      return found :: others

/-- The address book that an item stands for, the home set itself left out. -/
def bookOf (homeNormalized : Text) (item : ParsedDavResponse) : Option DavAddressBook :=
  match item.href with
  | none => none
  | some href =>
    if !item.isAddressbook || normalizeHref href = homeNormalized then none
    else
      let named := item.displayName.filter (fun name => !(trim name).isEmpty)
      some { href
             displayName := named.getD ((hrefTail href).getD "Contacts".toList)
             ctag := item.ctag.filter (fun ctag => !ctag.isEmpty) }

def listAddressBooks (token : Text) : Dav (List DavAddressBook) := do
  let discovery ← c.discover token
  let homeUrl ← settle (c.resolveHref discovery.addressbookHomeHref)
  let response ← c.propfind token homeUrl "1" LIST_ADDRESSBOOKS_BODY
  let parsed ← settle (parseMultistatus c.xml response.body)
  settle (c.collect DavAddressBook.href
    (bookOf (normalizeHref discovery.addressbookHomeHref)) parsed)

/-- The contact that an item stands for, if it carries a card. -/
def contactOf (item : ParsedDavResponse) : Option DavContact :=
  match item.href, item.addressData with
  | some href, some vcard => some ⟨href, item.etag.filter (fun etag => !etag.isEmpty), vcard⟩
  | _, _ => none

def reportRequest (url : Url) (body : Text) : DavRequest where
  method := .report
  url
  headers :=
    [("depth", "1".toList), ("content-type", "application/xml; charset=utf-8".toList),
     ("accept", "application/xml, text/vcard".toList)]
  body

def queryContacts (token addressbookHref body : Text) : Dav (List DavContact) := do
  let url ← settle (c.resolveHref addressbookHref)
  let response ← c.send token (reportRequest url body)
  settle (ensureMultistatus response.status)
  let parsed ← settle (parseMultistatus c.xml response.body)
  settle (c.collect DavContact.href contactOf parsed)

def listContacts (token addressbookHref : Text) : Dav (List DavContact) :=
  c.queryContacts token addressbookHref LIST_CONTACTS_BODY

def checkQuery (query : Text) : Except CardDavError Unit :=
  if (trim query).isEmpty then .error (.invalidData "search query must not be empty")
  else if byteLen query > 256 || query.any isIllegalXmlChar then
    .error (.invalidData "search query is too long or contains an XML control character")
  else .ok ()

def searchContacts (token addressbookHref query : Text) : Dav (List DavContact) := do
  settle (checkQuery query)
  c.queryContacts token addressbookHref (searchBody (escapeXml query))

def fromUtf8 (body : Bytes) : Except CardDavError Text :=
  match String.fromUTF8? ⟨body.toArray⟩ with
  | some text => .ok text.toList
  | none => .error (.invalidData s!"vCard is not UTF-8: {c.utf8Error body}")

def getRequest (url : Url) : DavRequest where
  method := .get
  url
  headers := [("accept", "text/vcard, text/x-vcard".toList)]

def getContact (token contactHref : Text) : Dav DavContact := do
  let url ← settle (c.resolveHref contactHref)
  let response ← c.send token (getRequest url)
  if response.status = 200 then
    let vcard ← settle (c.fromUtf8 response.body)
    return ⟨contactHref, response.etag, vcard⟩
  else if response.status = 404 then throw .notFound
  else throw (.upstream response.status)

/-- The URL of a new contact in an address book. -/
def contactUrl (addressbookHref uid : Text) (url : Url) : Except CardDavError Url :=
  match c.url.pushSegment url (uid ++ ".vcf".toList) with
  | none => .error (.invalidHref addressbookHref)
  | some url => .ok (c.url.clearFragment (c.url.clearQuery url))

def putRequest (url : Url) (precondition : String × Text) (vcard : Text) : DavRequest where
  method := .put
  url
  headers := [("content-type", "text/vcard; charset=utf-8".toList), precondition]
  body := vcard

def createContact (token addressbookHref uid vcard : Text) : Dav DavWriteResult := do
  let url ← settle (c.resolveHref addressbookHref)
  let url ← settle (c.contactUrl addressbookHref uid url)
  let response ← c.send token (putRequest url ("if-none-match", ['*']) vcard)
  if response.status = 201 ∨ response.status = 204 ∨ response.status = 200 then
    return ⟨response.location.getD url.path, response.etag⟩
  else if response.status = 412 ∨ response.status = 409 then throw .conflict
  else throw (.upstream response.status)

def updateContact (token contactHref : Text) (etag : Option Text) (vcard : Text) :
    Dav DavWriteResult := do
  let url ← settle (c.resolveHref contactHref)
  let response ← c.send token (putRequest url ("if-match", etag.getD ['*']) vcard)
  if response.status = 200 ∨ response.status = 201 ∨ response.status = 204 then
    return ⟨response.location.getD contactHref, response.etag⟩
  else if response.status = 404 then throw .notFound
  else if response.status = 412 ∨ response.status = 409 then throw .conflict
  else throw (.upstream response.status)

def deleteRequest (url : Url) (etag : Option Text) : DavRequest where
  method := .delete
  url
  headers := [("if-match", etag.getD ['*'])]

def deleteContact (token contactHref : Text) (etag : Option Text) : Dav Unit := do
  let url ← settle (c.resolveHref contactHref)
  let response ← c.send token (deleteRequest url etag)
  if response.status = 200 ∨ response.status = 204 then return ()
  else if response.status = 404 then throw .notFound
  else if response.status = 412 ∨ response.status = 409 then throw .conflict
  else throw (.upstream response.status)

/-- What a reply makes of a request. -/
def outcome : Except String RawResponse → Except CardDavError DavHttpResponse
  | .error e => .error (.http e)
  | .ok response =>
    if response.status = 401 ∨ response.status = 403 then .error .unauthorized
      else c.receive response

def Rejects : Except String RawResponse → Bool
  | .error _ => false
  | .ok response => response.status = 401 ∨ response.status = 403

/-- What the client has done once a request is answered. -/
def sent (token : Text) (request : DavRequest) (reply : Except String RawResponse) :
    Trace Effect Reply :=
  ⟨.send (bearerAuth token request), reply⟩ ::
    if Rejects reply then [⟨.discoveryRemove (c.hashToken token), ()⟩] else []

theorem starts_send {token : Text} {request : DavRequest}
    (hvalid : (bearerAuth token request).headers.all (fun h => c.isHeaderValue h.2)) :
    ∃ k, (c.send token request).run = .act (.send (bearerAuth token request)) k := by
  simp only [send, hvalid]
  exact ⟨_, rfl⟩

theorem always_send {C : Contract Effect Reply} {tr : Trace Effect Reply}
    {post : Trace Effect Reply → Except CardDavError DavHttpResponse → Prop} {token : Text}
    {request : DavRequest} (hinvalid : post tr (.error (.http "builder error")))
    (hguar : C.guar tr (.send (bearerAuth token request)))
    (hevict : ∀ reply, Rejects reply → C.guar (tr ++ [⟨.send (bearerAuth token request), reply⟩])
      (.discoveryRemove (c.hashToken token)))
    (hpost : ∀ reply, C.rely (.send (bearerAuth token request)) reply →
      post (tr ++ c.sent token request reply) (c.outcome reply)) :
    Always C post tr (c.send token request).run := by
  simp only [send]
  split_ifs with hvalid
  · exact hinvalid
  · refine always_ask_bind.mpr ⟨hguar, fun reply hrely => ?_⟩
    have h := hpost reply hrely
    cases reply with
    | error e => exact h
    | ok response =>
      simp only [sent, outcome, Rejects, decide_eq_true_eq] at h
      dsimp only
      split_ifs with hrejected
      · rw [if_pos hrejected, if_pos hrejected, List.append_cons] at h
        exact always_ask_bind.mpr ⟨hevict _ (by simpa [Rejects] using hrejected), fun _ _ => h⟩
      · rw [if_neg hrejected, if_neg hrejected] at h
        exact h

end CardDavClient

def DISCOVERY_TTL : Nat := 3600 * NANOS_PER_SEC
def DISCOVERY_CAP : Nat := 256

structure CachedDiscovery where
  discovery : DavDiscovery
  cachedAt : Nat
deriving DecidableEq, Repr

abbrev Discoveries := Dict Key CachedDiscovery

def discoveryLookup (now : Nat) (key : Key) (cache : Discoveries) : Option DavDiscovery :=
  match cache.lookup key with
  | some entry => if now - entry.cachedAt < DISCOVERY_TTL then some entry.discovery else none
  | none => none

def discoveryInsert (order : IterOrder Key CachedDiscovery) (now : Nat) (key : Key)
    (discovery : DavDiscovery) (cache : Discoveries) : Discoveries :=
  let swept := if len cache ≥ DISCOVERY_CAP then
    retain (fun _ entry => decide (now - entry.cachedAt < DISCOVERY_TTL)) cache else cache
  let room := if len swept ≥ DISCOVERY_CAP ∧ (swept.lookup key).isNone then
    evictMin order CachedDiscovery.cachedAt swept else swept
  room.insert key ⟨discovery, now⟩

end CardDavMcp.DavClient
