import CardDavMcp.OAuthRedirect
import CardDavMcp.Library.Table

namespace CardDavMcp.OAuthProxy

open Library.Utf8Text Library.Table Urls OAuthRedirect

/-- Ten minutes, in nanoseconds of the monotonic clock. -/
def PENDING_TTL : Nat := 600 * 1000000000
def PENDING_CAP : Nat := 2048
def MAX_CLIENT_STATE_BYTES : Nat := 4096

structure Pending where
  clientRedirectUri : Text
  clientState : Option Text
  created : Nat
deriving DecidableEq, Repr

/-- The fixed configuration of the proxy. Its map of pending authorizations
is passed beside it. -/
structure OAuthProxyState where
  logtoBase : Text
  callbackUrl : Text
  allowedRedirectUris : List Text
  davAudience : Text
deriving DecidableEq, Repr

abbrev PendingMap := Dict Text Pending

def OAuthProxyState.new (logtoBase resourceUrl : Text) (allowedRedirectUris : List Text)
    (davAudience : Text) : OAuthProxyState where
  logtoBase := trimEndMatches '/' logtoBase
  callbackUrl := trimEndMatches '/' resourceUrl ++ "/oauth/callback".toList
  allowedRedirectUris := allowedRedirectUris
  davAudience := davAudience

/-- What a handler answers: a plain text, a `303` redirect, or a reply
relayed from upstream under `no-store` and `no-cache`. -/
inductive Response
  | text (status : Nat) (body : String)
  | redirect (location : Text)
  | relayed (status : Nat) (contentType : Text) (body : List UInt8)
deriving DecidableEq, Repr

def fresh (now : Nat) (p : Pending) : Bool := now - p.created < PENDING_TTL

/-- At the cap, expired entries are dropped first. -/
def sweepPending (now : Nat) (pending : PendingMap) : PendingMap :=
  if len pending ≥ PENDING_CAP then retain (fun _ p => fresh now p) pending else pending

/-- Store one pending authorization unless the map stays full. -/
def insertPending (now : Nat) (state : Text) (p : Pending) (pending : PendingMap) :
    Bool × PendingMap :=
  let swept := sweepPending now pending
  if len swept ≥ PENDING_CAP then (false, swept) else (true, swept.insert state p)

def takePending (now : Nat) (state : Text) (pending : PendingMap) : Option Pending × PendingMap :=
  match pending.lookup state with
  | none => (none, pending)
  | some p => (if now - p.created ≥ PENDING_TTL then none else some p, pending.erase state)

variable (U : UrlCrate)

def isAbsoluteHttpUri (url : Text) : Bool :=
  if trim url ≠ url || url.any isWhitespace then false
  else match U.parse url with
    | none => false
    | some parsed =>
      (parsed.scheme = "https".toList || parsed.scheme = "http".toList) && parsed.hostStr.isSome &&
        parsed.username.isEmpty && parsed.password.isNone && parsed.fragment.isNone

/-- Give every pair with a key the same value. -/
def rewriteValue (key value : Text) (pairs : Pairs) : Pairs :=
  pairs.map (fun p => if p.1 = key then (p.1, value) else p)

def hasKey (key : Text) (pairs : Pairs) : Bool := pairs.any (fun p => p.1 = key)

/-- Rewrite every value of a key, or append one where there is none. -/
def forceValue (key value : Text) (pairs : Pairs) : Pairs :=
  if hasKey key pairs then rewriteValue key value pairs else pairs ++ [(key, value)]

/-- The `resource` sent upstream is the configured audience, unless that is
not an absolute URI. -/
def applyDavResource (pairs : Pairs) (davAudience : Text) : Pairs :=
  if isAbsoluteHttpUri U davAudience then forceValue "resource".toList davAudience pairs else pairs

/-- What `authorize` checks before it draws a proxy state. -/
def checkAuthorize (st : OAuthProxyState) (pairs : Pairs) : Except Response (Text × Option Text) :=
  match firstValue pairs "redirect_uri".toList with
  | none => .error (.text 400 "missing redirect_uri\n")
  | some clientRedirectUri =>
    if !isAllowedRedirectUri U st.allowedRedirectUris clientRedirectUri then
      .error (.text 400 "unregistered redirect_uri\n")
    else
      let clientState := firstValue pairs "state".toList
      if clientState.any (fun state => byteLen state > MAX_CLIENT_STATE_BYTES) then
        .error (.text 400 "state is too large\n")
      else .ok (clientRedirectUri, clientState)

/-- The pairs sent upstream: our callback, our state, our resource, and all
else as the client sent it. -/
def authorizePairs (st : OAuthProxyState) (proxyState : Text) (pairs : Pairs) : Pairs :=
  applyDavResource U
    (forceValue "state".toList proxyState (rewriteValue "redirect_uri".toList st.callbackUrl pairs))
    st.davAudience

/-- `GET /authorize`. The clock is read when the entry is built and again by
the sweep. -/
def authorize (st : OAuthProxyState) (query : Option Text) (randomState : Text)
    (created now : Nat) (pending : PendingMap) : Response × PendingMap :=
  let pairs := U.formParse (query.getD [])
  match checkAuthorize U st pairs with
  | .error refusal => (refusal, pending)
  | .ok (clientRedirectUri, clientState) =>
    match insertPending now randomState ⟨clientRedirectUri, clientState, created⟩ pending with
    | (false, pending) => (.text 503 "too many pending authorizations; try again later\n", pending)
    | (true, pending) =>
      (.redirect (st.logtoBase ++ "/auth?".toList ++
        U.formSerialize (authorizePairs U st randomState pairs)), pending)

/-- The pairs that a callback adds to the client's redirect URI. -/
def callbackPairs (pairs : Pairs) (clientState : Option Text) : Pairs :=
  let forwarded (key : Text) := (lastValue pairs key).toList.map (fun value => (key, value))
  forwarded "code".toList ++ forwarded "error".toList ++ forwarded "error_description".toList ++
    clientState.toList.map (fun cs => ("state".toList, cs))

/-- `GET /oauth/callback`. -/
def callback (query : Option Text) (now : Nat) (pending : PendingMap) : Response × PendingMap :=
  let pairs := U.formParse (query.getD [])
  match lastValue pairs "state".toList with
  | none => (.text 400 "missing state\n", pending)
  | some state =>
    match takePending now state pending with
    | (none, pending) => (.text 400 "unknown or expired state\n", pending)
    | (some p, pending) =>
      match U.parse p.clientRedirectUri with
      | none => (.text 400 "bad client redirect_uri\n", pending)
      | some url =>
        (.redirect (U.appendPairs url (callbackPairs pairs p.clientState)).serialization, pending)

/-- The upstream reply to a token request. Its content type is there when the
header is visible ASCII, its body when it could be read. -/
structure UpstreamReply where
  status : Nat
  contentType : Option Text
  body : Option (List UInt8)

/-- The form that `token` posts upstream. -/
def tokenPairs (st : OAuthProxyState) (pairs : Pairs) : Except Response Pairs :=
  let isAuthorizationCode :=
    pairs.any (fun p => p.1 = "grant_type".toList && p.2 = "authorization_code".toList)
  if pairs.any (fun p => p.1 = "redirect_uri".toList &&
      !isAllowedRedirectUri U st.allowedRedirectUris p.2) then
    .error (.text 400 "unregistered redirect_uri\n")
  else if isAuthorizationCode && !hasKey "redirect_uri".toList pairs then
    .error (.text 400 "missing redirect_uri\n")
  else
    .ok (applyDavResource U (rewriteValue "redirect_uri".toList st.callbackUrl pairs)
      st.davAudience)

/-- `POST /token`, with the upstream endpoint as a function of the URL and
the form posted to it. -/
def token (st : OAuthProxyState) (body : Text) (post : Text → Text → Option UpstreamReply) :
    Response :=
  match tokenPairs U st (U.formParse body) with
  | .error refusal => refusal
  | .ok pairs =>
    match post (st.logtoBase ++ "/token".toList) (U.formSerialize pairs) with
    | some r =>
      .relayed r.status (r.contentType.getD "application/json".toList) (r.body.getD [])
    | none => .text 502 "token endpoint upstream error\n"

end CardDavMcp.OAuthProxy
