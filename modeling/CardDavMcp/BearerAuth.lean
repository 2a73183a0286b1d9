import CardDavMcp.ClientIp
import CardDavMcp.DavClient
import CardDavMcp.LogtoOidc

namespace CardDavMcp.BearerAuth

open Library.Utf8Text DavClient ClientIp
open LogtoOidc (AuthenticatedIdentity)

structure HttpRequest where
  path : Text
  /-- The field lines in order; names are in lower case. -/
  headers : List (Text × Bytes)

namespace HttpRequest

/-- All field lines of one name. -/
def getAll (request : HttpRequest) (name : Text) : List Bytes :=
  (request.headers.filter (·.1 = name)).map Prod.snd

/-- The first field line of a name, as `HeaderMap` looks it up. -/
def get (request : HttpRequest) (name : Text) : Option Bytes := (request.getAll name).head?

end HttpRequest

structure Response where
  status : Nat
  headers : List (Text × Text)
  body : Text
deriving DecidableEq, Repr

def wwwAuthenticateHeader (resourceUrl : Text) : Text :=
  "Bearer resource_metadata=\"".toList ++ resourceUrl ++
    "/.well-known/oauth-protected-resource/mcp\"".toList

/-- The configuration that the middleware reads, and what it takes from other
crates. -/
structure AuthState (Ip : Type) where
  resourceUrl : Text
  trustedProxyHops : Nat
  tokenHash : Text → Text
  parseIp : Text → Option Ip
  isHeaderValue : Text → Bool

/-- What is logged and recorded of an accepted request. -/
structure Recording (Ip : Type) where
  xffEntries : Nat
  trustedProxyHops : Nat
  clientIpResolved : Bool
  tokenHash : Text
  clientIp : Option Ip
deriving DecidableEq, Repr

inductive Outcome (Ip : Type)
  | refused (response : Response)
  | accepted (recording : Option (Recording Ip)) (identity : AuthenticatedIdentity) (token : Text)
deriving DecidableEq, Repr

def extractBearer (header : Option Bytes) : Option Text := do
  let raw ← header >>= headerToStr
  let (scheme, value) ← splitOnce ' ' (trim raw)
  if scheme ≠ "Bearer".toList then none
  else
    let token := trim value
    if token.isEmpty then none else some token

variable {Ip : Type}

namespace AuthState

variable (state : AuthState Ip)

def unauthorized : Response where
  status := 401
  headers :=
    let value := wwwAuthenticateHeader state.resourceUrl
    [("www-authenticate".toList, if state.isHeaderValue value then value else "Bearer".toList)]
  body := "unauthorized\n".toList

def internalError : Response where
  status := 500
  headers := []
  body := "token validation upstream error\n".toList

def recordingOf (request : HttpRequest) (token : Text) : Recording Ip :=
  let xff := request.get "x-forwarded-for".toList >>= headerToStr
  let clientIp := parseClientIp state.parseIp xff state.trustedProxyHops
  { xffEntries := xffEntryCount xff
    trustedProxyHops := state.trustedProxyHops
    clientIpResolved := clientIp.isSome
    tokenHash := state.tokenHash token
    clientIp }

/-- The middleware, given what the validation of a token answers. -/
def bearerAuth (validateToken : Text → Except String (Option AuthenticatedIdentity))
    (request : HttpRequest) : Outcome Ip :=
  match extractBearer (request.get "authorization".toList) with
  | none => .refused state.unauthorized
  | some token =>
    let isIntrospectPath := request.path = "/token/introspect".toList
    match validateToken token with
    | .ok (some identity) =>
      .accepted (if isIntrospectPath then none else some (state.recordingOf request token)) identity
        token
    | .ok none => .refused state.unauthorized
    | .error _ => .refused internalError

end AuthState

/-- Field lines of one name as a single one. -/
def joined (lines : List Bytes) : Bytes := [','.toUInt8].intercalate lines

/-- What is recorded and logged is what the chain says that all lines make up
together. -/
structure ReadsChain (state : AuthState Ip) (lines : List Bytes)
    (recording : Recording Ip) : Prop where
  address : recording.clientIp =
    parseClientIp state.parseIp (headerToStr (joined lines)) state.trustedProxyHops
  count : recording.xffEntries = xffEntryCount (headerToStr (joined lines))

theorem recorded_of_accepted {state : AuthState Ip}
    {validateToken : Text → Except String (Option AuthenticatedIdentity)} {request : HttpRequest}
    {recording : Option (Recording Ip)} {identity : AuthenticatedIdentity} {token : Text}
    (h : state.bearerAuth validateToken request = .accepted recording identity token)
    (hpath : request.path ≠ "/token/introspect".toList) :
    recording = some (state.recordingOf request token) := by
  rw [AuthState.bearerAuth] at h
  split at h
  · exact absurd h (by simp)
  · dsimp only at h
    split at h
    · rw [if_neg hpath] at h
      injection h with hrecording hidentity htoken
      rw [← hrecording, htoken]
    · exact absurd h (by simp)
    · exact absurd h (by simp)

theorem headerToStr_append (a b : Bytes) : headerToStr (a ++ b) = do
    let s ← headerToStr a
    let t ← headerToStr b
    return s ++ t := by
  rw [headerToStr, headerToStr, headerToStr]
  by_cases ha : a.all (fun b => (32 ≤ b && b < 127) || b = 9)
  · by_cases hb : b.all (fun b => (32 ≤ b && b < 127) || b = 9)
    · rw [List.all_append, ha, hb]
      simp
    · rw [List.all_append, if_neg (by simp [hb]), if_neg hb]
      simp
  · rw [List.all_append, if_neg (by simp [ha]), if_neg ha]
    rfl

theorem headerToStr_joined (first second : Bytes) (later : List Bytes) :
    headerToStr (joined (first :: second :: later)) = do
      let s ← headerToStr first
      let t ← headerToStr (joined (second :: later))
      return s ++ ',' :: t := by
  have hcomma : headerToStr [','.toUInt8] = some [','] := by decide
  rw [joined, List.intercalate_cons_cons, ← joined, List.append_assoc, headerToStr_append,
    headerToStr_append [','.toUInt8], hcomma]
  cases headerToStr first with
  | none => rfl
  | some s => cases headerToStr (joined (second :: later)) <;> rfl

/-- The count of the first line alone is never that of the whole chain. -/
theorem xffEntryCount_ne_joined {first second : Bytes} {later : List Bytes} {s : Text}
    (hfirst : headerToStr first = some s) :
    xffEntryCount (some s) ≠
      xffEntryCount (headerToStr (joined (first :: second :: later))) := by
  have hs := xffEntryCount_pos s
  rw [headerToStr_joined, hfirst]
  cases headerToStr (joined (second :: later)) with
  | none => exact hs.ne'
  | some t =>
    have ht := xffEntryCount_pos t
    have hsum := xffEntryCount_append s t
    simp only [Option.bind_eq_bind, Option.bind_some, Option.pure_def]
    omega

/-- Only a single line, or a first line that is no text, is recorded as the
chain that the lines make up. -/
theorem reads_chain_iff {state : AuthState Ip}
    {validateToken : Text → Except String (Option AuthenticatedIdentity)} {request : HttpRequest}
    {recording : Option (Recording Ip)} {identity : AuthenticatedIdentity} {token : Text}
    (h : state.bearerAuth validateToken request = .accepted recording identity token)
    (hpath : request.path ≠ "/token/introspect".toList) {first : Bytes} {later : List Bytes}
    (hlines : request.getAll "x-forwarded-for".toList = first :: later) :
    ∃ r, recording = some r ∧
      (ReadsChain state (first :: later) r ↔ later = [] ∨ headerToStr first = none) := by
  refine ⟨_, recorded_of_accepted h hpath, ?_⟩
  have hget : request.get "x-forwarded-for".toList = some first := by
    rw [HttpRequest.get, hlines, List.head?_cons]
  have hip : (state.recordingOf request token).clientIp =
      parseClientIp state.parseIp (headerToStr first) state.trustedProxyHops := by
    rw [AuthState.recordingOf, hget]
    rfl
  have hcount : (state.recordingOf request token).xffEntries =
      xffEntryCount (headerToStr first) := by
    rw [AuthState.recordingOf, hget]
    rfl
  cases later with
  | nil =>
    have hone : joined [first] = first := List.intercalate_singleton
    simp only [true_or, iff_true]
    exact ⟨by rw [hip, hone], by rw [hcount, hone]⟩
  | cons second later =>
    cases hfirst : headerToStr first with
    | none =>
      have hjoined := headerToStr_joined first second later
      rw [hfirst, Option.bind_eq_bind, Option.bind_none] at hjoined
      simp only [or_true, iff_true]
      exact ⟨by rw [hip, hfirst, hjoined], by rw [hcount, hfirst, hjoined]⟩
    | some s =>
      simp only [reduceCtorEq, or_self, iff_false]
      intro hreads
      exact xffEntryCount_ne_joined hfirst (by rw [← hfirst, ← hcount, hreads.count])

def sampleState : AuthState (List Nat) where
  resourceUrl := "https://dav.example".toList
  trustedProxyHops := 1
  tokenHash token := token
  parseIp := parseIpv4
  isHeaderValue _ := true

def sampleIdentity : AuthenticatedIdentity := ⟨"user".toList, none, none, none⟩

def asciiLine (line : String) : Bytes := line.toList.map Char.toUInt8

def forwardedRequest (lines : List String) : HttpRequest where
  path := "/mcp".toList
  headers := ("authorization".toList, asciiLine "Bearer t") ::
    lines.map fun line => ("x-forwarded-for".toList, asciiLine line)

def sampleRecording (entries : Nat) (ip : List Nat) : Recording (List Nat) :=
  ⟨entries, 1, true, "t".toList, some ip⟩

def acceptAll (_ : Text) : Except String (Option AuthenticatedIdentity) := .ok (some sampleIdentity)

theorem reads_chain_single :
    ReadsChain sampleState [asciiLine "198.51.100.7, 10.0.0.1"]
      (sampleRecording 2 [10, 0, 0, 1]) := by
  have haccepted : sampleState.bearerAuth acceptAll (forwardedRequest ["198.51.100.7, 10.0.0.1"]) =
      .accepted (some (sampleRecording 2 [10, 0, 0, 1])) sampleIdentity "t".toList := by
    decide +kernel
  have hlines : (forwardedRequest ["198.51.100.7, 10.0.0.1"]).getAll "x-forwarded-for".toList =
      [asciiLine "198.51.100.7, 10.0.0.1"] := by
    decide +kernel
  obtain ⟨r, hr, hiff⟩ := reads_chain_iff haccepted (by decide +kernel) hlines
  exact Option.some.inj hr ▸ hiff.mpr (Or.inl rfl)

/-- Behind one proxy that writes a line of its own, what the client has sent is
recorded as its address. -/
theorem client_line_recorded :
    sampleState.bearerAuth acceptAll (forwardedRequest ["1.2.3.4", "198.51.100.7"]) =
        .accepted (some (sampleRecording 1 [1, 2, 3, 4])) sampleIdentity "t".toList ∧
      parseClientIp parseIpv4
          (headerToStr (joined [asciiLine "1.2.3.4", asciiLine "198.51.100.7"])) 1 =
        some [198, 51, 100, 7] ∧
      xffEntryCount (headerToStr (joined [asciiLine "1.2.3.4", asciiLine "198.51.100.7"])) = 2 ∧
      ¬ ReadsChain sampleState [asciiLine "1.2.3.4", asciiLine "198.51.100.7"]
        (sampleRecording 1 [1, 2, 3, 4]) := by
  refine ⟨by decide +kernel, by decide +kernel, by decide +kernel, ?_⟩
  rintro ⟨-, hcount⟩
  revert hcount
  decide +kernel

end CardDavMcp.BearerAuth
