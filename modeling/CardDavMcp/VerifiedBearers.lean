import CardDavMcp.ServerWorld

namespace CardDavMcp.VerifiedBearers

open Library.Utf8Text Library.Table Library.Interaction Library.Runs
open DavClient (DavRequest)
open LogtoOidc (AuthenticatedIdentity LogtoAccessTokenClaims LogtoValidationClient identityOf
  allowedAlgorithm MAX_CACHE_TTL)
open ValidationCache (cacheLookup_eq_some alive_bounds)
open UpcomingBirthdays McpRoutes RequestDiscipline ServedRequests ServerWorld

/-- The claims that a token was found to make: the issuer has a key for it, the
library decoded it with that key, and it is for one of the audiences. -/
structure Decoded (c : LogtoValidationClient) (token : Text)
    (tr : Trace LogtoOidc.Effect LogtoOidc.Reply) (claims : LogtoAccessTokenClaims) : Prop where
  decoded : ∃ header kid decodingKey, c.decodeHeader token = some header ∧
    header.kid = some kid ∧ allowedAlgorithm header.alg ∧
    ⟨.decodingKeyFor kid, .ok (some decodingKey)⟩ ∈ tr ∧
    ⟨.decode token decodingKey (c.validation header.alg), some claims⟩ ∈ tr
  audience : c.expectedAudiences.any (fun expected => claims.aud.isMatch expected)

section Validation

variable {c : LogtoValidationClient} {token : Text} {tr : Trace LogtoOidc.Effect LogtoOidc.Reply}
  {key : LogtoOidc.Key} {identity : AuthenticatedIdentity} {exp : Option Int}

/-- A validation stores only what it has decoded. -/
def validation (c : LogtoValidationClient) (token : Text) :
    Contract LogtoOidc.Effect LogtoOidc.Reply where
  guar tr e := match e with
    | .cacheInsert key identity exp => ∃ claims, Decoded c token tr claims ∧
        key = c.hashToken token ∧ identity = identityOf claims ∧ exp = some claims.exp
    | .cacheLookup _ | .decodingKeyFor _ | .decode _ _ _ | .cacheRemove _ => True
  rely _ _ := True

/-- A token is valid because the cache says so, or because it was decoded and
stored. -/
def Validated (c : LogtoValidationClient) (token : Text)
    (tr : Trace LogtoOidc.Effect LogtoOidc.Reply) :
    Except LogtoOidc.ValidationError (Option AuthenticatedIdentity) → Prop
  | .ok (some identity) => ⟨.cacheLookup (c.hashToken token), some identity⟩ ∈ tr ∨
      ∃ exp, ⟨.cacheInsert (c.hashToken token) identity exp, ()⟩ ∈ tr
  | .ok none | .error _ => True

theorem always_validateToken (c : LogtoValidationClient) (token : Text) :
    Always (validation c token) (Validated c token) [] (c.validateToken token) := by
  refine ⟨trivial, fun hit _ => ?_⟩
  cases hit with
  | some hit => exact .inl (by simp)
  | none =>
    simp only [bind, Prog.bind]
    cases hheader : c.decodeHeader token with
    | none => exact trivial
    | some header =>
      obtain ⟨alg, kid⟩ := header
      cases kid with
      | none => exact trivial
      | some kid =>
        refine ⟨trivial, fun found _ => ?_⟩
        obtain e | found := found
        · exact trivial
        obtain _ | decodingKey := found
        · exact trivial
        simp only [Prog.bind]
        split_ifs with halg
        · exact trivial
        refine ⟨trivial, fun decoded _ => ?_⟩
        obtain _ | claims := decoded
        · exact trivial
        simp only [Prog.bind]
        split_ifs with haud
        · exact trivial
        have hdecoded : Decoded c token ([] ++ [⟨.cacheLookup (c.hashToken token), none⟩] ++
            [⟨.decodingKeyFor kid, .ok (some decodingKey)⟩] ++
            [⟨.decode token decodingKey (c.validation alg), some claims⟩]) claims :=
          ⟨⟨_, kid, decodingKey, hheader, rfl, by simpa using halg, by simp, by simp⟩,
            by simpa using haud⟩
        exact ⟨⟨claims, hdecoded, rfl, rfl, rfl⟩, fun _ _ => .inr ⟨some claims.exp, by simp⟩⟩

end Validation

section Run

variable {W 𝕜 ι Ip : Type} [DecidableEq ι] {server : Server Ip} {chrono : ι → Chrono}
  {requests : ι → Request} {token : Text} {i : ι}

/-- A request stores what its bearer was found to claim. The key is all that the
cache knows of the bearer. -/
structure Verification (server : Server Ip) (requests : ι → Request)
    (before : List (Act W ι (Effect Ip) Reply)) (ins : Act W ι (Effect Ip) Reply)
    (key : LogtoOidc.Key) (claims : LogtoAccessTokenClaims) : Prop where
  stored : ins.effect = .oidc (.cacheInsert key (identityOf claims) (some claims.exp))
  decoded : ∃ token, bearerOf (requests ins.call) = some token ∧
    server.logto.hashToken token = key ∧
    Decoded server.logto token (oidcPart (traceOf ins.call before)) claims

/-- Whatever is inserted was decoded. -/
theorem verification_of_insert {a b : List (Act W ι (Effect Ip) Reply)}
    {ins : Act W ι (Effect Ip) Reply} {s : W × (ι → Prog (Effect Ip) Reply (Answer Ip))}
    {key : LogtoOidc.Key} {identity : AuthenticatedIdentity}
    {exp : Option Int} (h : Disciplined server requests (a ++ ins :: b) s)
    (he : ins.effect = .oidc (.cacheInsert key identity exp)) :
    ∃ claims, identity = identityOf claims ∧ exp = some claims.exp ∧
      Verification server requests a ins key claims := by
  have hguar := guar_of h
  rw [he] at hguar
  obtain ⟨-, token, k, hb, hleads⟩ := hguar
  have hpromise := always_of_leads (fun _ _ => trivial)
    (always_validateToken server.logto token) hleads
  obtain ⟨claims, hdecoded, rfl, rfl, rfl⟩ := hpromise.1
  exact ⟨claims, rfl, rfl, he, token, hb, rfl, hdecoded⟩

/-- Who is authenticated stays who it is. -/
theorem authenticated_same {a b : List (Act W ι (Effect Ip) Reply)} {token' : Text}
    {identity identity' : AuthenticatedIdentity}
    (h : Authenticated server (requests i) (traceOf i a) token identity)
    (h' : Authenticated server (requests i) (traceOf i (a ++ b)) token' identity') :
    token' = token ∧ identity' = identity := by
  obtain rfl : token = token' := Option.some.inj (h.bearer.symm.trans h'.bearer)
  have hvalid := h'.valid
  rw [traceOf_append, oidcPart, List.filterMap_append] at hvalid
  obtain ⟨-, heq⟩ := h.valid.of_append hvalid
  cases heq
  exact ⟨rfl, rfl⟩

/-- A call of a tool has been charged to the one whose bearer it is. -/
theorem charged_of_phase {log : List (Act W ι (Effect Ip) Reply)}
    {s : W × (ι → Prog (Effect Ip) Reply (Answer Ip))} {identity : AuthenticatedIdentity}
    (h : Disciplined server requests log s)
    (hauth : Authenticated server (requests i) (traceOf i log) token identity)
    (hphase : CallDiscipline.phaseOf (toolPart (traceOf i log)) = .live) :
    ∃ charge ∈ log, charge.call = i ∧ ∃ category, charge.event =
      ⟨.tool (.rateLimitCheck (server.service.tokenHash token) (some identity.userId) category),
        .ok ()⟩ := by
  obtain ⟨hash, sub, category, hmem⟩ := CallDiscipline.charged_of_phase (.inl hphase)
  obtain ⟨charge, hcharge, rfl, hevent⟩ := exists_of_traceOf (mem_toolPart.mp hmem)
  obtain ⟨a, b, rfl⟩ := List.append_of_mem hcharge
  have hguar := guar_of h
  rw [show charge.effect = _ from (congrArg Sigma.fst hevent).symm] at hguar
  obtain ⟨token', identity', tool, hpassed, -, -, _, _, ⟨⟩, ⟨⟩, hown⟩ := hguar
  obtain ⟨rfl, rfl⟩ := authenticated_same hpassed.toAuthenticated hauth
  cases hown
  exact ⟨charge, hcharge, rfl, _, hevent.symm⟩

section World

variable [Field 𝕜] [LinearOrder 𝕜] [IsStrictOrderedRing 𝕜] [FloorRing 𝕜] {start : World 𝕜 Ip}
  {a b log : List (Act (World 𝕜 Ip) ι (Effect Ip) Reply)}
  {ev : Act (World 𝕜 Ip) ι (Effect Ip) Reply}
  {s : World 𝕜 Ip × (ι → Prog (Effect Ip) Reply (Answer Ip))}

/-- Someone verified the bearer of a request: the request itself, or one whose
verification was not too old and not undone when the request looked it up, at
most a second after the expiry. -/
def Vouched (server : Server Ip) (requests : ι → Request)
    (log : List (Act (World 𝕜 Ip) ι (Effect Ip) Reply)) (i : ι) (token : Text)
    (claims : LogtoAccessTokenClaims) : Prop :=
  ∃ a ins b, log = a ++ ins :: b ∧
    Verification server requests a ins (server.logto.hashToken token) claims ∧
    (ins.call = i ∨ ∃ between look rest, b = between ++ look :: rest ∧ look.call = i ∧
      look.event = ⟨.oidc (.cacheLookup (server.logto.hashToken token)),
        some (identityOf claims)⟩ ∧
      (∀ x ∈ between, ¬ Touches server (server.logto.hashToken token) x.effect) ∧
      look.after.now < ins.after.now + (MAX_CACHE_TTL : 𝕜) ∧
      look.after.now < (claims.exp : 𝕜) + 1)

theorem vouched_of_authenticated (hempty : start.validations = ∅)
    (h : Run (poolStep (Answers server)) (start, pool server chrono requests) log s)
    {identity : AuthenticatedIdentity}
    (hauth : Authenticated server (requests i) (traceOf i log) token identity) :
    ∃ claims, identity = identityOf claims ∧ Vouched server requests log i token claims := by
  have hsound := disciplined h
  have hvalid := always_of_leads (fun _ _ => trivial)
    (always_validateToken server.logto token) (leads_of_executes hauth.valid)
  obtain hlook | ⟨exp, hins⟩ := hvalid
  · obtain ⟨look, hmem, rfl, hevent⟩ := exists_of_traceOf (mem_oidcPart.mp hlook)
    obtain ⟨before, rest, rfl⟩ := List.append_of_mem hmem
    obtain ⟨call, effect, reply, w, w'⟩ := look
    obtain ⟨rfl, hreply⟩ := Sigma.mk.inj hevent
    obtain rfl := eq_of_heq hreply
    obtain ⟨t, t', hbefore, ⟨rfl, rfl, hw, -⟩, -⟩ := h.split
    obtain ⟨hlooked, hlater⟩ := hw.looked_up
    obtain ⟨entry, hentry, halive, rfl⟩ := cacheLookup_eq_some hlooked.symm
    obtain ⟨a, ins, between, identity, exp, rfl, he, rfl, hle, hbetween⟩ :=
      inserted_of_run hempty hbefore hentry
    rw [List.append_assoc, List.cons_append] at hsound
    obtain ⟨claims, rfl, rfl, hver⟩ := verification_of_insert hsound he
    obtain ⟨hminute, hexp, -⟩ := alive_bounds claims.exp (hle.trans hlater) halive
    have hyoung : t'.1.now < ins.after.now + (MAX_CACHE_TTL : 𝕜) := by
      rwa [MAX_CACHE_TTL, Nat.cast_ofNat]
    exact ⟨claims, rfl, a, ins, _, by simp, hver,
      .inr ⟨between, _, rest, rfl, rfl, rfl, hbetween, hyoung, hexp⟩⟩
  · obtain ⟨ins, hmem, rfl, hevent⟩ := exists_of_traceOf (mem_oidcPart.mp hins)
    obtain ⟨a, b, rfl⟩ := List.append_of_mem hmem
    obtain ⟨claims, rfl, -, hver⟩ := verification_of_insert hsound (congrArg Sigma.fst hevent).symm
    exact ⟨claims, rfl, a, ins, b, rfl, hver, .inl rfl⟩

/-- What stands behind a request to the server of the cards. -/
structure Served (server : Server Ip) (requests : ι → Request)
    (before : List (Act (World 𝕜 Ip) ι (Effect Ip) Reply)) (i : ι) (request : DavRequest)
    (token : Text) (claims : LogtoAccessTokenClaims) : Prop where
  bearer : bearerOf (requests i) = some token
  vouched : Vouched server requests before i token claims
  session : isFreshMcpSessionRequest (requests i) → ∃ charge ∈ before, charge.call = i ∧
    charge.event = ⟨.initializeCheck (server.auth.tokenHash token) (some claims.sub), .ok ()⟩
  charged : ∃ charge ∈ before, charge.call = i ∧ ∃ category, charge.event =
    ⟨.tool (.rateLimitCheck (server.service.tokenHash token) (some claims.sub) category), .ok ()⟩
  bears : CallDiscipline.Bears token request

/-- Whatever the interleaving, a request reaches the server of the cards only
with a bearer that was verified, for the one who is charged. -/
theorem served_bearer_verified (hempty : start.validations = ∅)
    (h : Run (poolStep (Answers server)) (start, pool server chrono requests) (a ++ ev :: b) s)
    {request : DavRequest} (hev : ev.effect = .tool (.send request)) :
    ∃ token claims, Served server requests a ev.call request token claims := by
  obtain ⟨t, -, hbefore, -⟩ := h.split
  have hguar := guar_of (disciplined h)
  rw [hev] at hguar
  obtain ⟨token, identity, tool, hpassed, -, hphase, -, token', htoken, hbears⟩ := hguar
  cases htoken
  obtain ⟨claims, rfl, hvouched⟩ := vouched_of_authenticated hempty hbefore hpassed.toAuthenticated
  refine ⟨token, claims, hpassed.bearer, hvouched, fun hfresh => ?_, ?_, hbears⟩
  · obtain ⟨charge, hcharge, hcall, hevent⟩ := exists_of_traceOf (hpassed.charged hfresh)
    exact ⟨charge, hcharge, hcall, hevent.symm⟩
  · exact charged_of_phase (disciplined hbefore) hpassed.toAuthenticated hphase

end World

end Run

/-- An issuer that finds every bearer to make the same claims, with room in the
limiters. Every message calls a tool. -/
def sampleServer (w : World ℚ (List Nat)) : (e : Effect (List Nat)) → Reply e × World ℚ (List Nat)
  | .oidc (.cacheLookup key) => (LogtoOidc.cacheLookup w.now key w.validations, w)
  | .oidc (.decodingKeyFor _) => (.ok (some ⟨[1]⟩), w)
  | .oidc (.decode _ _ _) => (some ValidationCache.sampleClaims, w)
  | .oidc (.cacheInsert key identity exp) => ((),
      { w with
        validations := LogtoOidc.cacheInsert .asStored w.now key identity exp w.validations })
  | .oidc (.cacheRemove key) => ((), { w with validations := w.validations.erase key })
  | .record tokenHash ip => ((),
      { w with lastUsed := LastUsed.record .asStored 0 tokenHash ip w.lastUsed })
  | .lastUsed tokenHash => (LastUsed.get tokenHash w.lastUsed, w)
  | .initializeCheck _ _ => (.ok (), w)
  | .mcp _ => (.call .whoami, w)
  | .tool (.dropToken token) => ((),
      { w with validations := w.validations.erase (plainServer.logto.hashToken token) })
  | .tool e => (ReadTools.sampleReply e, w)

theorem answers_sampleServer (w : World ℚ (List Nat)) (e : Effect (List Nat)) :
    Answers plainServer w e (sampleServer w e).1 (sampleServer w e).2 := by
  cases e with
  | oidc e =>
    cases e with
    | cacheLookup key => exact .oidc (.lookup key le_rfl)
    | decodingKeyFor kid => exact .oidc (.decodingKey kid _ le_rfl)
    | decode token key v => exact .oidc (.decode token key v _ le_rfl)
    | cacheInsert key identity exp => exact .oidc (.insert .asStored key identity exp le_rfl)
    | cacheRemove key => exact .oidc (.remove key le_rfl)
  | record tokenHash ip => exact .record .asStored 0 tokenHash ip
  | lastUsed tokenHash => exact .lastUsed tokenHash
  | initializeCheck bearerHash sub => exact .initializeCheck bearerHash sub _
  | mcp request => exact .mcp request _
  | tool e =>
    cases e with
    | dropToken token => exact .dropToken token le_rfl
    | _ => exact .tool _ _ (by simp)

def sampleStart : World ℚ (List Nat) := ⟨∅, 0, ∅⟩

def samplePlay :
    List (Act (World ℚ (List Nat)) Unit (Effect (List Nat)) Reply) × World ℚ (List Nat) ×
      Answer (List Nat) :=
  playedAlone sampleServer () sampleStart (samplePool ())

def isSend : Effect (List Nat) → Bool
  | .tool (.send _) => true
  | _ => false

theorem exists_send {e : Effect (List Nat)} (h : isSend e) :
    ∃ request, e = .tool (.send request) := by
  cases e with
  | tool e =>
    cases e with
    | send request => exact ⟨request, rfl⟩
    | _ => cases h
  | _ => cases h

theorem served_bearer_verified_sample : ∃ a ev b request token claims,
    samplePlay.1 = a ++ ev :: b ∧ ev.effect = .tool (.send request) ∧
    Served plainServer (fun _ => sampleRequest) a ev.call request token claims := by
  have hsends : samplePlay.1.any (fun ev => isSend ev.effect) := rfl
  obtain ⟨ev, hmem, hsend⟩ := List.any_eq_true.mp hsends
  obtain ⟨request, he⟩ := exists_send hsend
  obtain ⟨a, b, hlog⟩ := List.append_of_mem hmem
  have hrun := run_playedAlone answers_sampleServer () sampleStart samplePool
  rw [show (playedAlone sampleServer () sampleStart (samplePool ())).1 = a ++ ev :: b from hlog]
    at hrun
  obtain ⟨token, claims, hserved⟩ := served_bearer_verified rfl hrun he
  exact ⟨a, ev, b, request, token, claims, hlog, he, hserved⟩

end CardDavMcp.VerifiedBearers
