import CardDavMcp.RequestDiscipline
import CardDavMcp.ValidationCache

namespace CardDavMcp.ServedRequests

open Library.Utf8Text Library.Interaction Library.Runs BearerAuth UpcomingBirthdays McpRoutes
  RequestDiscipline
open LogtoOidc (AuthenticatedIdentity ValidationError)

section Pool

variable {W ι Ip : Type} [DecidableEq ι] {server : Server Ip} {chrono : ι → Chrono}
  {requests : ι → Request} {world : W → (e : Effect Ip) → Reply e → W → Prop} {start : W}
  {log a b : List (Act W ι (Effect Ip) Reply)} {ev : Act W ι (Effect Ip) Reply} {i : ι}
  {s : W × (ι → Prog (Effect Ip) Reply (Answer Ip))}

/-- The requests at the start. -/
def pool (server : Server Ip) (chrono : ι → Chrono) (requests : ι → Request) :
    ι → Prog (Effect Ip) Reply (Answer Ip) :=
  fun i => serve server (chrono i) (requests i)

abbrev Disciplined (server : Server Ip) (requests : ι → Request)
    (log : List (Act W ι (Effect Ip) Reply))
    (s : W × (ι → Prog (Effect Ip) Reply (Answer Ip))) : Prop :=
  Sound (fun i => contract server (requests i)) (fun i => Ends server (requests i)) (fun _ => True)
    log s

theorem disciplined (h : Run (poolStep world) (start, pool server chrono requests) log s) :
    Disciplined server requests log s :=
  pool_sound (fun _ _ _ _ _ _ _ _ _ => ⟨trivial, trivial⟩) trivial
    (fun i => always_serve (chrono i) server (requests i)) h

theorem guar_of (h : Disciplined server requests (a ++ ev :: b) s) :
    (contract server (requests ev.call)).guar (traceOf ev.call a) ev.effect := (h.acts a ev b rfl).1

/-- A charge for a fresh session. -/
def Charges (ev : Act W ι (Effect Ip) Reply) : Prop :=
  ∃ hash sub, ev.effect = .initializeCheck hash sub

/-- A request is charged at most once. -/
theorem charge_unique (h : Disciplined server requests (a ++ ev :: b) s) (hev : Charges ev) :
    ∀ x ∈ a, x.call = ev.call → ¬ Charges x := by
  rintro x hx hcall ⟨hash', sub', hx'⟩
  obtain ⟨hash, sub, he⟩ := hev
  have hguar := guar_of h
  rw [he] at hguar
  obtain ⟨⟨-, hnone⟩, -⟩ := hguar
  have hmem := mem_traceOf hx
  rw [hcall] at hmem
  obtain ⟨call, effect, reply, before, after⟩ := x
  obtain rfl : effect = .initializeCheck hash' sub' := hx'
  exact hnone hash' sub' reply hmem

/-- What a request does beyond the validation of its bearer. -/
def Beyond : Effect Ip → Prop
  | .oidc _ => False
  | .record _ _ | .lastUsed _ | .initializeCheck _ _ | .mcp _ | .tool _ => True

/-- What is there for the sessions that are charged for. -/
def Serves : Effect Ip → Prop
  | .oidc _ | .record _ _ | .initializeCheck _ _ => False
  | .lastUsed _ | .mcp _ | .tool _ => True

/-- What a request does beyond the validation of its bearer comes after it, for
the one whose bearer it is, and it is charged for if it opens a session. -/
structure Gated (server : Server Ip) (requests : ι → Request)
    (before : List (Act W ι (Effect Ip) Reply)) (ev : Act W ι (Effect Ip) Reply) (token : Text)
    (identity : AuthenticatedIdentity) : Prop where
  authenticated : Authenticated server (requests ev.call) (traceOf ev.call before) token identity
  charged : isFreshMcpSessionRequest (requests ev.call) → Serves ev.effect →
    ∃ charge ∈ before, charge.call = ev.call ∧ charge.event =
      ⟨.initializeCheck (server.auth.tokenHash token) (some identity.userId), .ok ()⟩
  /-- No other request is charged, and none is charged twice. -/
  once : ∀ hash sub, ev.effect = .initializeCheck hash sub →
    isFreshMcpSessionRequest (requests ev.call) ∧ hash = server.auth.tokenHash token ∧
      sub = some identity.userId ∧ ∀ x ∈ before, x.call = ev.call → ¬ Charges x

theorem gated_of_passed {token : Text} {identity : AuthenticatedIdentity}
    (h : Passed server (requests ev.call) (traceOf ev.call a) token identity)
    (hev : Serves ev.effect) : Gated server requests a ev token identity where
  authenticated := h.toAuthenticated
  charged hfresh _ := by
    obtain ⟨charge, hcharge, hcall, hevent⟩ := exists_of_traceOf (h.charged hfresh)
    exact ⟨charge, hcharge, hcall, hevent.symm⟩
  once hash sub he := by
    rw [he] at hev
    exact hev.elim

theorem passed_of_serves (h : Disciplined server requests (a ++ ev :: b) s)
    (hev : Serves ev.effect) : ∃ token identity,
      Passed server (requests ev.call) (traceOf ev.call a) token identity := by
  have hguar := guar_of h
  cases he : ev.effect with
  | oidc | record | initializeCheck =>
    rw [he] at hev
    exact hev.elim
  | lastUsed | mcp =>
    rw [he] at hguar
    obtain ⟨-, token, identity, hpassed, -⟩ := hguar
    exact ⟨token, identity, hpassed⟩
  | tool =>
    rw [he] at hguar
    obtain ⟨token, identity, _, hpassed, -⟩ := hguar
    exact ⟨token, identity, hpassed⟩

/-- Whatever the interleaving, only what was authenticated gets past the
validation. -/
theorem requests_gated
    (h : Run (poolStep world) (start, pool server chrono requests) (a ++ ev :: b) s)
    (hev : Beyond ev.effect) : ∃ token identity, Gated server requests a ev token identity := by
  have hguar := guar_of (disciplined h)
  cases he : ev.effect with
  | oidc e =>
    rw [he] at hev
    exact hev.elim
  | record hash ip =>
    rw [he] at hguar
    obtain ⟨-, -, token, identity, hauth, -⟩ := hguar
    refine ⟨token, identity, hauth, fun _ hserves => ?_, fun _ _ hcheck => ?_⟩
    · rw [he] at hserves
      exact hserves.elim
    · rw [he] at hcheck
      cases hcheck
  | initializeCheck hash sub =>
    rw [he] at hguar
    obtain ⟨-, hfresh, token, identity, hauth, rfl, rfl⟩ := hguar
    refine ⟨token, identity, hauth, fun _ hserves => ?_, fun _ _ hcheck => ?_⟩
    · rw [he] at hserves
      exact hserves.elim
    · rw [he] at hcheck
      cases hcheck
      exact ⟨hfresh, rfl, rfl, charge_unique (disciplined h) ⟨_, _, he⟩⟩
  | lastUsed | mcp | tool =>
    have hserves : Serves ev.effect := by
      rw [he]
      trivial
    obtain ⟨token, identity, hpassed⟩ := passed_of_serves (disciplined h) hserves
    exact ⟨token, identity, gated_of_passed hpassed hserves⟩

theorem charge_same {x y : Act W ι (Effect Ip) Reply} (h : Disciplined server requests log s)
    (hx : x ∈ log) (hy : y ∈ log) (hcall : x.call = y.call) (hcx : Charges x) (hcy : Charges y) :
    x = y := by
  obtain ⟨a, b, rfl⟩ := List.append_of_mem hx
  rw [List.mem_append, List.mem_cons] at hy
  obtain hy | rfl | hy := hy
  · exact absurd hcy (charge_unique h hcx y hy hcall.symm)
  · rfl
  · obtain ⟨b₁, b₂, rfl⟩ := List.append_of_mem hy
    rw [← List.cons_append, ← List.append_assoc] at h
    exact absurd hcx (charge_unique h hcy x (by simp) hcall)

/-- The limiter refused a charge of the request. -/
def Limited (log : List (Act W ι (Effect Ip) Reply)) (i : ι) : Prop :=
  ∃ hash sub e, ⟨.initializeCheck hash sub, .error e⟩ ∈ traceOf i log

/-- A request that was passed on was not refused by the limiter. -/
theorem not_limited {token : Text} {identity : AuthenticatedIdentity}
    (h : Disciplined server requests log s)
    (hpassed : Passed server (requests i) (traceOf i log) token identity) : ¬ Limited log i := by
  rintro ⟨hash, sub, e, hmem⟩
  obtain ⟨x, hx, rfl, hevent⟩ := exists_of_traceOf hmem
  have hfresh : isFreshMcpSessionRequest (requests x.call) := by
    obtain ⟨a, b, rfl⟩ := List.append_of_mem hx
    have hguar := guar_of h
    rw [show x.effect = .initializeCheck hash sub from (congrArg Sigma.fst hevent).symm] at hguar
    exact hguar.2.1
  obtain ⟨y, hy, hcall, hy'⟩ := exists_of_traceOf (hpassed.charged hfresh)
  have hsame : x = y := charge_same h hx hy hcall.symm
    ⟨_, _, (congrArg Sigma.fst hevent).symm⟩ ⟨_, _, (congrArg Sigma.fst hy').symm⟩
  rw [← hsame, ← hevent] at hy'
  cases hy'

/-- The answer to a request that has this status itself, not that of a message
or a tool. -/
def HasStatus (answer : Answer Ip) (status : Nat) : Prop :=
  ∃ response, answer = .plain response ∧ response.status = status

/-- What an answer tells. No other request is answered with an error of the
layers' own. -/
structure Tells (server : Server Ip) (request : Request) (tr : Steps Ip) (limited : Prop)
    (answer : Answer Ip) : Prop where
  tooLarge : HasStatus answer 413 ↔ server.oversized request.toHttpRequest
  unauthorized : HasStatus answer 401 ↔ ¬ server.oversized request.toHttpRequest ∧
    (bearerOf request = none ∨ ∃ token, bearerOf request = some token ∧
      Executes (server.logto.validateToken token) (oidcPart tr) (.ok none))
  upstream : HasStatus answer 500 ↔ ¬ server.oversized request.toHttpRequest ∧
    ∃ token e, bearerOf request = some token ∧
      Executes (server.logto.validateToken token) (oidcPart tr) (.error e)
  limited : HasStatus answer 429 ↔ limited
  /-- Who is not authenticated leaves no trace in the limiters and records. -/
  untouched : HasStatus answer 413 ∨ HasStatus answer 401 ∨ HasStatus answer 500 → OnlyOidc tr

@[simp] theorem status_tooLarge : server.tooLarge.status = 413 := server.tooLarge_status

@[simp] theorem status_unauthorized (state : AuthState Ip) : state.unauthorized.status = 401 := rfl

@[simp] theorem status_internalError : AuthState.internalError.status = 500 := rfl

@[simp] theorem status_tooManyInitializes : tooManyInitializes.status = 429 := rfl

@[simp] theorem status_methodNotAllowed : server.methodNotAllowed.status = 405 :=
  server.methodNotAllowed_status

theorem hasStatus_plain {response : Response} {status : Nat} :
    HasStatus (.plain response : Answer Ip) status ↔ response.status = status := by
  constructor
  · rintro ⟨_, ⟨⟩, h⟩
    exact h
  · exact fun h => ⟨response, rfl, h⟩

theorem not_hasStatus {response : Response} {statuses : List Nat}
    (h : response.status ∉ statuses) : ∀ status ∈ statuses,
      ¬ HasStatus (.plain response : Answer Ip) status := by
  intro status hmem hs
  rw [hasStatus_plain] at hs
  exact h (hs ▸ hmem)

/-- What an authenticated request is told. -/
theorem tells_of_authenticated {request : Request} {tr : Steps Ip} {token : Text}
    {identity : AuthenticatedIdentity} {limited : Prop} {answer : Answer Ip}
    (h : Authenticated server request tr token identity)
    (hsmall : ¬ server.oversized request.toHttpRequest) (hlimited : HasStatus answer 429 ↔ limited)
    (hstatus : ∀ status ∈ [413, 401, 500], ¬ HasStatus answer status) :
    Tells server request tr limited answer := by
  have hone {token' : Text} {result : Except ValidationError (Option AuthenticatedIdentity)}
      (hb : bearerOf request = some token')
      (hr : Executes (server.logto.validateToken token') (oidcPart tr) result) :
      result = .ok (some identity) := by
    obtain rfl : token = token' := Option.some.inj (h.bearer.symm.trans hb)
    exact hr.determined h.valid
  refine ⟨iff_of_false (hstatus 413 (by simp)) hsmall, iff_of_false (hstatus 401 (by simp)) ?_,
    iff_of_false (hstatus 500 (by simp)) ?_, hlimited, ?_⟩
  · rintro ⟨-, hnone | ⟨token', hb, hr⟩⟩
    · rw [h.bearer] at hnone
      cases hnone
    · cases hone hb hr
  · rintro ⟨-, token', e, hb, hr⟩
    cases hone hb hr
  · rintro (hs | hs | hs)
    · exact absurd hs (hstatus 413 (by simp))
    · exact absurd hs (hstatus 401 (by simp))
    · exact absurd hs (hstatus 500 (by simp))

theorem not_limited_of_onlyOidc (h : OnlyOidc (traceOf i log)) : ¬ Limited log i :=
  fun ⟨_, _, _, hmem⟩ => by cases h _ hmem

/-- What a request is told that the middleware refuses. -/
theorem tells_of_refused {response : Response} (honly : OnlyOidc (traceOf i log))
    (hsmall : ¬ server.oversized (requests i).toHttpRequest)
    (hother : response.status ≠ 413 ∧ response.status ≠ 429)
    (h401 : response.status = 401 ↔ bearerOf (requests i) = none ∨
      ∃ token, bearerOf (requests i) = some token ∧
        Executes (server.logto.validateToken token) (oidcPart (traceOf i log)) (.ok none))
    (h500 : response.status = 500 ↔ ∃ token e, bearerOf (requests i) = some token ∧
      Executes (server.logto.validateToken token) (oidcPart (traceOf i log)) (.error e)) :
    Tells server (requests i) (traceOf i log) (Limited log i) (.plain response) where
  tooLarge := iff_of_false (fun hs => hother.1 (hasStatus_plain.mp hs)) hsmall
  unauthorized := by
    rw [hasStatus_plain, h401]
    exact (and_iff_right hsmall).symm
  upstream := by
    rw [hasStatus_plain, h500]
    exact (and_iff_right hsmall).symm
  limited := iff_of_false (fun hs => hother.2 (hasStatus_plain.mp hs))
    (not_limited_of_onlyOidc honly)
  untouched _ := honly

/-- A request was answered by a handler, not by a layer. -/
theorem tells_of_passed {token : Text} {identity : AuthenticatedIdentity} {answer : Answer Ip}
    (h : Disciplined server requests log s)
    (hpassed : Passed server (requests i) (traceOf i log) token identity)
    (hsmall : ¬ server.oversized (requests i).toHttpRequest)
    (hstatus : ∀ status ∈ [413, 401, 500, 429], ¬ HasStatus answer status) :
    Tells server (requests i) (traceOf i log) (Limited log i) answer :=
  tells_of_authenticated hpassed.toAuthenticated hsmall
    (iff_of_false (hstatus 429 (by simp)) (not_limited h hpassed))
    fun status hmem => hstatus status (List.mem_append_left [429] hmem)

/-- Whatever the interleaving, the answer to a request tells how far it got. -/
theorem answers_tell (h : Run (poolStep world) (start, pool server chrono requests) log s)
    {answer : Answer Ip} (hdone : s.2 i = .done answer) :
    Tells server (requests i) (traceOf i log) (Limited log i) answer := by
  have hsound := disciplined h
  have hends := hsound.returned hdone
  by_cases hlarge : server.oversized (requests i).toHttpRequest
  · have hexec := executes_of_run h hdone
    rw [pool, serve, if_pos hlarge] at hexec
    obtain ⟨htr, rfl⟩ := executes_done.mp hexec
    have honly : OnlyOidc (traceOf i log) := by simp [htr, OnlyOidc]
    refine ⟨iff_of_true (hasStatus_plain.mpr status_tooLarge) hlarge,
      iff_of_false ?_ (fun h => h.1 hlarge), iff_of_false ?_ (fun h => h.1 hlarge),
      iff_of_false ?_ (not_limited_of_onlyOidc honly), fun _ => honly⟩
    all_goals simp [hasStatus_plain]
  cases answer with
  | plain response =>
    cases hends with
    | tooLarge hlarge' => exact absurd hlarge' hlarge
    | noBearer hb htr =>
      have honly : OnlyOidc (traceOf i log) := by simp [htr, OnlyOidc]
      refine tells_of_refused honly hlarge (by simp) (iff_of_true rfl (.inl hb))
        (iff_of_false (by simp) ?_)
      rintro ⟨token, e, hb', -⟩
      rw [hb] at hb'
      cases hb'
    | inactive hb honly hvalid =>
      refine tells_of_refused honly hlarge (by simp) (iff_of_true rfl (.inr ⟨_, hb, hvalid⟩))
        (iff_of_false (by simp) ?_)
      rintro ⟨token, e, hb', he⟩
      obtain rfl := Option.some.inj (hb.symm.trans hb')
      cases hvalid.determined he
    | upstream hb honly hvalid =>
      refine tells_of_refused honly hlarge (by simp) (iff_of_false (by simp) ?_)
        (iff_of_true rfl ⟨_, _, hb, hvalid⟩)
      rintro (hnone | ⟨token, hb', hok⟩)
      · rw [hb] at hnone
        cases hnone
      · obtain rfl := Option.some.inj (hb.symm.trans hb')
        cases hvalid.determined hok
    | limited hauth _ _ htr =>
      refine tells_of_authenticated hauth hlarge (iff_of_true (hasStatus_plain.mpr rfl)
        ⟨_, _, _, by rw [htr]; exact List.mem_append_right _ List.mem_cons_self⟩)
        (not_hasStatus (by simp))
    | notAllowed hpassed =>
      exact tells_of_passed hsound hpassed hlarge (not_hasStatus (by simp))
  | introspection body =>
    obtain ⟨-, token, identity, hpassed, -⟩ := hends
    exact tells_of_passed hsound hpassed hlarge (by simp [HasStatus])
  | mcp response =>
    obtain ⟨-, token, identity, hpassed, -⟩ := hends
    exact tells_of_passed hsound hpassed hlarge (by simp [HasStatus])
  | tool result =>
    obtain ⟨-, token, identity, tool, hpassed, -⟩ := hends
    exact tells_of_passed hsound hpassed hlarge (by simp [HasStatus])

end Pool

/-- The sample parts of a server, which count addresses by their octets. -/
def plainServer : Server (List Nat) where
  auth := sampleState
  logto := ValidationCache.sampleClient
  service := ContactTools.plainService
  oversized _ := false
  tooLarge := ⟨413, [], []⟩
  tooLarge_status := rfl
  methodNotAllowed := ⟨405, [], []⟩
  methodNotAllowed_status := rfl
  oneHash := rfl

/-- A message that opens a session. -/
def sampleRequest : Request where
  path := "/mcp".toList
  headers := [("authorization".toList, asciiLine "Bearer jwt")]
  method := .post
  body := []

/-- A server that knows every bearer, with room in the limiters. -/
def sampleReply : ∀ e : Effect (List Nat), Reply e
  | .oidc (.cacheLookup _) => some sampleIdentity
  | .oidc (.decodingKeyFor _) => .ok none
  | .oidc (.decode _ _ _) => none
  | .oidc (.cacheInsert _ _ _) => ()
  | .oidc (.cacheRemove _) => ()
  | .record _ _ => ()
  | .lastUsed _ => none
  | .initializeCheck _ _ => .ok ()
  | .mcp _ => .answered ⟨200, [], []⟩
  | .tool e => ReadTools.sampleReply e

def limitedReply : ∀ e : Effect (List Nat), Reply e
  | .initializeCheck _ _ => .error .subject
  | e => sampleReply e

abbrev samplePool : Unit → Prog (Effect (List Nat)) Reply (Answer (List Nat)) :=
  pool plainServer (fun _ => UpcomingBirthdays.sampleChrono) fun _ => sampleRequest

def samplePlay : List (Act Unit Unit (Effect (List Nat)) Reply) × Unit × Answer (List Nat) :=
  playedAlone (fun _ e => (sampleReply e, ())) () () (samplePool ())

def sampleEnd : Unit × (Unit → Prog (Effect (List Nat)) Reply (Answer (List Nat))) :=
  ((), Function.update samplePool () (.done (.mcp ⟨200, [], []⟩)))

theorem sample_run : Run (poolStep fun _ _ _ _ => True) ((), samplePool) samplePlay.1 sampleEnd :=
  run_playedAlone (fun _ _ => trivial) () () samplePool

def isMcp : Effect (List Nat) → Bool
  | .mcp _ => true
  | _ => false

theorem exists_mcp {e : Effect (List Nat)} (h : isMcp e) : ∃ message, e = .mcp message := by
  cases e with
  | mcp message => exact ⟨message, rfl⟩
  | _ => cases h

theorem requests_gated_sample : ∃ a ev b token identity, samplePlay.1 = a ++ ev :: b ∧
    isMcp ev.effect ∧ Gated plainServer (fun _ => sampleRequest) a ev token identity := by
  have hmcp : samplePlay.1.any (fun ev => isMcp ev.effect) := rfl
  obtain ⟨ev, hev, he⟩ := List.any_eq_true.mp hmcp
  obtain ⟨a, b, hlog⟩ := List.append_of_mem hev
  have hrun := sample_run
  rw [hlog] at hrun
  obtain ⟨message, heffect⟩ := exists_mcp he
  have hbeyond : Beyond ev.effect := by
    rw [heffect]
    trivial
  obtain ⟨token, identity, hgated⟩ := requests_gated hrun hbeyond
  exact ⟨a, ev, b, token, identity, hlog, he, hgated⟩

/-- The same server with a limiter that has no room. -/
def limitedPlay : List (Act Unit Unit (Effect (List Nat)) Reply) × Unit × Answer (List Nat) :=
  playedAlone (fun _ e => (limitedReply e, ())) () () (samplePool ())

theorem limited_run : ∃ s, Run (poolStep fun _ _ _ _ => True) ((), samplePool) limitedPlay.1 s ∧
    s.2 () = .done (.plain tooManyInitializes) :=
  ⟨_, run_playedAlone (fun _ _ => trivial) () () samplePool, rfl⟩

theorem answers_tell_sample : Limited limitedPlay.1 () ∧ Tells plainServer sampleRequest
    (traceOf () limitedPlay.1) (Limited limitedPlay.1 ()) (.plain tooManyInitializes) := by
  obtain ⟨s, hrun, hdone⟩ := limited_run
  have htells := answers_tell hrun hdone
  exact ⟨htells.limited.mp (hasStatus_plain.mpr rfl), htells⟩

end CardDavMcp.ServedRequests
