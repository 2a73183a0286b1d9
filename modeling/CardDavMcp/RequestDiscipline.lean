import CardDavMcp.CallDiscipline
import CardDavMcp.McpRoutes

namespace CardDavMcp.RequestDiscipline

open Library.Utf8Text Library.Interaction ToolError BearerAuth ContactTools UpcomingBirthdays
  ServiceCalls McpRoutes
open LogtoOidc (AuthenticatedIdentity)

variable {Ip : Type}

abbrev Steps (Ip : Type) := Trace (Effect Ip) Reply

/-- A step of a validation. -/
def oidcEvent : (e : Effect Ip) × Reply e → Option ((e : LogtoOidc.Effect) × LogtoOidc.Reply e)
  | ⟨.oidc e, r⟩ => some ⟨e, r⟩
  | _ => none

/-- A step of a tool. -/
def toolEvent : (e : Effect Ip) × Reply e → Option ((e : DavClient.Effect) × DavClient.Reply e)
  | ⟨.tool e, r⟩ => some ⟨e, r⟩
  | _ => none

def oidcPart (tr : Steps Ip) : Trace LogtoOidc.Effect LogtoOidc.Reply := tr.filterMap oidcEvent

def toolPart (tr : Steps Ip) : Trace DavClient.Effect DavClient.Reply := tr.filterMap toolEvent

@[simp] theorem oidcPart_nil : oidcPart ([] : Steps Ip) = [] := rfl

@[simp] theorem oidcPart_snoc (tr : Steps Ip) (x : (e : Effect Ip) × Reply e) :
    oidcPart (tr ++ [x]) = oidcPart tr ++ (oidcEvent x).toList := by
  rw [oidcPart, List.filterMap_append]
  rfl

@[simp] theorem toolPart_snoc (tr : Steps Ip) (x : (e : Effect Ip) × Reply e) :
    toolPart (tr ++ [x]) = toolPart tr ++ (toolEvent x).toList := by
  rw [toolPart, List.filterMap_append]
  rfl

theorem mem_oidcPart {tr : Steps Ip} {e : LogtoOidc.Effect} {r : LogtoOidc.Reply e} :
    ⟨e, r⟩ ∈ oidcPart tr ↔ ⟨.oidc e, r⟩ ∈ tr := by
  constructor
  · intro h
    obtain ⟨⟨e', r'⟩, hmem, hevent⟩ := List.mem_filterMap.mp h
    cases e' with
    | oidc e' =>
      cases hevent
      exact hmem
    | _ => cases hevent
  · exact fun h => List.mem_filterMap.mpr ⟨_, h, rfl⟩

theorem mem_toolPart {tr : Steps Ip} {e : DavClient.Effect} {r : DavClient.Reply e} :
    ⟨e, r⟩ ∈ toolPart tr ↔ ⟨.tool e, r⟩ ∈ tr := by
  constructor
  · intro h
    obtain ⟨⟨e', r'⟩, hmem, hevent⟩ := List.mem_filterMap.mp h
    cases e' with
    | tool e' =>
      cases hevent
      exact hmem
    | _ => cases hevent
  · exact fun h => List.mem_filterMap.mpr ⟨_, h, rfl⟩

/-- Nothing has happened yet but steps of a validation. -/
def OnlyOidc (tr : Steps Ip) : Prop := ∀ x ∈ tr, (oidcEvent x).isSome

/-- No charge for a session yet, and no step of a tool. -/
def Early (tr : Steps Ip) : Prop :=
  toolPart tr = [] ∧ ∀ hash sub r, ⟨.initializeCheck hash sub, r⟩ ∉ tr

section Request

variable (server : Server Ip) (request : Request)

def bearerOf : Option Text := extractBearer (request.get "authorization".toList)

/-- The bearer of a request was validated, and this is whose it is. -/
structure Authenticated (tr : Steps Ip) (token : Text) (identity : AuthenticatedIdentity) :
    Prop where
  bearer : bearerOf request = some token
  valid : Executes (server.logto.validateToken token) (oidcPart tr) (.ok (some identity))

/-- A fresh session was charged for, to the one whose bearer it is. -/
structure Passed (tr : Steps Ip) (token : Text) (identity : AuthenticatedIdentity) : Prop
    extends Authenticated server request tr token identity where
  charged : isFreshMcpSessionRequest request →
    ⟨.initializeCheck (server.auth.tokenHash token) (some identity.userId), .ok ()⟩ ∈ tr

abbrev INTROSPECT : Text := "/token/introspect".toList

/-- The request as the middleware hands it on. -/
def handedOn (token : Text) (identity : AuthenticatedIdentity) : Request :=
  { request with extensions := ⟨some token, some identity⟩ }

/-- The call of a tool that a request makes. -/
def callOf (token : Text) (identity : AuthenticatedIdentity) (tool : ToolRequest) : ServiceCall :=
  ⟨⟨some token, some identity⟩, tool⟩

/-- What a request may do, and when. -/
def contract : Contract (Effect Ip) Reply where
  guar tr e := match e with
    | .oidc e => OnlyOidc tr ∧ ∃ token k, bearerOf request = some token ∧
        Leads (server.logto.validateToken token) (oidcPart tr) (.act e k)
    | .record hash ip => OnlyOidc tr ∧ request.path ≠ INTROSPECT ∧
        ∃ token identity, Authenticated server request tr token identity ∧
          hash = server.auth.tokenHash token ∧
          ip = (server.auth.recordingOf request.toHttpRequest token).clientIp
    | .initializeCheck hash sub => Early tr ∧ isFreshMcpSessionRequest request ∧
        ∃ token identity, Authenticated server request tr token identity ∧
          hash = server.auth.tokenHash token ∧ sub = some identity.userId
    | .lastUsed hash => request.path = INTROSPECT ∧
        ∃ token identity, Passed server request tr token identity ∧
          hash = server.auth.tokenHash token
    | .mcp message => request.path ≠ INTROSPECT ∧
        ∃ token identity, Passed server request tr token identity ∧
          message = handedOn request token identity
    | .tool e => ∃ token identity tool, Passed server request tr token identity ∧
        ⟨.mcp (handedOn request token identity), .call tool⟩ ∈ tr ∧
        (CallDiscipline.contract server.service (callOf token identity tool)).guar (toolPart tr) e
  rely _ _ := True

/-- The ways in which the layers turn a request away. -/
inductive TurnedAway (tr : Steps Ip) : Response → Prop
  | tooLarge (h : server.oversized request.toHttpRequest = true) (htr : tr = []) :
      TurnedAway tr server.tooLarge
  | noBearer (h : bearerOf request = none) (htr : tr = []) :
      TurnedAway tr server.auth.unauthorized
  | inactive {token : Text} (h : bearerOf request = some token) (honly : OnlyOidc tr)
      (hvalid : Executes (server.logto.validateToken token) (oidcPart tr) (.ok none)) :
      TurnedAway tr server.auth.unauthorized
  | upstream {token : Text} {e : LogtoOidc.ValidationError} (h : bearerOf request = some token)
      (honly : OnlyOidc tr)
      (hvalid : Executes (server.logto.validateToken token) (oidcPart tr) (.error e)) :
      TurnedAway tr BearerAuth.AuthState.internalError
  | limited {token : Text} {identity : AuthenticatedIdentity} {e : RateLimit.RejectedBy}
      {before : Steps Ip} (h : Authenticated server request tr token identity)
      (hfresh : isFreshMcpSessionRequest request) (hbefore : Early before)
      (htr : tr = before ++
        [⟨.initializeCheck (server.auth.tokenHash token) (some identity.userId), .error e⟩]) :
      TurnedAway tr tooManyInitializes
  | notAllowed {token : Text} {identity : AuthenticatedIdentity}
      (h : Passed server request tr token identity) (hpath : request.path = INTROSPECT)
      (hmethod : request.method ≠ .get ∧ request.method ≠ .head) :
      TurnedAway tr server.methodNotAllowed

/-- What an answer says of the trace it ends. -/
def Ends (tr : Steps Ip) : Answer Ip → Prop
  | .plain response => TurnedAway server request tr response
  | .introspection body => request.path = INTROSPECT ∧
      ∃ token identity, Passed server request tr token identity ∧
        ⟨.lastUsed (server.auth.tokenHash token), body.lastUsed⟩ ∈ tr ∧
        body = ⟨identity.userId, identity.email, identity.name, identity.exp,
          server.auth.tokenHash token, body.lastUsed⟩
  | .mcp response => request.path ≠ INTROSPECT ∧
      ∃ token identity, Passed server request tr token identity ∧
        ⟨.mcp (handedOn request token identity), .answered response⟩ ∈ tr
  | .tool result => request.path ≠ INTROSPECT ∧
      ∃ token identity tool, Passed server request tr token identity ∧
        ⟨.mcp (handedOn request token identity), .call tool⟩ ∈ tr ∧
        CallDiscipline.Ends server.service (callOf token identity tool) (toolPart tr) result

end Request

section Layers

variable {server : Server Ip} {request : Request} {tr : Steps Ip} {token : Text}
  {identity : AuthenticatedIdentity}

/-- A validation belongs to a trace, whatever else has happened since. -/
theorem Authenticated.mono {tr' : Steps Ip} (h : Authenticated server request tr token identity)
    (hpart : oidcPart tr' = oidcPart tr) : Authenticated server request tr' token identity :=
  ⟨h.bearer, hpart ▸ h.valid⟩

theorem Passed.mono {tr' : Steps Ip} (h : Passed server request tr token identity)
    (hpart : oidcPart tr' = oidcPart tr) (hsub : tr ⊆ tr') :
    Passed server request tr' token identity :=
  ⟨h.toAuthenticated.mono hpart, fun hfresh => hsub (h.charged hfresh)⟩

theorem OnlyOidc.early (h : OnlyOidc tr) : Early tr := by
  refine ⟨List.filterMap_eq_nil_iff.mpr fun x hx => ?_, fun hash sub r hmem => ?_⟩
  · obtain ⟨e, r⟩ := x
    have hx := h _ hx
    cases e with
    | oidc e => rfl
    | _ => cases hx
  · cases h _ hmem

theorem always_trivial {E : Type} {R : E → Type} {α : Type} (p : Prog E R α) (tr : Trace E R) :
    Always ⟨fun _ _ => True, fun _ _ => True⟩ (fun _ _ => True) tr p := by
  induction p generalizing tr with
  | done a => exact trivial
  | act e k ih => exact ⟨trivial, fun r _ => ih r _⟩

/-- The middleware hands on only what it has validated. -/
theorem always_bearerAuth {next : Handler Ip}
    (hnext : ∀ tr token identity, Authenticated server request tr token identity → Early tr →
      Always (contract server request) (Ends server request) tr
        (next (handedOn request token identity))) :
    Always (contract server request) (Ends server request) [] (bearerAuth server next request) := by
  rw [bearerAuth]
  cases hb : extractBearer (request.get "authorization".toList) with
  | none => exact always_done.mpr (TurnedAway.noBearer hb rfl)
  | some token =>
    have hvalidation := (always_trivial (server.logto.validateToken token) []).leads
    refine always_bind.mpr (always_embed oidcPart OnlyOidc ?_ ?_ ?_ ?_ ?_ ?_ hvalidation)
    · exact fun tr e r => oidcPart_snoc tr _
    · intro tr e r htr x hx
      rw [List.mem_append, List.mem_singleton] at hx
      obtain hx | rfl := hx
      · exact htr x hx
      · rfl
    · exact fun tr e htr hguar => ⟨htr, token, hguar.2.choose, hb, hguar.2.choose_spec⟩
    · exact fun _ _ _ => trivial
    · intro tr validated htr ⟨_, hvalid⟩
      rw [AuthState.bearerAuth, hb]
      dsimp only
      cases validated with
      | error e => exact always_done.mpr (TurnedAway.upstream hb htr hvalid)
      | ok verdict =>
        cases verdict with
        | none => exact always_done.mpr (TurnedAway.inactive hb htr hvalid)
        | some identity =>
          have hauth : Authenticated server request tr token identity := ⟨hb, hvalid⟩
          by_cases hpath : request.path = INTROSPECT
          · rw [Except.mapError, if_pos hpath]
            exact hnext tr token identity hauth htr.early
          · rw [Except.mapError, if_neg hpath]
            refine always_bind.mpr ⟨⟨htr, hpath, token, identity, hauth, rfl, rfl⟩, fun _ _ => ?_⟩
            refine hnext _ token identity (hauth.mono (by simp [oidcEvent])) ⟨?_, ?_⟩
            · rw [toolPart_snoc, htr.early.1]
              rfl
            · intro hash sub r hmem
              rw [List.mem_append, List.mem_singleton] at hmem
              obtain hmem | heq := hmem
              · exact htr.early.2 hash sub r hmem
              · cases heq
    · exact fun x hx => absurd hx List.not_mem_nil

/-- The second layer hands on a request for a fresh session only when it is
charged for. -/
theorem always_initializeRateLimit {next : Handler Ip}
    (h : Authenticated server request tr token identity) (hearly : Early tr)
    (hnext : ∀ tr, Passed server request tr token identity → toolPart tr = [] →
      Always (contract server request) (Ends server request) tr
        (next (handedOn request token identity))) :
    Always (contract server request) (Ends server request) tr
      (initializeRateLimit server next (handedOn request token identity)) := by
  have hsame : isFreshMcpSessionRequest (handedOn request token identity) =
    isFreshMcpSessionRequest request := rfl
  rw [initializeRateLimit, hsame]
  cases hfresh : isFreshMcpSessionRequest request with
  | false => exact hnext tr ⟨h, fun hf => by rw [hfresh] at hf; cases hf⟩ hearly.1
  | true =>
    refine always_bind.mpr ⟨⟨hearly, hfresh, token, identity, h, rfl, rfl⟩, fun result _ => ?_⟩
    cases result with
    | error e => exact always_done.mpr (TurnedAway.limited (h.mono (by simp [oidcEvent])) hfresh
        hearly rfl)
    | ok u =>
      refine hnext _ ⟨h.mono (by simp [oidcEvent]), fun _ => ?_⟩ ?_
      · exact List.mem_append_right _ List.mem_cons_self
      · rw [toolPart_snoc, hearly.1]
        rfl

theorem always_introspect (h : Passed server request tr token identity)
    (hpath : request.path = INTROSPECT) :
    Always (contract server request) (Ends server request) tr
      (introspect server (handedOn request token identity)) := by
  refine always_bind.mpr ⟨⟨hpath, token, identity, h, rfl⟩, fun lastUsed _ => ?_⟩
  refine always_done.mpr ⟨hpath, token, identity, h.mono (by simp [oidcEvent]) ?_, ?_, rfl⟩
  · exact List.subset_append_left _ _
  · exact List.mem_append_right _ List.mem_cons_self

/-- A tool behind the endpoint keeps the discipline of its call. -/
theorem always_mcpService (chrono : Chrono) (h : Passed server request tr token identity)
    (hnone : toolPart tr = []) (hpath : request.path ≠ INTROSPECT) :
    Always (contract server request) (Ends server request) tr
      (mcpService server chrono (handedOn request token identity)) := by
  refine always_bind.mpr ⟨⟨hpath, token, identity, h, rfl⟩, fun reply _ => ?_⟩
  have hpassed : Passed server request
      (tr ++ [⟨.mcp (handedOn request token identity), reply⟩]) token identity :=
    h.mono (by simp [oidcEvent]) (List.subset_append_left _ _)
  cases reply with
  | answered response =>
    exact always_done.mpr ⟨hpath, token, identity, hpassed,
      List.mem_append_right _ List.mem_cons_self⟩
  | call tool =>
    have hcall : Always (CallDiscipline.contract server.service (callOf token identity tool))
        (CallDiscipline.Ends server.service (callOf token identity tool))
        (toolPart (tr ++ [⟨.mcp (handedOn request token identity), .call tool⟩]))
        ((callOf token identity tool).run server.service chrono).run := by
      rw [toolPart_snoc, hnone]
      exact CallDiscipline.ends_run chrono _
    refine always_bind.mpr (always_embed toolPart
      (fun tr => Passed server request tr token identity ∧
        ⟨.mcp (handedOn request token identity), .call tool⟩ ∈ tr)
      ?_ ?_ ?_ ?_ ?_ ⟨hpassed, List.mem_append_right _ List.mem_cons_self⟩ hcall)
    · exact fun tr e r => toolPart_snoc tr _
    · exact fun tr e r ⟨hp, hmem⟩ => ⟨hp.mono (by simp [oidcEvent]) (List.subset_append_left _ _),
        List.mem_append_left _ hmem⟩
    · exact fun tr e ⟨hp, hmem⟩ hguar => ⟨token, identity, tool, hp, hmem, hguar⟩
    · exact fun _ _ _ => trivial
    · exact fun tr result ⟨hp, hmem⟩ hends =>
        always_done.mpr ⟨hpath, token, identity, tool, hp, hmem, hends⟩

theorem always_route (chrono : Chrono) (h : Passed server request tr token identity)
    (hnone : toolPart tr = []) :
    Always (contract server request) (Ends server request) tr
      (route server chrono (handedOn request token identity)) := by
  have hsame : (handedOn request token identity).path = request.path := rfl
  rw [route, hsame]
  by_cases hpath : request.path = INTROSPECT
  · rw [if_pos hpath]
    split_ifs with hmethod
    · exact always_introspect h hpath
    · exact always_done.mpr (TurnedAway.notAllowed h hpath (not_or.mp hmethod))
  · rw [if_neg hpath]
    exact always_mcpService chrono h hnone hpath

/-- Each request keeps the discipline, and its answer tells what became of it. -/
theorem always_serve (chrono : Chrono) (server : Server Ip) (request : Request) :
    Always (contract server request) (Ends server request) [] (serve server chrono request) := by
  rw [serve]
  split_ifs with hlarge
  · exact always_done.mpr (TurnedAway.tooLarge hlarge rfl)
  · exact always_bearerAuth fun tr token identity h hearly =>
      always_initializeRateLimit h hearly fun tr hpassed hnone =>
        always_route chrono hpassed hnone

end Layers

end CardDavMcp.RequestDiscipline
