import CardDavMcp.ContactTools
import CardDavMcp.DavServer
import CardDavMcp.ResponseLimits

namespace CardDavMcp.WriteContract

open Library.Utf8Text Library.Interaction Library.Runs ToolError Urls DavError
    DavClient ContactTools DavServer ResponseLimits

/-- The calls of the three tools that write. -/
inductive ToolCall
  | create (ctx : RequestContext) (params : CreateContactParams)
  | update (ctx : RequestContext) (params : UpdateContactParams)
  | delete (ctx : RequestContext) (params : DeleteContactParams)
deriving DecidableEq, Repr

inductive ToolResult
  | written (result : ContactWriteResult)
  | deleted (result : DeleteContactResult)
deriving DecidableEq, Repr

def ToolCall.run (svc : CardDavMcpService) : ToolCall → Tool ToolResult
  | .create ctx params => do return .written (← svc.createContact ctx params)
  | .update ctx params => do return .written (← svc.updateContact ctx params)
  | .delete ctx params => do return .deleted (← svc.deleteContact ctx params)

/-- What a call returned. -/
def result (p : Prog Effect Reply (Except ErrorData ToolResult)) :
    Option (Except ErrorData ToolResult) :=
  match p with
  | .done a => some a
  | .act _ _ => none

abbrev Sent := DavRequest × Except String RawResponse

def asSent : (e : Effect) × Reply e → Option Sent
  | ⟨.send request, reply⟩ => some (request, reply)
  | _ => none

/-- The requests of a trace, with their answers. -/
def sendsOf (tr : Trace Effect Reply) : List Sent := tr.filterMap asSent

/-- The card that the client reads from a response. -/
def readCard (c : CardDavClient) (response : RawResponse) : Except CardDavError Text := do
  let body ← readLimited response c.maxResponseBytes
  c.fromUtf8 body

def IsWrite (request : DavRequest) : Prop := request.method = .put ∨ request.method = .delete

/-- The tag that the client reads from a response. -/
def readEtag (response : RawResponse) : Option Text := response.etag.bind headerToStr

/-- The requests a call may send after those it has sent. -/
def Permitted (svc : CardDavMcpService) : ToolCall → List Sent → DavRequest → Prop
  | .create _ _, sends, request =>
    sends = [] ∧ request.method = .put ∧ request.header "if-none-match" = some ['*']
  | .update _ params, sends, request =>
    svc.carddav.resolveHref params.contactHref = .ok request.url ∧
      ((sends = [] ∧ request.method = .get) ∨
        ∃ get response, sends = [(get, .ok response)] ∧ get.method = .get ∧ get.url = request.url ∧
          response.status = 200 ∧ request.method = .put ∧
          request.header "if-match" = some ((params.etag <|> readEtag response).getD ['*']) ∧
          ∃ text uid, readCard svc.carddav response = .ok text ∧
            keptUid text params.contact = .ok uid ∧
            Vcard.buildVcard params.contact uid = .ok request.body)
  | .delete _ params, sends, request =>
    svc.carddav.resolveHref params.contactHref = .ok request.url ∧
      sends = [] ∧ request.method = .delete ∧
      request.header "if-match" = some (params.etag.getD ['*'])

/-- Before a request, a call has sent no write. -/
theorem Permitted.noWrite {svc : CardDavMcpService} {call : ToolCall} {sends : List Sent}
    {request : DavRequest} (h : Permitted svc call sends request) : ∀ x ∈ sends, ¬ IsWrite x.1 := by
  cases call with
  | create ctx params =>
    obtain ⟨rfl, -⟩ := h
    simp
  | update ctx params =>
    obtain ⟨-, ⟨rfl, -⟩ | ⟨get, response, rfl, hget, -⟩⟩ := h
    · simp
    · simp [IsWrite, hget]
  | delete ctx params =>
    obtain ⟨-, rfl, -⟩ := h
    simp

def contract (svc : CardDavMcpService) (call : ToolCall) : Contract Effect Reply where
  guar tr e := ∀ request, e = .send request → Permitted svc call (sendsOf tr) request
  rely _ _ := True

/-- The errors of a tool that say that a write did not take place. -/
def Refusal (e : ErrorData) : Prop :=
  e = mapCarddavErr .conflict ∨ e = mapCarddavErr .notFound

/-- A call succeeds on a write that is confirmed. It reports a refusal only if
every write it sent was denied. -/
def Settled {α : Type} (tr : Trace Effect Reply) : Except ErrorData α → Prop
  | .ok _ => ∃ request reply, (request, reply) ∈ sendsOf tr ∧ IsWrite request ∧ Confirmed reply
  | .error e => Refusal e → ∀ x ∈ sendsOf tr, IsWrite x.1 → Denied x.2

section Tools

variable {svc : CardDavMcpService} {call : ToolCall} {tr : Trace Effect Reply} {α : Type}
  {token : Text} {request : DavRequest}

theorem sendsOf_append (tr tr' : Trace Effect Reply) :
    sendsOf (tr ++ tr') = sendsOf tr ++ sendsOf tr' :=
  List.filterMap_append

theorem sendsOf_other {x : (e : Effect) × Reply e} (h : asSent x = none) :
    sendsOf (tr ++ [x]) = sendsOf tr := by
  rw [sendsOf_append, sendsOf, sendsOf, List.filterMap_cons_none h, List.filterMap_nil,
    List.append_nil]

theorem sendsOf_sent (c : CardDavClient) (reply : Except String RawResponse) :
    sendsOf (tr ++ c.sent token request reply) =
      sendsOf tr ++ [(CardDavClient.bearerAuth token request, reply)] := by
  rw [sendsOf_append]
  congr 1
  rw [CardDavClient.sent]
  split_ifs
  · rfl
  · rfl

theorem not_refusal_auth (message : String) : ¬ Refusal ⟨AUTH_EXPIRED_CODE, message⟩ := by
  simp [Refusal, mapCarddavErr, invalidParams, AUTH_EXPIRED_CODE]

theorem not_refusal_http (message : String) : ¬ Refusal (mapCarddavErr (.http message)) := by
  simp [Refusal, mapCarddavErr, invalidParams, internalError]

theorem not_refusal_tooLarge : ¬ Refusal (mapCarddavErr .tooLarge) := by
  have hconflict : CardDavError.tooLarge.toString ≠ CardDavError.conflict.toString := by decide
  have hnotFound : CardDavError.tooLarge.toString ≠ CardDavError.notFound.toString := by decide
  rintro (h | h)
  · exact hconflict (congrArg ErrorData.message h)
  · exact hnotFound (congrArg ErrorData.message h)

/-- What goes wrong before an answer can be looked at is no refusal. -/
theorem not_refusal_outcome {c : CardDavClient} {reply : Except String RawResponse}
    {e : CardDavError} (h : c.outcome reply = .error e) : ¬ Refusal (mapCarddavErr e) := by
  cases reply with
  | error m =>
    obtain rfl := Except.error.inj h
    exact not_refusal_http m
  | ok response =>
    rw [CardDavClient.outcome] at h
    split_ifs at h
    · obtain rfl := Except.error.inj h
      exact not_refusal_auth _
    · rw [CardDavClient.receive] at h
      cases hread : readLimited response c.maxResponseBytes with
      | ok body => simp [hread, bind, Except.bind, pure, Except.pure] at h
      | error e' =>
        obtain rfl : e' = e := by simpa [hread, bind, Except.bind] using h
        obtain rfl | ⟨m, rfl⟩ := readLimited_error hread
        · exact not_refusal_tooLarge
        · exact not_refusal_http m

theorem outcome_ok {c : CardDavClient} {reply : Except String RawResponse}
    {response : DavHttpResponse} (h : c.outcome reply = .ok response) :
    ∃ raw, reply = .ok raw ∧ raw.status = response.status ∧ readEtag raw = response.etag ∧
      readLimited raw c.maxResponseBytes = .ok response.body := by
  cases reply with
  | error m => cases h
  | ok raw =>
    rw [CardDavClient.outcome] at h
    split_ifs at h
    rw [CardDavClient.receive] at h
    cases hread : readLimited raw c.maxResponseBytes with
    | error e => simp [hread, bind, Except.bind] at h
    | ok body =>
      simp only [hread, bind, Except.bind, pure, Except.pure, Except.ok.injEq] at h
      subst h
      exact ⟨raw, rfl, rfl, rfl, hread⟩

theorem guar_other {e : Effect} (h : ∀ request, e ≠ .send request) :
    (contract svc call).guar tr e :=
  fun request he => absurd he (h request)

def NoWrite (tr : Trace Effect Reply) : Prop := ∀ x ∈ sendsOf tr, ¬ IsWrite x.1

theorem NoWrite.settled (h : NoWrite tr) (e : ErrorData) :
    Settled tr (.error e : Except ErrorData α) :=
  fun _ x hx hwrite => absurd hwrite (h x hx)

/-- How a write's answer is judged by its status. -/
def Judged (status : Nat) : Except CardDavError α → Prop
  | .ok _ => status ∈ [200, 201, 204]
  | .error e => Refusal (mapCarddavErr e) → status ∈ [404, 409, 412]

/-- The first write of a call, and what it makes of the answer. -/
theorem always_write {k : DavHttpResponse → Dav α} (hbefore : NoWrite tr) (hwrite : IsWrite request)
    (hperm : Permitted svc call (sendsOf tr) (CardDavClient.bearerAuth token request))
    (hk : ∀ tr' response, Always (contract svc call)
      (fun tr result => tr = tr' ∧ Judged response.status result) tr' (k response).run) :
    Always (contract svc call) (fun tr result => Settled tr (result.mapError mapCarddavErr)) tr
      (svc.carddav.send token request >>= k).run := by
  have hsent (reply : Except String RawResponse) :
      sendsOf (tr ++ svc.carddav.sent token request reply) = _ := sendsOf_sent _ reply
  refine always_tryBind.mpr (svc.carddav.always_send (hbefore.settled _) ?_ ?_ fun reply _ => ?_)
  · rintro _ ⟨⟩
    exact hperm
  · intro reply _
    exact guar_other fun _ => Effect.noConfusion
  · cases hout : svc.carddav.outcome reply with
    | error e => exact fun h => absurd h (not_refusal_outcome hout)
    | ok response =>
      obtain ⟨raw, rfl, hstatus, -, -⟩ := outcome_ok hout
      refine (hk _ response).mono fun tr' result ⟨htr, hjudged⟩ => ?_
      rw [← hstatus] at hjudged
      subst htr
      cases result with
      | ok a =>
        refine ⟨CardDavClient.bearerAuth token request, .ok raw, ?_, hwrite, raw, rfl, hjudged⟩
        simp [hsent]
      | error e =>
        intro hrefusal x hx hxwrite
        rw [hsent, List.mem_append, List.mem_singleton] at hx
        obtain hx | rfl := hx
        · exact absurd hxwrite (hbefore x hx)
        · exact ⟨raw, rfl, hjudged hrefusal⟩

theorem not_refusal_upstream (status : Nat) : ¬ Refusal (mapCarddavErr (.upstream status)) := by
  simp [Refusal, mapCarddavErr, invalidParams, internalError]

theorem always_createContact {ctx : RequestContext} {params : CreateContactParams}
    {href uid vcard : Text} (h₀ : sendsOf tr = []) :
    Always (contract svc (.create ctx params))
      (fun tr result => Settled tr (result.mapError mapCarddavErr)) tr
      (svc.carddav.createContact token href uid vcard).run := by
  have hbefore : NoWrite tr := by simp [NoWrite, h₀]
  apply always_settle_bind.mpr
  cases svc.carddav.resolveHref href with
  | error e => exact hbefore.settled _
  | ok url =>
    apply always_settle_bind.mpr
    cases svc.carddav.contactUrl href uid url with
    | error e => exact hbefore.settled _
    | ok url =>
      refine always_write hbefore (.inl rfl) ⟨h₀, rfl, rfl⟩ fun tr' response => ?_
      split_ifs with hok hconflict
      · exact always_pure.mpr ⟨rfl, by grind [Judged]⟩
      · exact always_throw.mpr ⟨rfl, by grind [Judged]⟩
      · exact always_throw.mpr ⟨rfl, fun h => absurd h (not_refusal_upstream _)⟩

theorem always_updateContact {ctx : RequestContext} {params : UpdateContactParams}
    {get : DavRequest} {response : RawResponse} {url : Url} {text uid vcard : Text}
    (hresolve : svc.carddav.resolveHref params.contactHref = .ok url)
    (h₀ : sendsOf tr = [(get, .ok response)]) (hget : get.method = .get) (hurl : get.url = url)
    (hstatus : response.status = 200) (hread : readCard svc.carddav response = .ok text)
    (huid : keptUid text params.contact = .ok uid)
    (hbuild : Vcard.buildVcard params.contact uid = .ok vcard) :
    Always (contract svc (.update ctx params))
      (fun tr result => Settled tr (result.mapError mapCarddavErr)) tr
      (svc.carddav.updateContact token params.contactHref (params.etag <|> readEtag response)
        vcard).run := by
  have hbefore : NoWrite tr := by simp [NoWrite, h₀, IsWrite, hget]
  apply always_settle_bind.mpr
  rw [hresolve]
  refine always_write hbefore (.inl rfl)
    ⟨hresolve, .inr ⟨get, response, h₀, hget, hurl, hstatus, rfl, rfl,
    text, uid, hread, huid, hbuild⟩⟩ fun tr' response => ?_
  split_ifs with hok hmissing hconflict
  · exact always_pure.mpr ⟨rfl, by grind [Judged]⟩
  · exact always_throw.mpr ⟨rfl, by grind [Judged]⟩
  · exact always_throw.mpr ⟨rfl, by grind [Judged]⟩
  · exact always_throw.mpr ⟨rfl, fun h => absurd h (not_refusal_upstream _)⟩

theorem always_deleteContact {ctx : RequestContext} {params : DeleteContactParams}
    (h₀ : sendsOf tr = []) :
    Always (contract svc (.delete ctx params))
      (fun tr result => Settled tr (result.mapError mapCarddavErr)) tr
      (svc.carddav.deleteContact token params.contactHref params.etag).run := by
  have hbefore : NoWrite tr := by simp [NoWrite, h₀]
  apply always_settle_bind.mpr
  cases hresolve : svc.carddav.resolveHref params.contactHref with
  | error e => exact hbefore.settled _
  | ok url =>
    refine always_write hbefore (.inr rfl) ⟨hresolve, h₀, rfl, rfl⟩ fun tr' response => ?_
    split_ifs with hok hmissing hconflict
    · exact always_pure.mpr ⟨rfl, by grind [Judged]⟩
    · exact always_throw.mpr ⟨rfl, by grind [Judged]⟩
    · exact always_throw.mpr ⟨rfl, by grind [Judged]⟩
    · exact always_throw.mpr ⟨rfl, fun h => absurd h (not_refusal_upstream _)⟩

/-- What the read of an update leaves behind. -/
def Fetched (svc : CardDavMcpService) (href : Text) (tr : Trace Effect Reply) :
    Except CardDavError DavContact → Prop
  | .ok contact => ∃ get response, svc.carddav.resolveHref href = .ok get.url ∧
      sendsOf tr = [(get, .ok response)] ∧ get.method = .get ∧ response.status = 200 ∧
      contact.etag = readEtag response ∧ readCard svc.carddav response = .ok contact.vcard
  | .error _ => NoWrite tr

theorem always_getContact {ctx : RequestContext} {params : UpdateContactParams}
    (h₀ : sendsOf tr = []) :
    Always (contract svc (.update ctx params)) (Fetched svc params.contactHref) tr
      (svc.carddav.getContact token params.contactHref).run := by
  have hbefore : NoWrite tr := by simp [NoWrite, h₀]
  apply always_settle_bind.mpr
  cases hresolve : svc.carddav.resolveHref params.contactHref with
  | error e => exact hbefore
  | ok url =>
    have hsent (reply : Except String RawResponse) :
        sendsOf (tr ++ svc.carddav.sent token (CardDavClient.getRequest url) reply) =
          [(CardDavClient.bearerAuth token (CardDavClient.getRequest url), reply)] := by
      rw [sendsOf_sent, h₀, List.nil_append]
    have hquiet (reply : Except String RawResponse) :
        NoWrite (tr ++ svc.carddav.sent token (CardDavClient.getRequest url) reply) := by
      intro x hx
      rw [hsent, List.mem_singleton] at hx
      subst hx
      simp [IsWrite, CardDavClient.bearerAuth, CardDavClient.getRequest]
    refine always_tryBind.mpr (svc.carddav.always_send hbefore ?_ ?_ fun reply _ => ?_)
    · rintro _ ⟨⟩
      exact ⟨hresolve, .inl ⟨h₀, rfl⟩⟩
    · intro reply _
      exact guar_other fun _ => Effect.noConfusion
    · cases hout : svc.carddav.outcome reply with
      | error e => exact hquiet reply
      | ok response =>
        obtain ⟨raw, rfl, hstatus, hetag, hbody⟩ := outcome_ok hout
        dsimp only
        split_ifs with hok
        · apply always_settle_bind.mpr
          cases hutf8 : svc.carddav.fromUtf8 response.body with
          | error e => exact hquiet _
          | ok vcard =>
            have hcard : readCard svc.carddav raw = .ok vcard := by
              rw [readCard, hbody]
              exact hutf8
            exact always_pure.mpr
              ⟨_, raw, hresolve, hsent _, rfl, hstatus.trans hok, hetag.symm, hcard⟩
        · exact always_throw.mpr (hquiet _)
        · exact always_throw.mpr (hquiet _)

theorem always_rateLimitCheck {ctx : RequestContext} {category : RateLimit.Category}
    (h₀ : sendsOf tr = []) :
    Always (contract svc call) (fun tr _ => sendsOf tr = []) tr
    (svc.rateLimitCheck ctx category).run := by
  apply always_settle_bind.mpr
  cases tokenFromCtx ctx with
  | error e => exact h₀
  | ok token =>
    apply always_settle_bind.mpr
    cases identityFromCtx ctx with
    | error e => exact h₀
    | ok identity =>
      refine always_ask_bind.mpr ⟨guar_other fun _ => Effect.noConfusion, fun decision _ => ?_⟩
      have h₁ : sendsOf
        (tr ++ [⟨.rateLimitCheck (svc.tokenHash token) (some identity.userId) category,
          decision⟩]) = [] := (sendsOf_other rfl).trans h₀
      cases decision with
      | ok u => exact h₁
      | error e => exact h₁

theorem always_reactToAuthExpiry {ctx : RequestContext} {p : Tool α}
    (h : Always (contract svc call) Settled tr p.run) :
    Always (contract svc call) Settled tr (svc.reactToAuthExpiry ctx p).run := by
  refine always_tryCatch.mpr (h.mono fun tr result hresult => ?_)
  cases result with
  | ok a => exact hresult
  | error error =>
    dsimp only
    split_ifs with hcode
    · exact hresult
    · cases ctx.token with
      | none => exact always_throw.mpr fun h => absurd h (not_refusal_auth _)
      | some token =>
        refine always_ask_bind.mpr ⟨guar_other fun _ => Effect.noConfusion, fun _ _ => ?_⟩
        refine always_ask_bind.mpr ⟨guar_other fun _ => Effect.noConfusion, fun _ _ => ?_⟩
        exact always_throw.mpr fun h => absurd h (not_refusal_auth _)

theorem settled_map {β : Type} {p : Tool β} {f : β → α}
    (h : Always (contract svc call) Settled tr p.run) :
    Always (contract svc call) Settled tr (p >>= fun b => pure (f b)).run := by
  refine always_tryBind.mpr (h.mono fun tr result hresult => ?_)
  cases result with
  | ok b => exact always_pure.mpr hresult
  | error e => exact hresult

/-- The start that all three tools share. -/
theorem always_limited {ctx : RequestContext} {category : RateLimit.Category} {k : Unit → Tool α}
    (hk : ∀ tr, sendsOf tr = [] → Always (contract svc call) Settled tr (k ()).run) :
    Always (contract svc call) Settled []
      (svc.rateLimitCheck ctx category >>= k).run := by
  refine always_tryBind.mpr ((always_rateLimitCheck rfl).mono fun tr result h => ?_)
  cases result with
  | ok u => exact hk tr h
  | error e => exact NoWrite.settled (by simp [NoWrite, h]) e

theorem always_create {ctx : RequestContext} {params : CreateContactParams} :
    Always (contract svc (.create ctx params)) Settled [] (svc.createContact ctx params).run := by
  refine always_reactToAuthExpiry (always_limited fun tr h₀ => ?_)
  have hquiet (tr : Trace Effect Reply) (h : sendsOf tr = []) : NoWrite tr := by simp [NoWrite, h]
  have hrest (tr : Trace Effect Reply) (h : sendsOf tr = []) (token uid : Text) :
      Always (contract svc (.create ctx params)) Settled tr (do
        settle (Contact.validateUid uid)
        let vcard ← settle (Vcard.buildVcard params.contact uid)
        let written ←
          (svc.carddav.createContact token params.addressbookHref uid vcard).adapt mapCarddavErr
        return ⟨written.href, written.etag, uid⟩ : Tool ContactWriteResult).run := by
    apply always_settle_bind.mpr
    cases Contact.validateUid uid with
    | error e => exact (hquiet tr h).settled e
    | ok u =>
      apply always_settle_bind.mpr
      cases Vcard.buildVcard params.contact uid with
      | error e => exact (hquiet tr h).settled e
      | ok vcard => exact settled_map (always_adapt.mpr (always_createContact h))
  apply always_settle_bind.mpr
  cases Contact.validateContactInput params.contact with
  | error e => exact (hquiet tr h₀).settled e
  | ok u =>
    apply always_settle_bind.mpr
    cases tokenFromCtx ctx with
    | error e => exact (hquiet tr h₀).settled e
    | ok token =>
      cases params.contact.uid with
      | some uid => exact hrest tr h₀ token uid
      | none =>
        refine always_tryBind.mpr (always_ask_bind.mpr
          ⟨guar_other fun _ => Effect.noConfusion, fun bytes _ => always_pure.mpr ?_⟩)
        exact hrest _ ((sendsOf_other rfl).trans h₀) token _

theorem always_update {ctx : RequestContext} {params : UpdateContactParams} :
    Always (contract svc (.update ctx params)) Settled [] (svc.updateContact ctx params).run := by
  refine always_reactToAuthExpiry (always_limited fun tr h₀ => ?_)
  have hquiet : NoWrite tr := by simp [NoWrite, h₀]
  apply always_settle_bind.mpr
  cases Contact.validateContactInput params.contact with
  | error e => exact hquiet.settled e
  | ok u =>
    apply always_settle_bind.mpr
    cases tokenFromCtx ctx with
    | error e => exact hquiet.settled e
    | ok token =>
      refine always_tryBind.mpr
        (always_adapt.mpr ((always_getContact h₀).mono fun tr' fetched h => ?_))
      cases fetched with
      | error e => exact h.settled _
      | ok existing =>
        obtain ⟨get, response, hresolve, hsends, hget, hstatus, hetag, hread⟩ := h
        have hquiet : NoWrite tr' := by simp [NoWrite, hsends, IsWrite, hget]
        apply always_settle_bind.mpr
        cases huid : keptUid existing.vcard params.contact with
        | error e => exact hquiet.settled e
        | ok existingUid =>
          apply always_settle_bind.mpr
          cases hbuild : Vcard.buildVcard params.contact existingUid with
          | error e => exact hquiet.settled e
          | ok vcard =>
            dsimp only
            rw [hetag]
            exact settled_map (always_adapt.mpr
              (always_updateContact hresolve hsends hget rfl hstatus hread huid hbuild))

theorem always_delete {ctx : RequestContext} {params : DeleteContactParams} :
    Always (contract svc (.delete ctx params)) Settled [] (svc.deleteContact ctx params).run := by
  refine always_reactToAuthExpiry (always_limited fun tr h₀ => ?_)
  apply always_settle_bind.mpr
  cases tokenFromCtx ctx with
  | error e => exact NoWrite.settled (by simp [NoWrite, h₀]) e
  | ok token => exact settled_map (always_adapt.mpr (always_deleteContact h₀))

theorem always_run (call : ToolCall) :
    Always (contract svc call) Settled [] (call.run svc).run := by
  cases call with
  | create ctx params => exact settled_map always_create
  | update ctx params => exact settled_map always_update
  | delete ctx params => exact settled_map always_delete

end Tools

section Pool

variable {W ι : Type} [DecidableEq ι] {svc : CardDavMcpService} {calls : ι → ToolCall}
  {log a b : List (Act W ι Effect Reply)} {ev : Act W ι Effect Reply}
  {s : W × (ι → Prog Effect Reply (Except ErrorData ToolResult))}

abbrev Kept (svc : CardDavMcpService) (calls : ι → ToolCall) (log : List (Act W ι Effect Reply))
    (s : W × (ι → Prog Effect Reply (Except ErrorData ToolResult))) : Prop :=
  Sound (fun i => contract svc (calls i)) (fun _ => Settled) (fun _ => True) log s

theorem pool_keeps_contract {world : W → (e : Effect) → Reply e → W → Prop} {start : W}
    (h : Run (poolStep world) (start, fun i => ((calls i).run svc).run) log s) :
    Kept svc calls log s :=
  pool_sound (fun _ _ _ _ _ _ _ _ _ => ⟨trivial, trivial⟩) trivial (fun i => always_run (calls i)) h

theorem mem_sendsOf {request : DavRequest} {reply : Except String RawResponse} (hev : ev ∈ log)
    (he : ev.event = ⟨.send request, reply⟩) :
    (request, reply) ∈ sendsOf (traceOf ev.call log) := by
  refine List.mem_filterMap.mpr ⟨ev.event, mem_traceOf hev, ?_⟩
  rw [he]
  rfl

theorem exists_of_sendsOf {i : ι} {x : Sent} (h : x ∈ sendsOf (traceOf i log)) :
    ∃ ev ∈ log, ev.call = i ∧ ev.event = ⟨.send x.1, x.2⟩ := by
  obtain ⟨y, hy, hx⟩ := List.mem_filterMap.mp h
  obtain ⟨ev, hev, hcall, rfl⟩ := exists_of_traceOf hy
  refine ⟨ev, hev, hcall, ?_⟩
  obtain ⟨call, effect, reply, before, after⟩ := ev
  cases effect with
  | send request =>
    obtain rfl := Option.some.inj hx
    rfl
  | _ => cases hx

theorem permitted (hkept : Kept svc calls (a ++ ev :: b) s) {request : DavRequest}
    (he : ev.effect = .send request) :
    Permitted svc (calls ev.call) (sendsOf (traceOf ev.call a)) request :=
  (hkept.acts a ev b rfl).1 request he

omit [DecidableEq ι] in
theorem event_send {request : DavRequest} (he : ev.effect = .send request) :
    ∃ reply, ev.event = ⟨.send request, reply⟩ := by
  obtain ⟨call, effect, reply, before, after⟩ := ev
  cases he
  exact ⟨reply, rfl⟩

/-- A call sends nothing after its write. -/
theorem not_sent_after (hkept : Kept svc calls (a ++ ev :: b) s) {request : DavRequest}
    {reply : Except String RawResponse} (he : ev.event = ⟨.send request, reply⟩)
    (hwrite : IsWrite request)
    {e : Act W ι Effect Reply} (hmem : e ∈ b) (hcall : e.call = ev.call) {request' : DavRequest} :
    e.effect ≠ .send request' := by
  intro he'
  obtain ⟨b₁, b₂, rfl⟩ := List.append_of_mem hmem
  rw [← List.cons_append, ← List.append_assoc] at hkept
  have hsends : (request, reply) ∈ sendsOf (traceOf ev.call (a ++ ev :: b₁)) :=
    mem_sendsOf (by simp) he
  rw [← hcall] at hsends
  exact (permitted hkept he').noWrite _ hsends hwrite

end Pool

end CardDavMcp.WriteContract
