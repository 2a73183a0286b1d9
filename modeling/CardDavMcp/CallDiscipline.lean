import CardDavMcp.BearerConfinement
import CardDavMcp.ResponseLimits
import CardDavMcp.ServiceCalls

namespace CardDavMcp.CallDiscipline

open Library.Utf8Text Library.XmlTree Library.Interaction Library.Runs ToolError Urls RateLimit
  DavError Multistatus DavClient ContactTools ReadTools ContactSearch UpcomingBirthdays
  ResponseLimits ServiceCalls
open LogtoOidc (AuthenticatedIdentity)

/-- How far a call has come: not charged yet, refused by the limiter, admitted,
or turned away by the server. -/
inductive Phase
  | fresh | refused | live | ousted
deriving DecidableEq, Repr

def Phase.next : Phase → (e : Effect) × Reply e → Phase
  | .fresh, ⟨.rateLimitCheck _ _ _, .ok ()⟩ => .live
  | .fresh, ⟨.rateLimitCheck _ _ _, .error _⟩ => .refused
  | .live, ⟨.send _, reply⟩ => if CardDavClient.Rejects reply then .ousted else .live
  | phase, _ => phase

def phaseOf (tr : Trace Effect Reply) : Phase := tr.foldl Phase.next .fresh

@[simp] theorem phaseOf_nil : phaseOf [] = .fresh := rfl

@[simp] theorem phaseOf_snoc (tr : Trace Effect Reply) (x : (e : Effect) × Reply e) :
    phaseOf (tr ++ [x]) = (phaseOf tr).next x := List.foldl_concat ..

theorem phaseOf_append (tr tr' : Trace Effect Reply) :
    phaseOf (tr ++ tr') = tr'.foldl Phase.next (phaseOf tr) := List.foldl_append

@[simp] theorem next_ousted (x : (e : Effect) × Reply e) : Phase.next .ousted x = .ousted := by
  obtain ⟨e, r⟩ := x
  cases e <;> rfl

@[simp] theorem next_refused (x : (e : Effect) × Reply e) : Phase.next .refused x = .refused := by
  obtain ⟨e, r⟩ := x
  cases e <;> rfl

/-- A call that was turned away stays so. -/
theorem foldl_ousted (tr : Trace Effect Reply) : tr.foldl Phase.next .ousted = .ousted := by
  induction tr with
  | nil => rfl
  | cons x tr ih => rwa [List.foldl_cons, next_ousted]

theorem next_live_send {request : DavRequest} (reply : Except String RawResponse) :
    Phase.next .live ⟨.send request, reply⟩ =
      if CardDavClient.Rejects reply then .ousted else .live := rfl

/-- A call gets on only by a charge that was allowed. -/
theorem charged_of_phase {tr : Trace Effect Reply} (h : phaseOf tr = .live ∨ phaseOf tr = .ousted) :
    ∃ bearerHash sub category, ⟨.rateLimitCheck bearerHash sub category, .ok ()⟩ ∈ tr := by
  induction tr using List.reverseRecOn with
  | nil => simp at h
  | append_singleton tr x ih =>
    rw [phaseOf_snoc] at h
    cases hphase : phaseOf tr with
    | fresh =>
      obtain ⟨e, r⟩ := x
      rw [hphase] at h
      cases e with
      | rateLimitCheck bearerHash sub category =>
        cases r with
        | ok u => exact ⟨bearerHash, sub, category, by simp⟩
        | error e => simp [Phase.next] at h
      | _ => simp [Phase.next] at h
    | refused => simp [hphase] at h
    | live | ousted =>
      obtain ⟨bearerHash, sub, category, hmem⟩ := ih (by simp [hphase])
      exact ⟨bearerHash, sub, category, List.mem_append_left _ hmem⟩

/-- Only a rejection by the server turns a call away. -/
theorem rejected_of_ousted {tr : Trace Effect Reply} (h : phaseOf tr = .ousted) :
    ∃ request reply, ⟨.send request, reply⟩ ∈ tr ∧ CardDavClient.Rejects reply := by
  induction tr using List.reverseRecOn with
  | nil => simp at h
  | append_singleton tr x ih =>
    rw [phaseOf_snoc] at h
    cases hphase : phaseOf tr with
    | fresh =>
      obtain ⟨e, r⟩ := x
      rw [hphase] at h
      cases e with
      | rateLimitCheck bearerHash sub category => cases r <;> simp [Phase.next] at h
      | _ => simp [Phase.next] at h
    | refused => simp [hphase] at h
    | live =>
      obtain ⟨e, r⟩ := x
      rw [hphase] at h
      cases e with
      | send request =>
        rw [next_live_send] at h
        split_ifs at h with hrejects
        exact ⟨request, r, by simp, hrejects⟩
      | _ => simp [Phase.next] at h
    | ousted =>
      obtain ⟨request, reply, hmem, hrejects⟩ := ih hphase
      exact ⟨request, reply, List.mem_append_left _ hmem, hrejects⟩

/-- The methods of the requests that a tool sends. -/
def methodsOf : ToolRequest → List Method
  | .whoami | .listAddressBooks => [.propfind]
  | .listContacts _ => [.report]
  | .searchContacts _ | .upcomingBirthdays _ => [.propfind, .report]
  | .createContact _ => [.put]
  | .updateContact _ => [.get, .put]
  | .deleteContact _ => [.delete]

/-- A request with one authorization header, which carries this bearer. -/
def Bears (token : Text) (request : DavRequest) : Prop :=
  request.headers.filter (fun h => h.1 = "authorization") =
    [("authorization", "Bearer ".toList ++ token)]

/-- The charge that a call has to make. -/
def OwnCheck (svc : CardDavMcpService) (call : ServiceCall) (e : Effect) : Prop :=
  ∃ token identity, call.ctx.token = some token ∧ call.ctx.identity = some identity ∧
    e = .rateLimitCheck (svc.tokenHash token) (some identity.userId) call.request.category

def OwnKey (svc : CardDavMcpService) (call : ServiceCall) (key : Key) : Prop :=
  ∃ token, call.ctx.token = some token ∧ key = svc.carddav.hashToken token

/-- Two answers that a bearer got make up what was discovered. -/
structure Discovered (c : CardDavClient) (token : Text) (tr : Trace Effect Reply)
    (discovery : DavDiscovery) : Prop where
  principal : ∃ reply items,
    ⟨.send (CardDavClient.bearerAuth token
      (CardDavClient.propfindRequest c.discoveryUrl "0" CURRENT_USER_PRINCIPAL_BODY)), reply⟩ ∈ tr ∧
    BearerConfinement.multistatus c reply = .ok items ∧
    items.findSome? ParsedDavResponse.currentUserPrincipal = some discovery.principalHref
  home : ∃ url reply items, c.resolveHref discovery.principalHref = .ok url ∧
    ⟨.send (CardDavClient.bearerAuth token
      (CardDavClient.propfindRequest url "0" ADDRESSBOOK_HOME_BODY)), reply⟩ ∈ tr ∧
    BearerConfinement.multistatus c reply = .ok items ∧
    items.findSome? ParsedDavResponse.addressbookHome = some discovery.addressbookHomeHref

/-- What a call may do in which phase. -/
def contract (svc : CardDavMcpService) (call : ServiceCall) : Contract Effect Reply where
  guar tr e := match e with
    | .rateLimitCheck _ _ _ => tr = [] ∧ OwnCheck svc call e
    | .send request => phaseOf tr = .live ∧ request.method ∈ methodsOf call.request ∧
        ∃ token, call.ctx.token = some token ∧ Bears token request
    | .discoveryLookup key => phaseOf tr = .live ∧ OwnKey svc call key
    | .discoveryInsert key discovery => phaseOf tr = .live ∧ ∃ token, call.ctx.token = some token ∧
        key = svc.carddav.hashToken token ∧ Discovered svc.carddav token tr discovery
    | .fillBytes _ => phaseOf tr = .live
    | .discoveryRemove key => phaseOf tr = .ousted ∧ OwnKey svc call key
    | .dropToken token => phaseOf tr = .ousted ∧ call.ctx.token = some token
  rely _ _ := True

theorem appendGeneralRef_error {X : QuickXml} {item : ParsedDavResponse} {kind : Capture}
    {charRef : Except String (Option Char)} {name : Except String Text} {e : CardDavError}
    (h : appendGeneralRef X item kind charRef name = .error e) : ∃ message, e = .xml message := by
  unfold appendGeneralRef at h
  split at h
  · exact ⟨_, (Except.error.inj h).symm⟩
  · cases h
  · split at h
    · exact ⟨_, (Except.error.inj h).symm⟩
    · split at h
      · exact ⟨_, (Except.error.inj h).symm⟩
      · cases h

theorem step_error {X : QuickXml} {state : ParserState} {event : Event} {e : CardDavError}
    (h : step X state event = .error e) : ∃ message, e = .xml message := by
  have htext (content : Except String Text) (h : stepText state content = .error e) :
      ∃ message, e = .xml message := by
    rw [stepText] at h
    split at h
    · cases content with
      | error m => exact ⟨m, (Except.error.inj h).symm⟩
      | ok decoded => cases h
    · cases h
  cases event with
  | startTag name =>
    simp only [step] at h
    split at h <;> cases h
  | emptyTag name => cases h
  | text content | cdata content => exact htext content h
  | generalRef charRef name =>
    simp only [step] at h
    split at h
    · rename_i item kind hcurrent hcapture
      cases hitem : appendGeneralRef X item kind charRef name with
      | ok item' => simp [hitem, bind, Except.bind, pure, Except.pure] at h
      | error e' =>
        obtain rfl : e' = e := by simpa [hitem, bind, Except.bind] using h
        exact appendGeneralRef_error hitem
    · cases h
  | endTag name => cases h
  | other | eof => cases h

theorem parseLoop_error {X : QuickXml} {state : ParserState}
    {events : List (Except String Event)} {e : CardDavError}
    (h : parseLoop X state events = .error e) : ∃ message, e = .xml message := by
  fun_induction parseLoop X state events with
  | case1 => cases h
  | case2 state m events => exact ⟨m, (Except.error.inj h).symm⟩
  | case3 => cases h
  | case4 state event events hne ih =>
    cases hstep : step X state event with
    | error e' =>
      simp only [hstep, bind, Except.bind] at h
      exact Except.error.inj h ▸ step_error hstep
    | ok state' =>
      simp only [hstep, bind, Except.bind] at h
      exact ih state' h

/-- A multistatus that is not read is one of bad XML. -/
theorem parseMultistatus_error {X : QuickXml} {xml : List UInt8} {e : CardDavError}
    (h : parseMultistatus X xml = .error e) : ∃ message, e = .xml message := parseLoop_error h

/-- Only a rejection is told to be one. -/
theorem outcome_unauthorized {c : CardDavClient} {reply : Except String RawResponse} :
    c.outcome reply = .error .unauthorized ↔ CardDavClient.Rejects reply := by
  cases reply with
  | error m => simp [CardDavClient.outcome, CardDavClient.Rejects]
  | ok response =>
    rw [CardDavClient.outcome, CardDavClient.Rejects]
    by_cases hrejected : response.status = 401 ∨ response.status = 403
    · simp [hrejected]
    · simp only [hrejected, if_false, decide_false, Bool.false_eq_true, iff_false]
      intro h
      rw [CardDavClient.receive] at h
      cases hread : readLimited response c.maxResponseBytes with
      | ok body => simp [hread, bind, Except.bind, pure, Except.pure] at h
      | error e =>
        obtain rfl : e = .unauthorized := by simpa [hread, bind, Except.bind] using h
        obtain he | ⟨m, he⟩ := readLimited_error hread
        all_goals exact absurd he (by simp)

section Client

variable {svc : CardDavMcpService} {call : ServiceCall} {tr : Trace Effect Reply} {token : Text}
  {request : DavRequest} {α β : Type}

/-- An operation of the client leaves the call live unless the bearer was
rejected. -/
def Standing (tr : Trace Effect Reply) : Except CardDavError α → Prop
  | .ok _ => phaseOf tr = .live
  | .error e => phaseOf tr = if e = .unauthorized then .ousted else .live

theorem standing_of_live {result : Except CardDavError α} (hlive : phaseOf tr = .live)
    (hresult : result ≠ .error .unauthorized) : Standing tr result := by
  cases result with
  | ok a => exact hlive
  | error e =>
    have he : e ≠ .unauthorized := fun he => hresult (he ▸ rfl)
    rwa [Standing, if_neg he]

theorem standing_bind {p : Dav β} {k : β → Dav α}
    (hp : Always (contract svc call) Standing tr p.run)
    (hk : ∀ tr b, phaseOf tr = .live → Always (contract svc call) Standing tr (k b).run) :
    Always (contract svc call) Standing tr (p >>= k).run := by
  refine always_tryBind.mpr (hp.mono fun tr' result hresult => ?_)
  cases result with
  | ok b => exact hk tr' b hresult
  | error e => exact hresult

/-- A computation of the client's own never claims that the bearer was rejected. -/
theorem standing_settle_bind {x : Except CardDavError β} {k : β → Dav α}
    (hlive : phaseOf tr = .live) (hx : x ≠ .error .unauthorized)
    (hk : ∀ b, x = .ok b → Always (contract svc call) Standing tr (k b).run) :
    Always (contract svc call) Standing tr (settle x >>= k).run := by
  refine always_settle_bind.mpr ?_
  cases x with
  | ok b => exact hk b rfl
  | error e => exact standing_of_live hlive fun he => hx (by cases he; rfl)

theorem bears_bearerAuth (hbare : ∀ h ∈ request.headers, h.1 ≠ "authorization") :
    Bears token (CardDavClient.bearerAuth token request) := by
  have hnone : request.headers.filter (fun h => h.1 = "authorization") = [] := by
    simpa [List.filter_eq_nil_iff] using hbare
  rw [Bears, CardDavClient.bearerAuth, List.filter_append, hnone]
  rfl

/-- A request of a live call, and the answer that a success goes back to. -/
theorem always_send_live (hlive : phaseOf tr = .live) (htoken : call.ctx.token = some token)
    (hmethod : request.method ∈ methodsOf call.request)
    (hbare : ∀ h ∈ request.headers, h.1 ≠ "authorization") :
    Always (contract svc call) (fun tr' result => Standing tr' result ∧ tr <+: tr' ∧
      ∀ response, result = .ok response →
        ∃ reply, ⟨.send (CardDavClient.bearerAuth token request), reply⟩ ∈ tr' ∧
          svc.carddav.outcome reply = .ok response) tr (svc.carddav.send token request).run := by
  refine svc.carddav.always_send ⟨standing_of_live hlive (by simp), List.prefix_rfl, by simp⟩
    ⟨hlive, hmethod, token, htoken, bears_bearerAuth hbare⟩ (fun reply hrejects => ?_)
    (fun reply _ => ⟨?_, List.prefix_append _ _, fun response hresponse => ⟨reply, ?_, hresponse⟩⟩)
  · refine ⟨?_, token, htoken, rfl⟩
    rw [phaseOf_snoc, hlive, next_live_send, if_pos hrejects]
  · rw [CardDavClient.sent]
    split_ifs with hrejects
    · have houtcome := (outcome_unauthorized (c := svc.carddav)).mpr hrejects
      rw [houtcome, Standing, if_pos rfl, List.append_cons, phaseOf_append, phaseOf_snoc, hlive,
        next_live_send, if_pos hrejects, foldl_ousted]
    · refine standing_of_live ?_ fun houtcome => hrejects (outcome_unauthorized.mp houtcome)
      rw [phaseOf_snoc, hlive, next_live_send, if_neg hrejects]
  · rw [CardDavClient.sent]
    simp

theorem standing_send (hlive : phaseOf tr = .live) (htoken : call.ctx.token = some token)
    (hmethod : request.method ∈ methodsOf call.request)
    (hbare : ∀ h ∈ request.headers, h.1 ≠ "authorization") :
    Always (contract svc call) Standing tr (svc.carddav.send token request).run :=
  (always_send_live hlive htoken hmethod hbare).mono fun _ _ h => h.1

theorem resolveHref_ne {c : CardDavClient} {href : Text} :
    c.resolveHref href ≠ .error .unauthorized := by
  intro h
  exact absurd (BearerConfinement.resolveHref_error c h) (by simp)

theorem ensureMultistatus_ne {status : Nat} : ensureMultistatus status ≠ .error .unauthorized := by
  rw [ensureMultistatus]
  split_ifs <;> simp

theorem parseMultistatus_ne {X : QuickXml} {xml : List UInt8} :
    parseMultistatus X xml ≠ .error .unauthorized := by
  intro h
  obtain ⟨m, hm⟩ := parseMultistatus_error h
  exact absurd hm (by simp)

theorem collect_ne {c : CardDavClient} {href : β → Text} {pick : ParsedDavResponse → Option β}
    {items : List ParsedDavResponse} : c.collect href pick items ≠ .error .unauthorized := by
  intro h
  have hspec := BearerConfinement.collect_spec c href pick items
  rw [h] at hspec
  obtain ⟨_, _, _, he⟩ := hspec
  exact absurd he (by simp)

/-- A listing that succeeds goes back to an answer that is a multistatus. -/
theorem always_propfind {url : Url} {depth : String} {body : Text} (hlive : phaseOf tr = .live)
    (htoken : call.ctx.token = some token) (hmethod : .propfind ∈ methodsOf call.request) :
    Always (contract svc call) (fun tr' result => Standing tr' result ∧ tr <+: tr' ∧
      ∀ response items, result = .ok response →
        parseMultistatus svc.carddav.xml response.body = .ok items →
        ∃ reply, ⟨.send (CardDavClient.bearerAuth token
            (CardDavClient.propfindRequest url depth body)), reply⟩ ∈ tr' ∧
          BearerConfinement.multistatus svc.carddav reply = .ok items) tr
      (svc.carddav.propfind token url depth body).run := by
  refine always_tryBind.mpr ((always_send_live hlive htoken hmethod ?_).mono
    fun tr' result ⟨hstanding, hprefix, hok⟩ => ?_)
  · simp [CardDavClient.propfindRequest]
  · cases result with
    | error e => exact ⟨hstanding, hprefix, by simp⟩
    | ok response =>
      apply always_settle_bind.mpr
      cases hstatus : ensureMultistatus response.status with
      | error e =>
        refine ⟨standing_of_live hstanding fun he => ?_, hprefix, by simp⟩
        exact ensureMultistatus_ne (hstatus.trans (by cases he; rfl))
      | ok u =>
        refine always_pure.mpr ⟨hstanding, hprefix, fun response' items hresponse hparse => ?_⟩
        cases hresponse
        obtain ⟨reply, hmem, houtcome⟩ := hok response rfl
        refine ⟨reply, hmem, ?_⟩
        simp [BearerConfinement.multistatus, houtcome, hstatus, hparse, bind, Except.bind]

/-- Only what two answers to the bearer said is put into the cache. -/
theorem standing_discover (hlive : phaseOf tr = .live) (htoken : call.ctx.token = some token)
    (hmethod : .propfind ∈ methodsOf call.request) :
    Always (contract svc call) Standing tr (svc.carddav.discover token).run := by
  refine always_ask_bind.mpr ⟨⟨hlive, token, htoken, rfl⟩, fun found _ => ?_⟩
  have hlooked : phaseOf (tr ++ [⟨.discoveryLookup (svc.carddav.hashToken token), found⟩]) =
      .live := by
    rw [phaseOf_snoc, hlive]
    rfl
  cases found with
  | some discovery => exact always_pure.mpr hlooked
  | none =>
    refine always_tryBind.mpr ((always_propfind hlooked htoken hmethod).mono
      fun tr₁ result ⟨hlive₁, _, hprincipal⟩ => ?_)
    cases result with
    | error e => exact hlive₁
    | ok principalResponse =>
      refine standing_settle_bind hlive₁ parseMultistatus_ne fun items hparse => ?_
      obtain ⟨reply, hmem, hitems⟩ := hprincipal _ _ rfl hparse
      split
      · exact always_throw.mpr (standing_of_live hlive₁ (by simp))
      · rename_i principalHref hfound
        refine standing_settle_bind hlive₁ resolveHref_ne fun principalUrl hresolve => ?_
        refine always_tryBind.mpr ((always_propfind hlive₁ htoken hmethod).mono
          fun tr₂ result ⟨hlive₂, hprefix, hhome⟩ => ?_)
        cases result with
        | error e => exact hlive₂
        | ok homeResponse =>
          refine standing_settle_bind hlive₂ parseMultistatus_ne fun items' hparse' => ?_
          obtain ⟨reply', hmem', hitems'⟩ := hhome _ _ rfl hparse'
          split
          · exact always_throw.mpr (standing_of_live hlive₂ (by simp))
          · rename_i addressbookHomeHref hfound'
            refine standing_settle_bind hlive₂ resolveHref_ne fun _ _ => ?_
            refine always_ask_bind.mpr ⟨⟨hlive₂, token, htoken, rfl, ?_⟩, fun _ _ => ?_⟩
            · exact ⟨⟨reply, items, hprefix.subset hmem, hitems, hfound⟩,
                principalUrl, reply', items', hresolve, hmem', hitems', hfound'⟩
            · refine always_pure.mpr ?_
              rw [Standing, phaseOf_snoc, hlive₂]
              rfl

theorem standing_listAddressBooks (hlive : phaseOf tr = .live)
    (htoken : call.ctx.token = some token) (hmethod : .propfind ∈ methodsOf call.request) :
    Always (contract svc call) Standing tr (svc.carddav.listAddressBooks token).run := by
  refine standing_bind (standing_discover hlive htoken hmethod) fun tr discovery hlive => ?_
  refine standing_settle_bind hlive resolveHref_ne fun homeUrl _ => ?_
  refine standing_bind ((always_propfind hlive htoken hmethod).mono fun _ _ h => h.1)
    fun tr response hlive => ?_
  refine standing_settle_bind hlive parseMultistatus_ne fun parsed _ => ?_
  exact always_settle.mpr (standing_of_live hlive collect_ne)

theorem standing_queryContacts {href body : Text} (hlive : phaseOf tr = .live)
    (htoken : call.ctx.token = some token) (hmethod : .report ∈ methodsOf call.request) :
    Always (contract svc call) Standing tr (svc.carddav.queryContacts token href body).run := by
  refine standing_settle_bind hlive resolveHref_ne fun url _ => ?_
  refine standing_bind (standing_send hlive htoken hmethod ?_) fun tr response hlive => ?_
  · simp [CardDavClient.reportRequest]
  refine standing_settle_bind hlive ensureMultistatus_ne fun _ _ => ?_
  refine standing_settle_bind hlive parseMultistatus_ne fun parsed _ => ?_
  exact always_settle.mpr (standing_of_live hlive collect_ne)

theorem standing_searchContacts {href query : Text} (hlive : phaseOf tr = .live)
    (htoken : call.ctx.token = some token) (hmethod : .report ∈ methodsOf call.request) :
    Always (contract svc call) Standing tr (svc.carddav.searchContacts token href query).run := by
  refine standing_settle_bind hlive ?_ fun _ _ => standing_queryContacts hlive htoken hmethod
  rw [CardDavClient.checkQuery]
  split_ifs <;> simp

/-- What an operation makes of a response's status. -/
theorem standing_throw {e : CardDavError} (hlive : phaseOf tr = .live) (he : e ≠ .unauthorized) :
    Always (contract svc call) Standing tr (throw e : Dav α).run :=
  always_throw.mpr (standing_of_live hlive fun h => he (Except.error.inj h))

theorem standing_getContact {href : Text} (hlive : phaseOf tr = .live)
    (htoken : call.ctx.token = some token) (hmethod : .get ∈ methodsOf call.request) :
    Always (contract svc call) Standing tr (svc.carddav.getContact token href).run := by
  refine standing_settle_bind hlive resolveHref_ne fun url _ => ?_
  refine standing_bind (standing_send hlive htoken hmethod ?_) fun tr response hlive => ?_
  · simp [CardDavClient.getRequest]
  split_ifs
  · refine standing_settle_bind hlive ?_ fun vcard _ => always_pure.mpr hlive
    rw [CardDavClient.fromUtf8]
    split <;> simp
  · exact standing_throw hlive (by simp)
  · exact standing_throw hlive (by simp)

theorem standing_createContact {href uid vcard : Text} (hlive : phaseOf tr = .live)
    (htoken : call.ctx.token = some token) (hmethod : .put ∈ methodsOf call.request) :
    Always (contract svc call) Standing tr
      (svc.carddav.createContact token href uid vcard).run := by
  refine standing_settle_bind hlive resolveHref_ne fun url _ => ?_
  refine standing_settle_bind hlive ?_ fun url _ => ?_
  · rw [CardDavClient.contactUrl]
    split <;> simp
  refine standing_bind (standing_send hlive htoken hmethod ?_) fun tr response hlive => ?_
  · simp [CardDavClient.putRequest]
  split_ifs
  · exact always_pure.mpr hlive
  · exact standing_throw hlive (by simp)
  · exact standing_throw hlive (by simp)

theorem standing_updateContact {href vcard : Text} {etag : Option Text} (hlive : phaseOf tr = .live)
    (htoken : call.ctx.token = some token) (hmethod : .put ∈ methodsOf call.request) :
    Always (contract svc call) Standing tr
      (svc.carddav.updateContact token href etag vcard).run := by
  refine standing_settle_bind hlive resolveHref_ne fun url _ => ?_
  refine standing_bind (standing_send hlive htoken hmethod ?_) fun tr response hlive => ?_
  · simp [CardDavClient.putRequest]
  split_ifs
  · exact always_pure.mpr hlive
  all_goals exact standing_throw hlive (by simp)

theorem standing_deleteContact {href : Text} {etag : Option Text} (hlive : phaseOf tr = .live)
    (htoken : call.ctx.token = some token) (hmethod : .delete ∈ methodsOf call.request) :
    Always (contract svc call) Standing tr (svc.carddav.deleteContact token href etag).run := by
  refine standing_settle_bind hlive resolveHref_ne fun url _ => ?_
  refine standing_bind (standing_send hlive htoken hmethod ?_) fun tr response hlive => ?_
  · simp [CardDavClient.deleteRequest]
  split_ifs
  · exact always_pure.mpr hlive
  all_goals exact standing_throw hlive (by simp)

end Client

section Tools

/-- An error about the arguments of a call, or one inside the service. -/
def Ordinary (e : ErrorData) : Prop :=
  ∃ message, e = invalidParams message ∨ e = internalError message

theorem Ordinary.code_ne {e : ErrorData} (h : Ordinary e) :
    e.code ≠ AUTH_EXPIRED_CODE ∧ e.code ≠ RATE_LIMITED_CODE := by
  obtain ⟨m, rfl | rfl⟩ := h
  · simp [invalidParams, AUTH_EXPIRED_CODE, RATE_LIMITED_CODE]
  · simp [internalError, AUTH_EXPIRED_CODE, RATE_LIMITED_CODE]

theorem ordinary_invalidParams (message : String) : Ordinary (invalidParams message) :=
  ⟨message, .inl rfl⟩

theorem ordinary_mapCarddavErr {e : CardDavError} (he : e ≠ .unauthorized) :
    Ordinary (mapCarddavErr e) := by
  cases e with
  | unauthorized => exact absurd rfl he
  | notFound | conflict | tooLarge | invalidHref | invalidData => exact ⟨_, .inl rfl⟩
  | http | upstream | xml => exact ⟨_, .inr rfl⟩

variable {α β : Type}

/-- A check of the service's own fails with an ordinary error only. -/
def Plain (x : Except ErrorData α) : Prop := ∀ e, x = .error e → Ordinary e

theorem plain_bind {x : Except ErrorData β} {k : β → Except ErrorData α} (hx : Plain x)
    (hk : ∀ b, Plain (k b)) : Plain (x >>= k) := by
  intro e he
  cases x with
  | error e' => exact hx e (congrArg Except.error (Except.error.inj he))
  | ok b => exact hk b e he

theorem plain_ok (a : α) : Plain (.ok a : Except ErrorData α) := fun _ h => by cases h

theorem plain_invalidParams (message : String) :
    Plain (.error (invalidParams message) : Except ErrorData α) := by
  rintro _ ⟨⟩
  exact ordinary_invalidParams message

theorem plain_validateUid (uid : Text) : Plain (Contact.validateUid uid) := by
  rw [Contact.validateUid]
  split_ifs
  · exact plain_invalidParams _
  · exact plain_ok ()

theorem plain_checkFieldBytes (name : String) (value : Option Text) (max : Nat) :
    Plain (Contact.checkFieldBytes name value max) := by
  rw [Contact.checkFieldBytes]
  split_ifs
  · exact plain_invalidParams _
  · exact plain_ok ()

theorem plain_throw_bind (message : String) (k : β → Except ErrorData α) :
    Plain (throw (invalidParams message) >>= k) := by
  rintro _ ⟨⟩
  exact ordinary_invalidParams message

theorem plain_validateContactInput (contact : Contact.ContactInput) :
    Plain (Contact.validateContactInput contact) := by
  rw [Contact.validateContactInput]
  by_cases hname : (trim contact.fullName).isEmpty
  · rw [if_pos hname]
    exact plain_throw_bind _ _
  rw [if_neg hname]
  repeat refine plain_bind (plain_checkFieldBytes _ _ _) fun _ => ?_
  dsimp only
  by_cases hcount : contact.emails.length > Contact.MAX_MULTI_VALUES ||
      contact.phones.length > Contact.MAX_MULTI_VALUES
  · rw [if_pos hcount]
    exact plain_throw_bind _ _
  rw [if_neg hcount]
  by_cases hsize : (contact.emails ++ contact.phones).any
      (fun value => byteLen value > Contact.MAX_CONTACT_FIELD_BYTES)
  · rw [if_pos hsize]
    exact plain_throw_bind _ _
  rw [if_neg hsize]
  cases contact.uid with
  | none => exact plain_ok ()
  | some uid => exact plain_validateUid uid

theorem plain_buildVcard (contact : Contact.ContactInput) (uid : Text) :
    Plain (Vcard.buildVcard contact uid) := by
  rw [Vcard.buildVcard]
  refine plain_bind (plain_validateUid uid) fun _ => ?_
  dsimp only
  split
  · exact plain_throw_bind _ _
  · exact plain_ok _

theorem plain_keptUid (stored : Text) (contact : Contact.ContactInput) :
    Plain (keptUid stored contact) := by
  rw [keptUid]
  split
  · exact plain_invalidParams _
  · split_ifs
    · exact plain_invalidParams _
    · exact plain_ok _

theorem plain_identityFromCtx (ctx : RequestContext) : Plain (identityFromCtx ctx) := by
  intro e he
  rw [identityFromCtx] at he
  split at he
  · cases he
  · exact ⟨_, .inr (Except.error.inj he).symm⟩

theorem plain_validatedLimit (limit : Nat) : Plain (validatedLimit limit) := by
  rw [validatedLimit]
  split_ifs
  · exact plain_invalidParams _
  · exact plain_ok _

theorem plain_checkDays (days : Nat) : Plain (checkDays days) := by
  rw [checkDays]
  split_ifs
  · exact plain_invalidParams _
  · exact plain_ok _

theorem plain_referenceDay (chrono : Chrono) (referenceDate : Option Text) :
    Plain (referenceDay chrono referenceDate) := by
  rw [referenceDay.eq_def]
  split
  · exact plain_ok _
  · split
    · exact plain_ok _
    · exact plain_invalidParams _

variable {svc : CardDavMcpService} {call : ServiceCall} {tr : Trace Effect Reply} {token : Text}

def RATE_LIMITED : ErrorData := ⟨RATE_LIMITED_CODE, "rate limit exceeded - try again in a minute"⟩

/-- What the body of a tool makes of each phase. -/
def Going (call : ServiceCall) (tr : Trace Effect Reply) : Except ErrorData α → Prop
  | .ok _ => phaseOf tr = .live
  | .error e => match phaseOf tr with
    | .fresh | .live => Ordinary e
    | .refused => e = RATE_LIMITED
    | .ousted => e.code = AUTH_EXPIRED_CODE ∧ call.ctx.token.isSome

theorem going_of_live {result : Except ErrorData α} (hlive : phaseOf tr = .live)
    (hresult : Plain result) : Going call tr result := by
  cases result with
  | ok a => exact hlive
  | error e =>
    rw [Going, hlive]
    exact hresult e rfl

theorem going_bind {p : Tool β} {k : β → Tool α}
    (hp : Always (contract svc call) (Going call) tr p.run)
    (hk : ∀ tr b, phaseOf tr = .live → Always (contract svc call) (Going call) tr (k b).run) :
    Always (contract svc call) (Going call) tr (p >>= k).run := by
  refine always_tryBind.mpr (hp.mono fun tr' result hresult => ?_)
  cases result with
  | ok b => exact hk tr' b hresult
  | error e => exact hresult

theorem going_settle_bind {x : Except ErrorData β} {k : β → Tool α} (hlive : phaseOf tr = .live)
    (hx : Plain x)
    (hk : ∀ b, x = .ok b → Always (contract svc call) (Going call) tr (k b).run) :
    Always (contract svc call) (Going call) tr (settle x >>= k).run := by
  refine always_settle_bind.mpr ?_
  cases x with
  | ok b => exact hk b rfl
  | error e =>
    dsimp only
    rw [Going, hlive]
    exact hx e rfl

theorem going_adapt {p : Dav α} (htoken : call.ctx.token = some token)
    (h : Always (contract svc call) Standing tr p.run) :
    Always (contract svc call) (Going call) tr (p.adapt mapCarddavErr).run := by
  refine always_adapt.mpr (h.mono fun tr' result hresult => ?_)
  cases result with
  | ok a => exact hresult
  | error e =>
    rw [Standing] at hresult
    rw [Except.mapError, Going]
    split_ifs at hresult with he
    · rw [hresult, he, htoken]
      exact ⟨rfl, rfl⟩
    · rw [hresult]
      exact ordinary_mapCarddavErr he

/-- The charge comes first, and only a call that is charged goes on. -/
theorem going_charged {k : Unit → Tool α}
    (hk : ∀ tr token, call.ctx.token = some token → phaseOf tr = .live →
      Always (contract svc call) (Going call) tr (k ()).run) :
    Always (contract svc call) (Going call) []
      (svc.rateLimitCheck call.ctx call.request.category >>= k).run := by
  have hfailed (e : ErrorData) (he : Ordinary e) : Going call [] (.error e : Except ErrorData α) :=
    he
  cases htoken : call.ctx.token with
  | none =>
    simp only [CardDavMcpService.rateLimitCheck, tokenFromCtx, htoken]
    exact hfailed missingTokenErr ⟨_, .inr rfl⟩
  | some token =>
    cases hidentity : call.ctx.identity with
    | none =>
      simp only [CardDavMcpService.rateLimitCheck, tokenFromCtx, htoken, identityFromCtx, hidentity]
      exact hfailed missingIdentityErr ⟨_, .inr rfl⟩
    | some identity =>
      simp only [CardDavMcpService.rateLimitCheck, tokenFromCtx, htoken, identityFromCtx, hidentity]
      refine always_tryBind.mpr (always_ask_bind.mpr
        ⟨⟨rfl, token, identity, htoken, hidentity, rfl⟩, fun decision _ => ?_⟩)
      cases decision with
      | ok u => exact hk _ token htoken rfl
      | error e => exact rfl

theorem settle_tokenFromCtx {k : Text → Tool α} (htoken : call.ctx.token = some token) :
    (settle (tokenFromCtx call.ctx) >>= k) = k token := by
  rw [tokenFromCtx, htoken]
  rfl

/-- How a call stands when it returns. One that was turned away has asked both
caches to forget its bearer. -/
def Ends (svc : CardDavMcpService) (call : ServiceCall) (tr : Trace Effect Reply) :
    Except ErrorData α → Prop
  | .ok _ => phaseOf tr = .live
  | .error e => match phaseOf tr with
    | .fresh | .live => Ordinary e
    | .refused => e = RATE_LIMITED
    | .ousted => e = ⟨AUTH_EXPIRED_CODE, SESSION_EXPIRED⟩ ∧ ∃ token, call.ctx.token = some token ∧
        ⟨.discoveryRemove (svc.carddav.hashToken token), ()⟩ ∈ tr ∧ ⟨.dropToken token, ()⟩ ∈ tr

theorem ends_reactToAuthExpiry {p : Tool α}
    (h : Always (contract svc call) (Going call) tr p.run) :
    Always (contract svc call) (Ends svc call) tr (svc.reactToAuthExpiry call.ctx p).run := by
  refine always_tryCatch.mpr (h.mono fun tr' result hresult => ?_)
  cases result with
  | ok a => exact hresult
  | error e =>
    rw [Going] at hresult
    dsimp only
    cases hphase : phaseOf tr' with
    | fresh | live =>
      rw [hphase] at hresult
      rw [if_pos hresult.code_ne.1]
      refine always_throw.mpr ?_
      rw [Ends, hphase]
      exact hresult
    | refused =>
      rw [hphase] at hresult
      subst hresult
      rw [if_pos (by decide)]
      refine always_throw.mpr ?_
      rw [Ends, hphase]
    | ousted =>
      rw [hphase] at hresult
      obtain ⟨hcode, hsome⟩ := hresult
      obtain ⟨token, htoken⟩ := Option.isSome_iff_exists.mp hsome
      rw [if_neg (not_not.mpr hcode), htoken]
      refine always_ask_bind.mpr ⟨⟨hphase, token, htoken, rfl⟩, fun _ _ => ?_⟩
      refine always_ask_bind.mpr ⟨⟨by simp [hphase], htoken⟩, fun _ _ => ?_⟩
      refine always_throw.mpr ?_
      rw [Ends, phaseOf_snoc, phaseOf_snoc, hphase, next_ousted, next_ousted]
      exact ⟨rfl, token, htoken, by simp, by simp⟩

theorem ends_map {p : Tool β} {f : β → α}
    (h : Always (contract svc call) (Ends svc call) tr p.run) :
    Always (contract svc call) (Ends svc call) tr (p >>= fun b => pure (f b)).run := by
  refine always_tryBind.mpr (h.mono fun tr' result hresult => ?_)
  cases result with
  | ok b => exact always_pure.mpr hresult
  | error e => exact hresult

theorem going_pure (a : α) (hlive : phaseOf tr = .live) :
    Always (contract svc call) (Going call) tr (pure a : Tool α).run := always_pure.mpr hlive

theorem going_hrefsOf {addressbookHref : Option Text} (hlive : phaseOf tr = .live)
    (htoken : call.ctx.token = some token) (hmethod : .propfind ∈ methodsOf call.request) :
    Always (contract svc call) (Going call) tr (hrefsOf svc token addressbookHref).run := by
  cases addressbookHref with
  | some href => exact going_pure [href] hlive
  | none =>
    refine going_bind (going_adapt htoken (standing_listAddressBooks hlive htoken hmethod)) ?_
    exact fun tr books hlive => going_pure _ hlive

/-- A walk over address books leaves the call live unless one of them turns it
away. -/
theorem going_walk {ι σ : Type} {ask : ι → Tool β} {step : σ → β → σ} {stop : σ → Bool}
    (hask : ∀ i tr, phaseOf tr = .live → Always (contract svc call) (Going call) tr (ask i).run)
    {is : List ι} {s : σ} (hlive : phaseOf tr = .live) :
    Always (contract svc call) (Going call) tr (walk ask step stop is s).run := by
  refine always_walk (fun i tr s hlive => (hask i tr hlive).mono fun tr' answer h => ?_) hlive
  cases answer with
  | ok b => exact h
  | error e => exact h

theorem ends_run (chrono : Chrono) (call : ServiceCall) :
    Always (contract svc call) (Ends svc call) [] (call.run svc chrono).run := by
  obtain ⟨ctx, request⟩ := call
  cases request with
  | whoami =>
    refine ends_map (ends_reactToAuthExpiry (going_charged fun tr token htoken hlive => ?_))
    rw [settle_tokenFromCtx htoken]
    refine going_settle_bind hlive (plain_identityFromCtx _) fun identity _ => ?_
    refine going_bind (going_adapt htoken (standing_discover hlive htoken (by simp [methodsOf]))) ?_
    exact fun tr discovery hlive => going_pure _ hlive
  | listAddressBooks =>
    refine ends_map (ends_reactToAuthExpiry (going_charged fun tr token htoken hlive => ?_))
    rw [settle_tokenFromCtx htoken]
    refine going_bind (going_adapt htoken
      (standing_listAddressBooks hlive htoken (by simp [methodsOf]))) ?_
    exact fun tr books hlive => going_pure _ hlive
  | listContacts params =>
    refine ends_map (ends_reactToAuthExpiry (going_charged fun tr token htoken hlive => ?_))
    refine going_settle_bind hlive (plain_validatedLimit _) fun limit _ => ?_
    rw [settle_tokenFromCtx htoken]
    refine going_bind (going_adapt htoken
      (standing_queryContacts hlive htoken (by simp [methodsOf]))) ?_
    exact fun tr contacts hlive => going_pure _ hlive
  | searchContacts params =>
    refine ends_map (ends_reactToAuthExpiry (going_charged fun tr token htoken hlive => ?_))
    refine going_settle_bind hlive (plain_validatedLimit _) fun limit _ => ?_
    dsimp only
    by_cases hquery : (trim params.query).isEmpty
    · rw [if_pos hquery]
      exact always_throw.mpr (going_of_live hlive (plain_invalidParams _))
    rw [if_neg hquery, settle_tokenFromCtx htoken]
    refine going_bind (going_hrefsOf hlive htoken (by simp [methodsOf])) fun tr hrefs hlive => ?_
    refine going_bind (going_walk (fun href tr hlive => going_adapt htoken
      (standing_searchContacts hlive htoken (by simp [methodsOf]))) hlive) ?_
    exact fun tr found hlive => going_pure _ hlive
  | upcomingBirthdays params =>
    refine ends_map (ends_reactToAuthExpiry (going_charged fun tr token htoken hlive => ?_))
    refine going_settle_bind hlive (plain_checkDays _) fun _ _ => ?_
    refine going_settle_bind hlive (plain_referenceDay _ _) fun today _ => ?_
    rw [settle_tokenFromCtx htoken]
    refine going_bind (going_hrefsOf hlive htoken (by simp [methodsOf])) fun tr hrefs hlive => ?_
    refine going_bind (going_walk (fun href tr hlive => going_adapt htoken
      (standing_queryContacts hlive htoken (by simp [methodsOf]))) hlive) ?_
    exact fun tr scan hlive => going_pure _ hlive
  | createContact params =>
    refine ends_map (ends_reactToAuthExpiry (going_charged fun tr token htoken hlive => ?_))
    refine going_settle_bind hlive (plain_validateContactInput _) fun _ _ => ?_
    rw [settle_tokenFromCtx htoken]
    have hwrite (tr : Trace Effect Reply) (uid : Text) (hlive : phaseOf tr = .live) :
        Always (contract svc ⟨ctx, .createContact params⟩) (Going ⟨ctx, .createContact params⟩) tr
          (do
            settle (Contact.validateUid uid)
            let vcard ← settle (Vcard.buildVcard params.contact uid)
            let written ← (svc.carddav.createContact token params.addressbookHref uid
              vcard).adapt mapCarddavErr
            return ⟨written.href, written.etag, uid⟩ : Tool ContactWriteResult).run := by
      refine going_settle_bind hlive (plain_validateUid uid) fun _ _ => ?_
      refine going_settle_bind hlive (plain_buildVcard _ _) fun vcard _ => ?_
      refine going_bind (going_adapt htoken
        (standing_createContact hlive htoken (by simp [methodsOf]))) ?_
      exact fun tr written hlive => going_pure _ hlive
    cases params.contact.uid with
    | some uid => exact hwrite tr uid hlive
    | none =>
      refine going_bind (always_ask_bind.mpr ⟨hlive, fun bytes _ => ?_⟩)
        fun tr uid hlive => hwrite tr uid hlive
      refine going_pure _ ?_
      rw [phaseOf_snoc, hlive]
      rfl
  | updateContact params =>
    refine ends_map (ends_reactToAuthExpiry (going_charged fun tr token htoken hlive => ?_))
    refine going_settle_bind hlive (plain_validateContactInput _) fun _ _ => ?_
    rw [settle_tokenFromCtx htoken]
    refine going_bind (going_adapt htoken
      (standing_getContact hlive htoken (by simp [methodsOf]))) fun tr existing hlive => ?_
    refine going_settle_bind hlive (plain_keptUid _ _) fun existingUid _ => ?_
    refine going_settle_bind hlive (plain_buildVcard _ _) fun vcard _ => ?_
    refine going_bind (going_adapt htoken
      (standing_updateContact hlive htoken (by simp [methodsOf]))) ?_
    exact fun tr written hlive => going_pure _ hlive
  | deleteContact params =>
    refine ends_map (ends_reactToAuthExpiry (going_charged fun tr token htoken hlive => ?_))
    rw [settle_tokenFromCtx htoken]
    refine going_bind (going_adapt htoken
      (standing_deleteContact hlive htoken (by simp [methodsOf]))) ?_
    exact fun tr _ hlive => going_pure _ hlive

/-- A call keeps to what is asked of the methods of its tool alone. -/
theorem always_of_methods {C : Contract Effect Reply} (chrono : Chrono) (call : ServiceCall)
    (h : ∀ tr e, (∀ request, e = .send request → request.method ∈ methodsOf call.request) →
      C.guar tr e) :
    Always C (fun _ _ => True) [] (call.run svc chrono).run := by
  refine ((ends_run chrono call).mono fun _ _ _ => trivial).weaken
    (fun tr e hguar => h tr e fun request he => ?_) fun _ _ _ => trivial
  subst he
  exact hguar.2.1

end Tools

end CardDavMcp.CallDiscipline
