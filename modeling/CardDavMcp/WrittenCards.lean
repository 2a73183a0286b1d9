import CardDavMcp.CallRuns
import CardDavMcp.CardUpdates
import CardDavMcp.Listings
import CardDavMcp.VcardGrammar
import CardDavMcp.WriteHrefs

namespace CardDavMcp.WrittenCards

open Library.Utf8Text Library.XmlTree Library.Interaction ToolError Contact VcardFold Vcard
  VcardLines Urls DavClient ContactTools ReadTools ContactSearch UpcomingBirthdays ServiceCalls
  MultistatusTree Listings
open CardUpdates (keptUid_ok)
open VcardGrammar (mem_intercalate)

/-- The carriage returns of a card of whole lines are in its line breaks, so
replacing these replaces all of them. -/
theorem replaceCrLf_endLines {lines : List FoldedLine} (h : ∀ f ∈ lines, '\r' ∉ f.line) :
    '\r' ∉ replaceCrLf (endLines lines) := by
  have hrows : ∀ row ∈ lines.flatMap FoldedLine.rows ++ [[]], '\r' ∉ row := by
    intro row hrow
    rw [List.mem_append, List.mem_flatMap, List.mem_singleton] at hrow
    obtain ⟨f, hf, hrow⟩ | rfl := hrow
    · exact not_mem_row (by decide) (by decide) (h f hf) row hrow
    · exact List.not_mem_nil
  rw [endLines_rows, replaceCrLf_intercalate hrows, mem_intercalate (by decide)]
  rintro ⟨row, hrow, hmem⟩
  exact hrows row hrow hmem

/-- What XML makes of the line breaks of a generated card does not change how it
is read. -/
theorem parseVcard_replaceCrLf {contact : ContactInput} {uid v : Text}
    (h : buildVcard contact uid = .ok v) : parseVcard (replaceCrLf v) = parseVcard v := by
  obtain ⟨folded, hlines, hjoin⟩ := joinLines_eq_endLines (vcardLines contact uid)
  have hcr : '\r' ∉ replaceCrLf v := by
    rw [(buildVcard_ok h).2, hjoin]
    apply replaceCrLf_endLines
    intro f hf
    have hline := List.mem_map_of_mem hf (f := FoldedLine.line)
    rw [hlines, vcardLines_eq] at hline
    obtain ⟨p, hp, hline⟩ := List.mem_map.mp hline
    rw [← hline]
    exact (contentLine_propertyLine (mem_vcardProperties hp).1 (mem_vcardProperties hp).2).noCr
  rw [parseVcard, unfoldVcardLines, replaceCrLf_of_not_mem hcr, parseVcard, unfoldVcardLines]

/-- The contact that a call is to write. -/
def contactIn : ToolRequest → Option ContactInput
  | .createContact params => some params.contact
  | .updateContact params => some params.contact
  | _ => none

/-- Where a call writes the card with a UID. -/
def Target (c : CardDavClient) (uid : Text) (url : Url) : ToolRequest → Prop
  | .createContact params => WriteHrefs.newUrl c params.addressbookHref uid = .ok url
  | .updateContact params => c.resolveHref params.contactHref = .ok url
  | _ => False

/-- A request writes the contact that its call was given, under a UID. -/
structure Writes (svc : CardDavMcpService) (call : ServiceCall) (request : DavRequest)
    (contact : ContactInput) (uid : Text) : Prop where
  put : request.method = .put
  given : contactIn call.request = some contact
  valid : validateContactInput contact = .ok ()
  asked : ∀ asked, contact.uid = some asked → asked = uid
  target : Target svc.carddav uid request.url call.request
  built : buildVcard contact uid = .ok request.body

def contract (svc : CardDavMcpService) (call : ServiceCall) : Contract Effect Reply where
  guar _ e := ∀ request, e = .send request → request.method = .put →
    ∃ contact uid, Writes svc call request contact uid
  rely _ _ := True

section Tools

variable {svc : CardDavMcpService} {call : ServiceCall} {tr : Trace Effect Reply} {token : Text}
  {ε α β : Type}

/-- After any trace, all that a program puts is what its call may write. -/
def Keeps (svc : CardDavMcpService) (call : ServiceCall) (p : Fallible ε α) : Prop :=
  ∀ tr, Always (contract svc call) (fun _ _ => True) tr p.run

theorem Keeps.bind {p : Fallible ε β} {k : β → Fallible ε α} (hp : Keeps svc call p)
    (hk : ∀ b, Keeps svc call (k b)) : Keeps svc call (p >>= k) := by
  intro tr
  refine always_tryBind.mpr ((hp tr).mono fun tr' result _ => ?_)
  cases result with
  | ok b => exact hk b tr'
  | error e => trivial

theorem keeps_settle_bind {x : Except ε β} {k : β → Fallible ε α}
    (hk : ∀ b, x = .ok b → Keeps svc call (k b)) : Keeps svc call (settle x >>= k) := by
  intro tr
  apply always_settle_bind.mpr
  cases x with
  | ok b => exact hk b rfl tr
  | error e => trivial

theorem keeps_pure (a : α) : Keeps svc call (pure a : Fallible ε α) := fun _ => trivial

theorem keeps_throw (e : ε) : Keeps svc call (throw e : Fallible ε α) := fun _ => trivial

theorem keeps_ask {e : Effect} (he : ∀ request, e ≠ .send request) :
    Keeps svc call (ask e : Fallible ε (Reply e)) :=
  fun _ => ⟨fun request hsend => absurd hsend (he request), fun _ _ => trivial⟩

theorem Keeps.adapt {p : Dav α} (h : Keeps svc call p) :
    Keeps svc call (p.adapt DavError.mapCarddavErr) :=
  fun tr => always_adapt.mpr (h tr)

theorem keeps_send {request : DavRequest}
    (hput : request.method = .put →
      ∃ contact uid, Writes svc call (CardDavClient.bearerAuth token request) contact uid) :
    Keeps svc call (svc.carddav.send token request) := by
  intro tr
  refine svc.carddav.always_send trivial ?_ (fun _ _ => ?_) fun _ _ => trivial
  · rintro _ ⟨⟩ hmethod
    exact hput hmethod
  · rintro _ ⟨⟩

theorem keeps_rateLimitCheck (ctx : RequestContext) (category : RateLimit.Category) :
    Keeps svc call (svc.rateLimitCheck ctx category) := by
  refine keeps_settle_bind fun token _ => keeps_settle_bind fun identity _ => ?_
  refine (keeps_ask fun _ => Effect.noConfusion).bind fun decision => ?_
  cases decision with
  | ok u => exact keeps_pure ()
  | error e => exact keeps_throw _

theorem Keeps.react {ctx : RequestContext} {p : Tool α} (h : Keeps svc call p) :
    Keeps svc call (svc.reactToAuthExpiry ctx p) := by
  intro tr
  refine always_tryCatch.mpr ((h tr).mono fun tr' result _ => ?_)
  cases result with
  | ok a => trivial
  | error error =>
    dsimp only
    split_ifs
    · trivial
    · cases ctx.token with
      | none => trivial
      | some token =>
        have hforget : Keeps svc call (do
            svc.carddav.evict token
            ask (Effect.dropToken token)
            throw ⟨AUTH_EXPIRED_CODE, SESSION_EXPIRED⟩ : Tool α) :=
          (keeps_ask fun _ => Effect.noConfusion).bind fun _ =>
            (keeps_ask fun _ => Effect.noConfusion).bind fun _ => keeps_throw _
        exact hforget tr'

theorem keeps_create {ctx : RequestContext} {params : CreateContactParams} :
    Keeps svc ⟨ctx, .createContact params⟩ (svc.createContact ctx params) := by
  refine ((keeps_rateLimitCheck ctx .write).bind fun _ => ?_).react
  refine keeps_settle_bind fun _ hvalid => keeps_settle_bind fun token _ => ?_
  have hwrite (uid : Text) (hasked : ∀ asked, params.contact.uid = some asked → asked = uid) :
      Keeps svc ⟨ctx, .createContact params⟩ (do
        settle (validateUid uid)
        let vcard ← settle (buildVcard params.contact uid)
        let written ← (svc.carddav.createContact token params.addressbookHref uid
          vcard).adapt DavError.mapCarddavErr
        return ⟨written.href, written.etag, uid⟩ : Tool ContactWriteResult) := by
    refine keeps_settle_bind fun _ _ => keeps_settle_bind fun vcard hbuilt => ?_
    refine Keeps.bind (Keeps.adapt ?_) fun written => keeps_pure _
    refine keeps_settle_bind fun book hbook => keeps_settle_bind fun url hurl => ?_
    refine (keeps_send fun _ => ⟨params.contact, uid, ?_⟩).bind fun response => ?_
    · have htarget : WriteHrefs.newUrl svc.carddav params.addressbookHref uid = .ok url := by
        rw [WriteHrefs.newUrl, hbook]
        exact hurl
      exact ⟨rfl, rfl, hvalid, hasked, htarget, hbuilt⟩
    · split_ifs
      · exact keeps_pure _
      all_goals exact keeps_throw _
  cases huid : params.contact.uid with
  | some uid => exact hwrite uid fun asked ha => Option.some.inj (ha.symm.trans huid)
  | none =>
    refine Keeps.bind ((keeps_ask fun _ => Effect.noConfusion).bind fun bytes => keeps_pure _)
      fun uid => hwrite uid fun asked ha => ?_
    rw [huid] at ha
    cases ha

theorem keeps_update {ctx : RequestContext} {params : UpdateContactParams} :
    Keeps svc ⟨ctx, .updateContact params⟩ (svc.updateContact ctx params) := by
  refine ((keeps_rateLimitCheck ctx .write).bind fun _ => ?_).react
  refine keeps_settle_bind fun _ hvalid => keeps_settle_bind fun token _ => ?_
  have hget : Keeps svc ⟨ctx, .updateContact params⟩
      (svc.carddav.getContact token params.contactHref) := by
    refine keeps_settle_bind fun url _ => (keeps_send (by simp [CardDavClient.getRequest])).bind ?_
    intro response
    split_ifs
    · exact keeps_settle_bind fun vcard _ => keeps_pure _
    all_goals exact keeps_throw _
  refine hget.adapt.bind fun existing => ?_
  refine keeps_settle_bind fun uid hkept => keeps_settle_bind fun vcard hbuilt => ?_
  refine Keeps.bind (Keeps.adapt ?_) fun written => keeps_pure _
  refine keeps_settle_bind fun url hurl => ?_
  refine (keeps_send fun _ => ⟨params.contact, uid, ?_⟩).bind fun response => ?_
  · exact ⟨rfl, rfl, hvalid, (keptUid_ok hkept).2, hurl, hbuilt⟩
  · split_ifs
    · exact keeps_pure _
    all_goals exact keeps_throw _

/-- All that a call puts is the contact that it was given. -/
theorem always_writes (chrono : Chrono) (call : ServiceCall) :
    Always (contract svc call) (fun _ _ => True) [] (call.run svc chrono).run := by
  have hreads (hread : .put ∉ CallDiscipline.methodsOf call.request) :
      Always (contract svc call) (fun _ _ => True) [] (call.run svc chrono).run :=
    CallDiscipline.always_of_methods chrono call fun tr e hmethods request he hput =>
      absurd (hput ▸ hmethods request he) hread
  obtain ⟨ctx, request⟩ := call
  cases request with
  | createContact params => exact (keeps_create.bind fun _ => keeps_pure _) []
  | updateContact params => exact (keeps_update.bind fun _ => keeps_pure _) []
  | _ => exact hreads (by simp [CallDiscipline.methodsOf])

/-- A contact that stands in the document of an answer to a REPORT. -/
def Reported (c : CardDavClient) (tr : Trace Effect Reply) (summary : ContactSummary) : Prop :=
  ∃ request answer contact, request.method = .report ∧ Answered c tr request answer ∧
    summary = contactSummary contact ∧
    ∀ doc, Reads c answer doc → contact ∈ (responses doc).filterMap cardOf

theorem Reported.within {c : CardDavClient} {summary : ContactSummary}
    (h : Reported c tr summary) {tr' : Trace Effect Reply} (hsub : tr ⊆ tr') :
    Reported c tr' summary := by
  obtain ⟨request, answer, contact, hmethod, ⟨response, hmem, hanswer⟩, hsummary, hdoc⟩ := h
  exact ⟨request, answer, contact, hmethod, ⟨response, hsub hmem, hanswer⟩, hsummary, hdoc⟩

section Reading

variable (hentities : ∀ e : Predefined, svc.carddav.xml.resolveXmlEntity e.name = some [e.char])
include hentities

theorem reported_of_query {href body : Text} {contacts : List DavContact}
    (h : Executes ((svc.carddav.queryContacts token href body).adapt
      DavError.mapCarddavErr).run tr (.ok contacts)) :
    ∀ contact ∈ contacts, Reported svc.carddav tr (contactSummary contact) := by
  intro contact hmem
  obtain ⟨url, answer, -, hanswered, -, hexact⟩ :=
    executes_queryContacts hentities (executes_adapt_ok.mp h)
  exact ⟨_, answer, contact, rfl, hanswered, rfl, fun doc hreads => hexact doc hreads ▸ hmem⟩

theorem reported_of_list {ctx : RequestContext} {params : ListContactsParams} {r : ContactsResult}
    (h : Executes (ServiceCalls.listContacts svc ctx params).run tr (.ok r)) :
    ∀ summary ∈ r.contacts, Reported svc.carddav tr summary := by
  obtain ⟨before, _, _, rfl, -, hrest⟩ := executes_tryBind_ok.mp (executes_react_ok h)
  obtain ⟨limit, -, hrest⟩ := executes_settle_bind_ok.mp hrest
  obtain ⟨token, -, hrest⟩ := executes_settle_bind_ok.mp hrest
  obtain ⟨asking, contacts, _, rfl, hask, hreturn⟩ := executes_tryBind_ok.mp hrest
  obtain ⟨rfl, hr⟩ := executes_pure.mp hreturn
  obtain rfl := Except.ok.inj hr
  intro summary hmem
  obtain ⟨contact, hcontact, rfl⟩ := List.mem_map.mp hmem
  refine (reported_of_query hentities hask contact (List.mem_of_mem_take hcontact)).within ?_
  rw [List.append_nil]
  exact List.subset_append_right _ _

omit hentities in
/-- All that a search takes in from the matches of one book are these matches. -/
theorem mem_addMatches {limit : Nat} {matched : List DavContact} {found : Found}
    {summary : ContactSummary} (h : summary ∈ (addMatches limit found matched).contacts) :
    summary ∈ found.contacts ∨ ∃ contact ∈ matched, summary = contactSummary contact := by
  have hone (found : Found) (contact : DavContact)
      (h : summary ∈ (addMatch found contact).contacts) :
      summary ∈ found.contacts ∨ summary = contactSummary contact := by
    rw [addMatch] at h
    split_ifs at h
    · exact .inl h
    · simpa using h
  induction matched generalizing found with
  | nil => exact .inl h
  | cons contact matched ih =>
    rw [addMatches] at h
    split_ifs at h
    · exact (hone _ _ h).imp_right fun he => ⟨contact, List.mem_cons_self, he⟩
    · obtain hmem | ⟨other, hother, he⟩ := ih h
      · exact (hone _ _ hmem).imp_right fun he => ⟨contact, List.mem_cons_self, he⟩
      · exact .inr ⟨other, List.mem_cons_of_mem _ hother, he⟩

theorem reported_of_search {ctx : RequestContext} {params : SearchContactsParams}
    {r : ContactsResult} (h : Executes (searchContacts svc ctx params).run tr (.ok r)) :
    ∀ summary ∈ r.contacts, Reported svc.carddav tr summary := by
  obtain ⟨before, _, _, rfl, -, hrest⟩ := executes_tryBind_ok.mp (executes_react_ok h)
  obtain ⟨limit, -, hrest⟩ := executes_settle_bind_ok.mp hrest
  dsimp only at hrest
  split_ifs at hrest
  · exact absurd (executes_throw.mp hrest).2 (by simp)
  obtain ⟨token, -, hrest⟩ := executes_settle_bind_ok.mp hrest
  obtain ⟨asking, hrefs, _, rfl, -, hrest⟩ := executes_tryBind_ok.mp hrest
  obtain ⟨walking, found, _, rfl, hwalk, hreturn⟩ := executes_tryBind_ok.mp hrest
  obtain ⟨rfl, hr⟩ := executes_pure.mp hreturn
  obtain rfl := Except.ok.inj hr
  obtain ⟨asked, rfl, hwalked⟩ := executes_walk.mp hwalk
  refine hwalked.keeps (P := fun found => ∀ summary ∈ found.contacts, Reported svc.carddav
    (before ++ (asking ++ (asked.flatMap Prod.fst ++ []))) summary) ?_ (by simp) rfl
  intro href tr' matched found' hbook hmem hfound summary hsummary
  obtain hold | ⟨contact, hcontact, rfl⟩ := mem_addMatches hsummary
  · exact hfound summary hold
  · obtain ⟨_, -, hquery⟩ := executes_settle_bind_ok.mp (executes_adapt_ok.mp hbook)
    obtain ⟨url, answer, -, hanswered, -, hexact⟩ := executes_queryContacts hentities hquery
    have hreported : Reported svc.carddav tr' (contactSummary contact) :=
      ⟨_, answer, contact, rfl, hanswered, rfl, fun doc hreads => hexact doc hreads ▸ hcontact⟩
    refine hreported.within fun x hx => ?_
    simp only [List.mem_append, List.mem_flatMap]
    exact .inr (.inr (.inl ⟨_, hmem, hx⟩))

/-- Every contact that a call returns stands in an answer that it got. -/
theorem reported_of_run {chrono : Chrono} {call : ServiceCall} {r : ContactsResult}
    (h : Executes (call.run svc chrono).run tr (.ok (.contacts r))) :
    ∀ summary ∈ r.contacts, Reported svc.carddav tr summary := by
  obtain ⟨ctx, request⟩ := call
  cases request
  all_goals
    obtain ⟨before, r', _, rfl, hrun, hreturn⟩ := executes_tryBind_ok.mp h
    obtain ⟨rfl, hr⟩ := executes_pure.mp hreturn
    cases hr
  case listContacts params =>
    rw [List.append_nil]
    exact reported_of_list hentities hrun
  case searchContacts params =>
    rw [List.append_nil]
    exact reported_of_search hentities hrun

end Reading

/-- A request that was answered to be done. -/
def Done (tr : Trace Effect Reply) (request : DavRequest) : Prop :=
  ∃ response, ⟨.send request, .ok response⟩ ∈ tr ∧ response.status ∈ [200, 201, 204]

theorem Done.within {request : DavRequest} (h : Done tr request) {tr' : Trace Effect Reply}
    (hsub : tr ⊆ tr') : Done tr' request := by
  obtain ⟨response, hmem, hstatus⟩ := h
  exact ⟨response, hsub hmem, hstatus⟩

theorem done_of_send {request : DavRequest} {response : DavHttpResponse}
    (h : Executes (svc.carddav.send token request).run tr (.ok response))
    (hstatus : response.status ∈ [200, 201, 204]) :
    Done tr (CardDavClient.bearerAuth token request) := by
  obtain ⟨-, he⟩ | ⟨reply, rfl, hreply⟩ := executes_send h
  · cases he
  · obtain ⟨raw, rfl, hraw, -, -⟩ := WriteContract.outcome_ok hreply.symm
    exact ⟨raw, List.mem_cons_self, hraw ▸ hstatus⟩

theorem done_of_create {ctx : RequestContext} {params : CreateContactParams}
    {r : ContactWriteResult} (h : Executes (svc.createContact ctx params).run tr (.ok r)) :
    ∃ request, Done tr request ∧
      Writes svc ⟨ctx, .createContact params⟩ request params.contact r.uid := by
  obtain ⟨checking, _, _, rfl, -, hrest⟩ := executes_tryBind_ok.mp (executes_react_ok h)
  obtain ⟨_, hvalid, hrest⟩ := executes_settle_bind_ok.mp hrest
  obtain ⟨token, -, hrest⟩ := executes_settle_bind_ok.mp hrest
  have hwrite (uid : Text) (hasked : ∀ asked, params.contact.uid = some asked → asked = uid)
      (tr : Trace Effect Reply) (h : Executes (do
        settle (validateUid uid)
        let vcard ← settle (buildVcard params.contact uid)
        let written ← (svc.carddav.createContact token params.addressbookHref uid
          vcard).adapt DavError.mapCarddavErr
        return ⟨written.href, written.etag, uid⟩ : Tool ContactWriteResult).run tr (.ok r)) :
      ∃ request, Done tr request ∧
        Writes svc ⟨ctx, .createContact params⟩ request params.contact r.uid := by
    obtain ⟨_, -, hrest⟩ := executes_settle_bind_ok.mp h
    obtain ⟨vcard, hbuilt, hrest⟩ := executes_settle_bind_ok.mp hrest
    obtain ⟨putting, written, _, rfl, hput, hreturn⟩ := executes_tryBind_ok.mp hrest
    obtain ⟨rfl, hr⟩ := executes_pure.mp hreturn
    obtain rfl := Except.ok.inj hr
    obtain ⟨book, hbook, hrest⟩ := executes_settle_bind_ok.mp (executes_adapt_ok.mp hput)
    obtain ⟨url, hurl, hrest⟩ := executes_settle_bind_ok.mp hrest
    obtain ⟨sending, response, after, rfl, hsend, hanswer⟩ := executes_tryBind_ok.mp hrest
    have htarget : WriteHrefs.newUrl svc.carddav params.addressbookHref uid = .ok url := by
      rw [WriteHrefs.newUrl, hbook]
      exact hurl
    split_ifs at hanswer with hstatus
    · refine ⟨_, (done_of_send hsend (by simp; omega)).within (by simp), rfl, rfl, hvalid, hasked,
        htarget, hbuilt⟩
    all_goals exact absurd (executes_throw.mp hanswer).2 (by simp)
  cases huid : params.contact.uid with
  | some uid =>
    rw [huid] at hrest
    obtain ⟨request, hdone, hwrites⟩ :=
      hwrite uid (fun asked ha => Option.some.inj (ha.symm.trans huid)) _ hrest
    exact ⟨request, hdone.within (List.subset_append_right _ _), hwrites⟩
  | none =>
    rw [huid] at hrest
    obtain ⟨drawing, uid, _, rfl, -, hrest⟩ := executes_tryBind_ok.mp hrest
    obtain ⟨request, hdone, hwrites⟩ := hwrite uid (fun asked ha => by simp [huid] at ha) _ hrest
    exact ⟨request, hdone.within fun x hx => by simp [hx], hwrites⟩

theorem done_of_update {ctx : RequestContext} {params : UpdateContactParams}
    {r : ContactWriteResult} (h : Executes (svc.updateContact ctx params).run tr (.ok r)) :
    ∃ request, Done tr request ∧
      Writes svc ⟨ctx, .updateContact params⟩ request params.contact r.uid := by
  obtain ⟨checking, _, _, rfl, -, hrest⟩ := executes_tryBind_ok.mp (executes_react_ok h)
  obtain ⟨_, hvalid, hrest⟩ := executes_settle_bind_ok.mp hrest
  obtain ⟨token, -, hrest⟩ := executes_settle_bind_ok.mp hrest
  obtain ⟨getting, existing, _, rfl, -, hrest⟩ := executes_tryBind_ok.mp hrest
  obtain ⟨uid, hkept, hrest⟩ := executes_settle_bind_ok.mp hrest
  obtain ⟨vcard, hbuilt, hrest⟩ := executes_settle_bind_ok.mp hrest
  obtain ⟨putting, written, _, rfl, hput, hreturn⟩ := executes_tryBind_ok.mp hrest
  obtain ⟨rfl, hr⟩ := executes_pure.mp hreturn
  obtain rfl := Except.ok.inj hr
  obtain ⟨url, hurl, hrest⟩ := executes_settle_bind_ok.mp (executes_adapt_ok.mp hput)
  obtain ⟨sending, response, after, rfl, hsend, hanswer⟩ := executes_tryBind_ok.mp hrest
  split_ifs at hanswer with hstatus
  · refine ⟨_, (done_of_send hsend (by simp; omega)).within fun x hx => by simp [hx], rfl, rfl,
      hvalid, (keptUid_ok hkept).2, hurl, hbuilt⟩
  all_goals exact absurd (executes_throw.mp hanswer).2 (by simp)

/-- A call that says it has written was told that its card is stored. -/
theorem done_of_run {chrono : Chrono} {call : ServiceCall} {r : ContactWriteResult}
    (h : Executes (call.run svc chrono).run tr (.ok (.written r))) :
    ∃ request contact, Done tr request ∧ Writes svc call request contact r.uid := by
  obtain ⟨ctx, request⟩ := call
  cases request
  all_goals
    obtain ⟨before, r', _, rfl, hrun, hreturn⟩ := executes_tryBind_ok.mp h
    obtain ⟨rfl, hr⟩ := executes_pure.mp hreturn
    cases hr
  case createContact params =>
    rw [List.append_nil]
    obtain ⟨request, hdone, hwrites⟩ := done_of_create hrun
    exact ⟨request, _, hdone, hwrites⟩
  case updateContact params =>
    rw [List.append_nil]
    obtain ⟨request, hdone, hwrites⟩ := done_of_update hrun
    exact ⟨request, _, hdone, hwrites⟩

end Tools

end CardDavMcp.WrittenCards
