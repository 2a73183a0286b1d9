import CardDavMcp.CallRuns
import CardDavMcp.MultistatusTree
import CardDavMcp.WriteContract

namespace CardDavMcp.Listings

open Library.Utf8Text Library.XmlTree Content Library.Interaction Library.Runs Urls ToolError
  DavError Multistatus MultistatusTree DavClient ContactTools ReadTools ContactSearch
  UpcomingBirthdays ServiceCalls
open BearerConfinement (Passes multistatus collect_spec)
open CallDiscipline (Discovered)
open CallRuns (pool sampleChrono)

/-- What a response says of a field: all its character data, in sequence. -/
def valueOf (k : Capture) (content : Content) : Option Text :=
  fieldText k (occurrences k "response".toList content).flatten

/-- The card that a response of a document carries. -/
def cardOf (content : Content) : Option DavContact :=
  match valueOf .href content, valueOf .addressData content with
  | some href, some vcard =>
    some ⟨href, (valueOf .etag content).filter (fun etag => !etag.isEmpty), vcard⟩
  | _, _ => none

/-- The name of an address book: what it is displayed as, or else the last part
of its href. -/
def nameOf (href : Text) (displayName : Option Text) : Text :=
  (displayName.filter (fun name => !(trim name).isEmpty)).getD
    ((hrefTail href).getD "Contacts".toList)

/-- The address book that a response of a document tells of, unless it is the
home set that was asked. -/
def bookAt (home : Text) (content : Content) : Option DavAddressBook :=
  match valueOf .href content with
  | none => none
  | some href =>
    if content.mentions "addressbook".toList ∧ normalizeHref href ≠ normalizeHref home then
      some ⟨href, nameOf href (valueOf .displayName content),
        (valueOf .ctag content).filter (fun ctag => !ctag.isEmpty)⟩
    else none

/-- A document of flat responses was read from the body of an answer. -/
def Reads (c : CardDavClient) (body : Bytes) (doc : Content) : Prop :=
  c.xml.read body = document doc ∧ ∀ content ∈ responses doc, Flat content

/-- A request of a trace was answered with a multistatus of this body. -/
def Answered (c : CardDavClient) (tr : Trace Effect Reply) (request : DavRequest) (body : Bytes) :
    Prop :=
  ∃ response, ⟨.send request, .ok response⟩ ∈ tr ∧
    (response.status = 207 ∨ response.status = 200) ∧
    readLimited response c.maxResponseBytes = .ok body

theorem field_eq {content : Content} {item : ParsedDavResponse} (h : Gathers content item)
    (k : Capture) : item.field k = valueOf k content := by
  rw [h.field, valueOf, fieldText]
  split_ifs with hnil
  · rw [hnil]
    rfl
  · rw [collect_none hnil]
    rfl

theorem contactOf_eq {content : Content} {item : ParsedDavResponse} (h : Gathers content item) :
    CardDavClient.contactOf item = cardOf content := by
  have hhref : item.href = valueOf .href content := field_eq h .href
  have hdata : item.addressData = valueOf .addressData content := field_eq h .addressData
  have hetag : item.etag = valueOf .etag content := field_eq h .etag
  rw [cardOf, ← hhref, ← hdata, ← hetag]
  rfl

theorem bookOf_eq {content : Content} {item : ParsedDavResponse} (h : Gathers content item)
    (home : Text) : CardDavClient.bookOf (normalizeHref home) item = bookAt home content := by
  have hhref : item.href = valueOf .href content := field_eq h .href
  have hname : item.displayName = valueOf .displayName content := field_eq h .displayName
  have hctag : item.ctag = valueOf .ctag content := field_eq h .ctag
  rw [CardDavClient.bookOf, bookAt, hhref, hname, hctag, h.addressbook]
  cases valueOf .href content with
  | none => rfl
  | some href =>
    cases content.mentions "addressbook".toList with
    | false => simp
    | true =>
      by_cases hhome : normalizeHref href = normalizeHref home
      · simp [hhome]
      · simp [hhome, nameOf]

/-- A response that is written as one tag says nothing, so leaving it out does no
harm here. -/
theorem filterMap_responses {β : Type} {f : Content → Option β} (hnil : f .nil = none)
    (doc : Content) : (taggedResponses doc).filterMap f = (responses doc).filterMap f := by
  induction doc with
  | nil => rfl
  | element n children rest ihc ihr =>
    rw [taggedResponses, responses, List.filterMap_append, List.filterMap_append, ihr]
    split_ifs
    · rfl
    · rw [ihc]
  | emptyElement n rest ih =>
    rw [taggedResponses, responses, List.filterMap_append, ih]
    split_ifs
    · simp [hnil]
    · rfl
  | chars _ rest ih | other rest ih => exact ih

theorem filterMap_forall₂ {α β γ : Type} {r : α → β → Prop} {f : α → Option γ} {g : β → Option γ}
    (hfg : ∀ a b, r a b → g b = f a) {as : List α} {bs : List β} (h : List.Forall₂ r as bs) :
    bs.filterMap g = as.filterMap f := by
  induction h with
  | nil => rfl
  | cons hab _ ih => rw [List.filterMap_cons, List.filterMap_cons, hfg _ _ hab, ih]

section Client

variable {c : CardDavClient}

/-- What is picked from a parsed answer is what its document says. -/
theorem picked_eq (hentities : ∀ e : Predefined, c.xml.resolveXmlEntity e.name = some [e.char])
    {β : Type} {pick : ParsedDavResponse → Option β} {f : Content → Option β} (hnil : f .nil = none)
    (hpick : ∀ content item, Gathers content item → pick item = f content) {body : Bytes}
    {items : List ParsedDavResponse} (hparse : parseMultistatus c.xml body = .ok items)
    {doc : Content} (hreads : Reads c body doc) :
    items.filterMap pick = (responses doc).filterMap f := by
  obtain ⟨hread, hflat⟩ := hreads
  obtain ⟨items', hparse', hall⟩ := parse_document hread
    fun content hc => reads_flat hentities (hflat content ((taggedResponses_sublist doc).subset hc))
  obtain rfl : items = items' := Except.ok.inj (hparse.symm.trans hparse')
  rw [← filterMap_responses hnil, filterMap_forall₂ hpick hall]

variable {token : Text} {request : DavRequest} {tr : Trace Effect Reply}

/-- A request is sent and answered as `outcome` says, or it cannot be built. -/
theorem executes_send {result : Except CardDavError DavHttpResponse}
    (h : Executes (c.send token request).run tr result) :
    (tr = [] ∧ result = .error (.http "builder error")) ∨
      ∃ reply, tr = c.sent token request reply ∧ result = c.outcome reply := by
  simp only [CardDavClient.send] at h
  split_ifs at h
  · exact .inl (executes_throw.mp h)
  · refine .inr ?_
    obtain ⟨_, reply, after, rfl, hask, hrest⟩ | ⟨_, hask, -⟩ := executes_tryBind.mp h
    · obtain ⟨_, rfl, hreply⟩ := executes_ask.mp hask
      obtain rfl := Except.ok.inj hreply
      refine ⟨reply, ?_⟩
      cases reply with
      | error e =>
        obtain ⟨rfl, rfl⟩ := executes_throw.mp hrest
        exact ⟨rfl, rfl⟩
      | ok raw =>
        simp only [CardDavClient.sent, CardDavClient.outcome, CardDavClient.Rejects,
          decide_eq_true_eq]
        dsimp only at hrest
        split_ifs at hrest ⊢
        · obtain ⟨_, _, _, rfl, hevict, hthrow⟩ | ⟨_, hevict, -⟩ := executes_tryBind.mp hrest
          · obtain ⟨_, rfl, -⟩ := executes_ask.mp hevict
            obtain ⟨rfl, rfl⟩ := executes_throw.mp hthrow
            exact ⟨rfl, rfl⟩
          · exact absurd (executes_ask.mp hevict) (by simp)
        · obtain ⟨rfl, rfl⟩ := executes_settle.mp hrest
          exact ⟨rfl, rfl⟩
    · exact absurd (executes_ask.mp hask) (by simp)

/-- A request that succeeds was answered, and what is read is its body. -/
theorem answered_of_send {response : DavHttpResponse}
    (h : Executes (c.send token request).run tr (.ok response))
    (hstatus : ensureMultistatus response.status = .ok ()) :
    Answered c tr (CardDavClient.bearerAuth token request) response.body := by
  obtain ⟨-, he⟩ | ⟨reply, rfl, hreply⟩ := executes_send h
  · cases he
  · obtain ⟨raw, rfl, hraw, -, hbody⟩ := WriteContract.outcome_ok hreply.symm
    refine ⟨raw, List.mem_cons_self, ?_, hbody⟩
    rw [ensureMultistatus, ← hraw] at hstatus
    split_ifs at hstatus with hlisted
    exact hlisted

theorem executes_propfind {url : Url} {depth : String} {body : Text} {response : DavHttpResponse}
    (h : Executes (c.propfind token url depth body).run tr (.ok response)) :
    Executes (c.send token (CardDavClient.propfindRequest url depth body)).run tr (.ok response) ∧
      ensureMultistatus response.status = .ok () := by
  obtain ⟨before, response', after, rfl, hsend, hrest⟩ := executes_tryBind_ok.mp h
  obtain ⟨_, hstatus, hreturn⟩ := executes_settle_bind_ok.mp hrest
  obtain ⟨rfl, hresponse⟩ := executes_pure.mp hreturn
  obtain rfl := Except.ok.inj hresponse
  rw [List.append_nil]
  exact ⟨hsend, hstatus⟩

/-- The cards of an address book are those of the document that was asked for. -/
theorem executes_queryContacts
    (hentities : ∀ e : Predefined, c.xml.resolveXmlEntity e.name = some [e.char])
    {href body : Text} {contacts : List DavContact}
    (h : Executes (c.queryContacts token href body).run tr (.ok contacts)) :
    ∃ url answer, c.resolveHref href = .ok url ∧
      Answered c tr (CardDavClient.bearerAuth token (CardDavClient.reportRequest url body)) answer ∧
      (∀ contact ∈ contacts, Passes c contact.href) ∧
      ∀ doc, Reads c answer doc → contacts = (responses doc).filterMap cardOf := by
  obtain ⟨url, hurl, hrest⟩ := executes_settle_bind_ok.mp h
  obtain ⟨before, response, _, rfl, hsend, hrest⟩ := executes_tryBind_ok.mp hrest
  obtain ⟨_, hstatus, hrest⟩ := executes_settle_bind_ok.mp hrest
  obtain ⟨items, hparse, hrest⟩ := executes_settle_bind_ok.mp hrest
  obtain ⟨rfl, hcollect⟩ := executes_settle.mp hrest
  have hspec := collect_spec c DavContact.href CardDavClient.contactOf items
  rw [← hcollect] at hspec
  obtain ⟨hcontacts, hpass⟩ := hspec
  refine ⟨url, response.body, hurl, ?_, fun contact hmem => hpass _ (List.mem_map_of_mem hmem),
    fun doc hreads => ?_⟩
  · rw [List.append_nil]
    exact answered_of_send hsend hstatus
  · rw [hcontacts]
    exact picked_eq hentities rfl (fun content item hgathers => contactOf_eq hgathers) hparse hreads

/-- What a call goes by was in the cache or was told in answers to its bearer. -/
def Found (c : CardDavClient) (token : Text) (tr : Trace Effect Reply) (discovery : DavDiscovery) :
    Prop :=
  ⟨.discoveryLookup (c.hashToken token), some discovery⟩ ∈ tr ∨ Discovered c token tr discovery

theorem Found.within {discovery : DavDiscovery} (h : Found c token tr discovery)
    {tr' : Trace Effect Reply} (hsub : tr ⊆ tr') : Found c token tr' discovery := by
  obtain hcached | ⟨⟨reply, items, hmem, hprincipal⟩, url, reply', items', hurl, hmem', hhome⟩ := h
  · exact .inl (hsub hcached)
  · exact .inr ⟨⟨reply, items, hsub hmem, hprincipal⟩, url, reply', items', hurl, hsub hmem', hhome⟩

theorem multistatus_of_propfind {url : Url} {depth : String} {body : Text}
    {response : DavHttpResponse} {items : List ParsedDavResponse}
    (h : Executes (c.propfind token url depth body).run tr (.ok response))
    (hparse : parseMultistatus c.xml response.body = .ok items) :
    ∃ reply, ⟨.send (CardDavClient.bearerAuth token (CardDavClient.propfindRequest url depth body)),
      reply⟩ ∈ tr ∧ multistatus c reply = .ok items := by
  obtain ⟨hsend, hstatus⟩ := executes_propfind h
  obtain ⟨-, he⟩ | ⟨reply, rfl, hreply⟩ := executes_send hsend
  · cases he
  · refine ⟨reply, by simp [CardDavClient.sent], ?_⟩
    simp [multistatus, ← hreply, hstatus, hparse, bind, Except.bind]

theorem executes_discover {discovery : DavDiscovery}
    (h : Executes (c.discover token).run tr (.ok discovery)) : Found c token tr discovery := by
  obtain ⟨_, found, rest, rfl, hlookup, hrest⟩ := executes_tryBind_ok.mp h
  obtain ⟨_, rfl, hfound⟩ := executes_ask.mp hlookup
  obtain rfl := Except.ok.inj hfound
  cases found with
  | some cached =>
    obtain ⟨rfl, hcached⟩ := executes_pure.mp hrest
    obtain rfl := Except.ok.inj hcached
    exact .inl (by simp)
  | none =>
    obtain ⟨tr₁, principal, _, rfl, hprincipal, hrest⟩ := executes_tryBind_ok.mp hrest
    obtain ⟨items, hparse, hrest⟩ := executes_settle_bind_ok.mp hrest
    obtain ⟨reply, hmem, hitems⟩ := multistatus_of_propfind hprincipal hparse
    split at hrest
    · exact absurd (executes_throw.mp hrest).2 (by simp)
    · rename_i principalHref hfirst
      obtain ⟨url, hurl, hrest⟩ := executes_settle_bind_ok.mp hrest
      obtain ⟨tr₂, home, _, rfl, hhome, hrest⟩ := executes_tryBind_ok.mp hrest
      obtain ⟨items', hparse', hrest⟩ := executes_settle_bind_ok.mp hrest
      obtain ⟨reply', hmem', hitems'⟩ := multistatus_of_propfind hhome hparse'
      split at hrest
      · exact absurd (executes_throw.mp hrest).2 (by simp)
      · rename_i homeHref hfirst'
        obtain ⟨_, -, hrest⟩ := executes_settle_bind_ok.mp hrest
        obtain ⟨_, _, _, rfl, -, hreturn⟩ := executes_tryBind_ok.mp hrest
        obtain ⟨rfl, hdiscovery⟩ := executes_pure.mp hreturn
        obtain rfl := Except.ok.inj hdiscovery
        exact .inr ⟨⟨reply, items, by simp [hmem], hitems, hfirst⟩, url, reply', items', hurl,
          by simp [hmem'], hitems', hfirst'⟩

/-- The address books of a home set are those of its document. -/
theorem executes_listAddressBooks
    (hentities : ∀ e : Predefined, c.xml.resolveXmlEntity e.name = some [e.char])
    {books : List DavAddressBook}
    (h : Executes (c.listAddressBooks token).run tr (.ok books)) :
    ∃ discovery url answer, Found c token tr discovery ∧
      c.resolveHref discovery.addressbookHomeHref = .ok url ∧
      Answered c tr (CardDavClient.bearerAuth token
        (CardDavClient.propfindRequest url "1" LIST_ADDRESSBOOKS_BODY)) answer ∧
      (∀ book ∈ books, Passes c book.href) ∧
      ∀ doc, Reads c answer doc →
        books = (responses doc).filterMap (bookAt discovery.addressbookHomeHref) := by
  obtain ⟨before, discovery, _, rfl, hdiscover, hrest⟩ := executes_tryBind_ok.mp h
  obtain ⟨url, hurl, hrest⟩ := executes_settle_bind_ok.mp hrest
  obtain ⟨asking, response, _, rfl, hask, hrest⟩ := executes_tryBind_ok.mp hrest
  obtain ⟨items, hparse, hrest⟩ := executes_settle_bind_ok.mp hrest
  obtain ⟨rfl, hcollect⟩ := executes_settle.mp hrest
  have hspec := collect_spec c DavAddressBook.href
    (CardDavClient.bookOf (normalizeHref discovery.addressbookHomeHref)) items
  rw [← hcollect] at hspec
  obtain ⟨hbooks, hpass⟩ := hspec
  refine ⟨discovery, url, response.body,
    (executes_discover hdiscover).within (List.subset_append_left _ _), hurl, ?_,
    fun book hmem => hpass _ (List.mem_map_of_mem hmem), fun doc hreads => ?_⟩
  · obtain ⟨hsend, hstatus⟩ := executes_propfind hask
    obtain ⟨raw, hmem, hanswer⟩ := answered_of_send hsend hstatus
    exact ⟨raw, by simp [hmem], hanswer⟩
  · rw [hbooks]
    exact picked_eq hentities rfl (fun content item hgathers => bookOf_eq hgathers _) hparse
      hreads

end Client

section Tools

variable {svc : CardDavMcpService} {ctx : RequestContext} {tr : Trace Effect Reply}

theorem executes_react_ok {α : Type} {p : Tool α} {a : α}
    (h : Executes (svc.reactToAuthExpiry ctx p).run tr (.ok a)) : Executes p.run tr (.ok a) := by
  obtain ⟨before, reached, after, rfl, hp, hends⟩ := executes_reactToAuthExpiry h
  cases reached with
  | error e =>
    obtain ⟨_, he⟩ := hends.error
    cases he
  | ok b =>
    obtain ⟨rfl, hb⟩ := concludes_ok.mp hends
    rwa [List.append_nil, Except.ok.inj hb]

/-- What was answered in a part of a trace was answered in all of it. -/
theorem Answered.within {c : CardDavClient} {request : DavRequest} {answer : Bytes}
    (h : Answered c tr request answer) (before after : Trace Effect Reply) :
    Answered c (before ++ (tr ++ after)) request answer := by
  obtain ⟨response, hmem, hrest⟩ := h
  exact ⟨response, by simp [hmem], hrest⟩

theorem executes_listContacts
    (hentities : ∀ e : Predefined, svc.carddav.xml.resolveXmlEntity e.name = some [e.char])
    {params : ListContactsParams} {r : ContactsResult}
    (h : Executes (ServiceCalls.listContacts svc ctx params).run tr (.ok r)) :
    ∃ token url answer, ctx.token = some token ∧
      svc.carddav.resolveHref params.addressbookHref = .ok url ∧
      Answered svc.carddav tr (CardDavClient.bearerAuth token
        (CardDavClient.reportRequest url LIST_CONTACTS_BODY)) answer ∧
      ∀ doc, Reads svc.carddav answer doc →
        (∀ card ∈ (responses doc).filterMap cardOf, Passes svc.carddav card.href) ∧
        r.contacts = (((responses doc).filterMap cardOf).take (min params.limit 100)).map
          contactSummary := by
  obtain ⟨before, _, _, rfl, -, hrest⟩ := executes_tryBind_ok.mp (executes_react_ok h)
  obtain ⟨limit, hlimit, hrest⟩ := executes_settle_bind_ok.mp hrest
  obtain ⟨token, htoken, hrest⟩ := executes_settle_bind_ok.mp hrest
  obtain ⟨asking, contacts, _, rfl, hask, hreturn⟩ := executes_tryBind_ok.mp hrest
  obtain ⟨rfl, hr⟩ := executes_pure.mp hreturn
  obtain rfl := Except.ok.inj hr
  obtain ⟨url, answer, hurl, hanswered, hpass, hexact⟩ :=
    executes_queryContacts hentities (executes_adapt_ok.mp hask)
  refine ⟨token, url, answer, tokenFromCtx_ok htoken, hurl, hanswered.within before [],
    fun doc hreads => ?_⟩
  have hlimit : limit = min params.limit 100 := by
    rw [validatedLimit] at hlimit
    split_ifs at hlimit
    exact (Except.ok.inj hlimit).symm
  rw [← hexact doc hreads, ← hlimit]
  exact ⟨hpass, rfl⟩

theorem executes_listAddressBooksTool
    (hentities : ∀ e : Predefined, svc.carddav.xml.resolveXmlEntity e.name = some [e.char])
    {r : AddressBooksResult}
    (h : Executes (ServiceCalls.listAddressBooks svc ctx).run tr (.ok r)) :
    ∃ token discovery url answer, ctx.token = some token ∧
      Found svc.carddav token tr discovery ∧
      svc.carddav.resolveHref discovery.addressbookHomeHref = .ok url ∧
      Answered svc.carddav tr (CardDavClient.bearerAuth token
        (CardDavClient.propfindRequest url "1" LIST_ADDRESSBOOKS_BODY)) answer ∧
      ∀ doc, Reads svc.carddav answer doc →
        (∀ book ∈ (responses doc).filterMap (bookAt discovery.addressbookHomeHref),
          Passes svc.carddav book.href) ∧
        r.addressBooks = ((responses doc).filterMap (bookAt discovery.addressbookHomeHref)).map
          addressBookSummary := by
  obtain ⟨before, _, _, rfl, -, hrest⟩ := executes_tryBind_ok.mp (executes_react_ok h)
  obtain ⟨token, htoken, hrest⟩ := executes_settle_bind_ok.mp hrest
  obtain ⟨asking, books, _, rfl, hask, hreturn⟩ := executes_tryBind_ok.mp hrest
  obtain ⟨rfl, hr⟩ := executes_pure.mp hreturn
  obtain rfl := Except.ok.inj hr
  obtain ⟨discovery, url, answer, hfound, hurl, hanswered, hpass, hexact⟩ :=
    executes_listAddressBooks hentities (executes_adapt_ok.mp hask)
  refine ⟨token, discovery, url, answer, tokenFromCtx_ok htoken,
    hfound.within fun x hx => by simp [hx], hurl, hanswered.within before [], fun doc hreads => ?_⟩
  rw [← hexact doc hreads]
  exact ⟨hpass, rfl⟩

end Tools

section Pool

variable {W ι : Type} [DecidableEq ι] {svc : CardDavMcpService} {chrono : ι → Chrono}
  {calls : ι → ServiceCall} {world : W → (e : Effect) → Reply e → W → Prop} {start : W}
  {log : List (Act W ι Effect Reply)}
  {s : W × (ι → Prog Effect Reply (Except ErrorData ToolResult))}

/-- A call that lists contacts returns the first cards of the document it got,
and only if all hrefs of the document can be resolved, also those further down. -/
theorem list_contacts_exact
    (hentities : ∀ e : Predefined, svc.carddav.xml.resolveXmlEntity e.name = some [e.char])
    (h : Run (poolStep world) (start, pool svc chrono calls) log s) {i : ι}
    {params : ListContactsParams} (hcall : (calls i).request = .listContacts params)
    {r : ContactsResult} (hdone : s.2 i = .done (.ok (.contacts r))) :
    ∃ token url answer, (calls i).ctx.token = some token ∧
      svc.carddav.resolveHref params.addressbookHref = .ok url ∧
      Answered svc.carddav (traceOf i log) (CardDavClient.bearerAuth token
        (CardDavClient.reportRequest url LIST_CONTACTS_BODY)) answer ∧
      ∀ doc, Reads svc.carddav answer doc →
        (∀ card ∈ (responses doc).filterMap cardOf, Passes svc.carddav card.href) ∧
        r.contacts = (((responses doc).filterMap cardOf).take (min params.limit 100)).map
          contactSummary := by
  have hruns := executes_of_run h hdone
  simp only [pool, ServiceCall.run, hcall] at hruns
  obtain ⟨before, r', _, htrace, hlist, hreturn⟩ := executes_tryBind_ok.mp hruns
  obtain ⟨rfl, hr⟩ := executes_pure.mp hreturn
  obtain rfl : r = r' := by simpa using hr
  rw [htrace, List.append_nil]
  exact executes_listContacts hentities hlist

/-- A call that lists address books returns those of the document it got from
the home set, in their order, without the home set itself. -/
theorem list_address_books_exact
    (hentities : ∀ e : Predefined, svc.carddav.xml.resolveXmlEntity e.name = some [e.char])
    (h : Run (poolStep world) (start, pool svc chrono calls) log s) {i : ι}
    {r : AddressBooksResult} (hdone : s.2 i = .done (.ok (.addressBooks r))) :
    ∃ token discovery url answer, (calls i).ctx.token = some token ∧
      Found svc.carddav token (traceOf i log) discovery ∧
      svc.carddav.resolveHref discovery.addressbookHomeHref = .ok url ∧
      Answered svc.carddav (traceOf i log) (CardDavClient.bearerAuth token
        (CardDavClient.propfindRequest url "1" LIST_ADDRESSBOOKS_BODY)) answer ∧
      ∀ doc, Reads svc.carddav answer doc →
        (∀ book ∈ (responses doc).filterMap (bookAt discovery.addressbookHomeHref),
          Passes svc.carddav book.href) ∧
        r.addressBooks = ((responses doc).filterMap (bookAt discovery.addressbookHomeHref)).map
          addressBookSummary := by
  have hruns := executes_of_run h hdone
  rw [pool] at hruns
  generalize calls i = call at hruns ⊢
  generalize traceOf i log = tr at hruns ⊢
  obtain ⟨ctx, request⟩ := call
  cases request
  all_goals
    obtain ⟨before, r', _, rfl, hrun, hreturn⟩ := executes_tryBind_ok.mp hruns
    obtain ⟨rfl, hr⟩ := executes_pure.mp hreturn
    cases hr
  case listAddressBooks =>
    rw [List.append_nil]
    exact executes_listAddressBooksTool hentities hrun

end Pool

def element (name : String) (children : Content) (rest : Content := .nil) : Content :=
  .element (ReadTools.dav name) children rest

def chars (text : String) : Content := .chars (.text text.toList) .nil

/-- A card, a resource without one, and a second card. -/
def sampleDoc : Content :=
  element "multistatus"
    (element "response" (element "href" (chars " /b/1.vcf ") (element "propstat"
      (element "address-data" (chars "FN:Ann\nUID:1") (element "getetag" .nil))))
    (element "response" (element "href" (chars "/b/"))
    (element "response" (element "href" (chars "/b/2.vcf") (element "address-data" (chars "")))
    (.emptyElement (ReadTools.dav "response") .nil))))

/-- The plain service, at a server that always sends the same document. -/
def serviceAt (doc : Content) : CardDavMcpService :=
  { plainService with
    carddav := { plainService.carddav with
      xml := ⟨fun _ => document doc, predefinedEntity⟩ } }

theorem entities_serviceAt (doc : Content) (e : Predefined) :
    (serviceAt doc).carddav.xml.resolveXmlEntity e.name = some [e.char] := by
  cases e <;> rfl

/-- One call at the service alone, with these replies. -/
def playedCall (svc : CardDavMcpService) (request : ToolRequest) (reply : ∀ e, Reply e) :
    List (Act Unit Unit Effect Reply) × Unit × Except ErrorData ToolResult :=
  playedAlone (fun _ e => (reply e, ())) () ()
    (pool svc (fun _ => sampleChrono ()) (fun _ : Unit => ⟨sampleContext, request⟩) ())

theorem run_playedCall (svc : CardDavMcpService) (request : ToolRequest) (reply : ∀ e, Reply e) :
    ∃ s, Run (poolStep fun _ _ _ _ => True)
        ((), pool svc (fun _ => sampleChrono ()) (fun _ : Unit => ⟨sampleContext, request⟩))
        (playedCall svc request reply).1 s ∧
      s.2 () = .done (playedCall svc request reply).2.2 :=
  ⟨_, run_playedAlone (fun _ _ => trivial) () () _, rfl⟩

def contactsOf : Except ErrorData ToolResult → Option ContactsResult
  | .ok (.contacts r) => some r
  | _ => none

theorem eq_of_contactsOf {result : Except ErrorData ToolResult} {r : ContactsResult}
    (h : contactsOf result = some r) : result = .ok (.contacts r) := by
  rw [contactsOf.eq_def] at h
  split at h
  · rw [Option.some.inj h]
  · cases h

def booksIn : Except ErrorData ToolResult → Option AddressBooksResult
  | .ok (.addressBooks r) => some r
  | _ => none

theorem eq_of_booksIn {result : Except ErrorData ToolResult} {r : AddressBooksResult}
    (h : booksIn result = some r) : result = .ok (.addressBooks r) := by
  rw [booksIn.eq_def] at h
  split at h
  · rw [Option.some.inj h]
  · cases h

theorem list_contacts_exact_sample : ∃ r : ContactsResult,
    (playedCall (serviceAt sampleDoc) (.listContacts ⟨"/b/".toList, 25⟩) sampleReply).2.2 =
      .ok (.contacts r) ∧
    r.contacts.map (fun contact => (contact.href, contact.fullName)) =
      [("/b/1.vcf".toList, some "Ann".toList), ("/b/2.vcf".toList, none)] := by
  obtain ⟨s, hrun, hdone⟩ :=
    run_playedCall (serviceAt sampleDoc) (.listContacts ⟨"/b/".toList, 25⟩) sampleReply
  have hok : (contactsOf (playedCall (serviceAt sampleDoc) (.listContacts ⟨"/b/".toList, 25⟩)
      sampleReply).2.2).isSome := rfl
  obtain ⟨r, hr⟩ := Option.isSome_iff_exists.mp hok
  rw [eq_of_contactsOf hr] at hdone
  obtain ⟨token, url, answer, -, -, -, hexact⟩ :=
    list_contacts_exact (entities_serviceAt sampleDoc) hrun (i := ()) rfl hdone
  have hreads : Reads (serviceAt sampleDoc).carddav answer sampleDoc :=
    ⟨rfl, by unfold Flat; decide⟩
  refine ⟨r, eq_of_contactsOf hr, ?_⟩
  rw [(hexact sampleDoc hreads).2]
  decide

/-- The home set, a book without a name, and what is no book. -/
def sampleHome : Content :=
  element "multistatus"
    (element "response" (element "href" (chars "/h/") (.emptyElement (ReadTools.dav "addressbook")
      .nil))
    (element "response" (element "href" (chars "/h/work/") (element "displayname" (chars " ")
      (.emptyElement (ReadTools.dav "addressbook") .nil)))
    (element "response" (element "href" (chars "/h/file")))))

/-- The discovery is in the cache. -/
def cachedReply : ∀ e : Effect, Reply e
  | .discoveryLookup _ => some ⟨"/p/".toList, "/h".toList⟩
  | e => sampleReply e

theorem list_address_books_exact_sample : ∃ (r : AddressBooksResult) (discovery : DavDiscovery),
    (playedCall (serviceAt sampleHome) .listAddressBooks cachedReply).2.2 =
      .ok (.addressBooks r) ∧
    r.addressBooks = ((responses sampleHome).filterMap
      (bookAt discovery.addressbookHomeHref)).map addressBookSummary := by
  obtain ⟨s, hrun, hdone⟩ := run_playedCall (serviceAt sampleHome) .listAddressBooks cachedReply
  have hok : (booksIn (playedCall (serviceAt sampleHome) .listAddressBooks
      cachedReply).2.2).isSome := rfl
  obtain ⟨r, hr⟩ := Option.isSome_iff_exists.mp hok
  rw [eq_of_booksIn hr] at hdone
  obtain ⟨token, discovery, url, answer, -, -, -, -, hexact⟩ :=
    list_address_books_exact (entities_serviceAt sampleHome) hrun (i := ()) hdone
  have hreads : Reads (serviceAt sampleHome).carddav answer sampleHome :=
    ⟨rfl, by unfold Flat; decide⟩
  exact ⟨r, discovery, eq_of_booksIn hr, (hexact sampleHome hreads).2⟩

end CardDavMcp.Listings
