import CardDavMcp.VcardComponents
import CardDavMcp.WrittenCards

namespace CardDavMcp.StoredCards

open Library.Utf8Text Library.XmlTree Library.Interaction Library.Runs ToolError Contact Vcard Urls
  DavClient ContactTools ReadTools ContactSearch UpcomingBirthdays ServiceCalls CallRuns
  ResponseLimits MultistatusTree Listings WrittenCards
open CardUpdates (Cards)
open VcardRoundTrip (decoded parseVcard_buildVcard)
open VcardComponents (Lossless asGiven decoded_of_lossless NoSemicolon)

section Server

variable {ρ ι : Type} [DecidableEq ι]

/-- The body of a response is these bytes, unless the connection breaks. -/
def Carries (bytes : Bytes) (response : RawResponse) : Prop :=
  (∃ e, .error e ∈ response.chunks) ∨
    ∃ parts : List Bytes, response.chunks = parts.map .ok ∧ parts.flatten = bytes

theorem read_carries {maxBytes : Nat} {response : RawResponse} {bytes body : Bytes}
    (h : Carries bytes response) (hread : readLimited response maxBytes = .ok body) :
    body = bytes := by
  obtain ⟨-, parts, hparts, -, rfl⟩ := readLimited_eq_ok.mp hread
  obtain ⟨e, he⟩ | ⟨parts', hparts', rfl⟩ := h
  · rw [hparts] at he
    simp at he
  · rw [hparts] at hparts'
    rw [List.map_injective_iff.mpr (fun _ _ => Except.ok.inj) hparts']

variable (c : CardDavClient) (locate : Url → ρ) (ours : ρ → Prop)

/-- A stored text as it may come out of an XML document. -/
def SameText (vcard text : Text) : Prop := vcard = text ∨ vcard = replaceCrLf text

/-- A response is this document, and its cards are stored as it says. -/
structure Lists (cards : Cards ρ) (response : RawResponse) (doc : Content) : Prop where
  delivered : ∃ bytes, Carries bytes response ∧ Reads c bytes doc
  stored : ∀ card ∈ (responses doc).filterMap cardOf, ∀ url, c.resolveHref card.href = .ok url →
    ours (locate url) → ∃ text, cards (locate url) = some text ∧ SameText card.vcard text

/-- A server of cards, some of which only the calls of the run write. A write of
these takes effect or does not, whatever the answer says. Other cards may change
at any time. -/
structure Serves (cards : Cards ρ) (e : Effect) (reply : Reply e) (cards' : Cards ρ) : Prop where
  kept : ∀ r, ours r → cards' r = cards r ∨ ∃ request, e = .send request ∧
    locate request.url = r ∧ (request.method = .put ∧ cards' r = some request.body ∨
      request.method = .delete ∧ cards' r = none)
  listed : ∀ request response, WriteContract.asSent ⟨e, reply⟩ = some (request, .ok response) →
    request.method = .report → (response.status = 207 ∨ response.status = 200) →
      ∃ doc, Lists c locate ours cards response doc

abbrev Log (ρ ι : Type) := List (Act (Cards ρ) ι Effect Reply)

/-- A step after which another card, or none, is stored. A write of the same text
over again is none. -/
def Changes (ev : Act (Cards ρ) ι Effect Reply) (r : ρ) : Prop := ev.after r ≠ ev.before r

/-- A step that stores a card. -/
def Puts (ev : Act (Cards ρ) ι Effect Reply) (r : ρ) (text : Text) : Prop :=
  ∃ request, ev.effect = .send request ∧ request.method = .put ∧ locate request.url = r ∧
    request.body = text ∧ ev.after r = some text

variable {c locate ours} {svc : CardDavMcpService} {chrono : ι → Chrono} {calls : ι → ServiceCall}
  {start : Cards ρ} {log : Log ρ ι}
  {s : Cards ρ × (ι → Prog Effect Reply (Except ErrorData ToolResult))}

/-- Where a stored card comes from: it was there all along, or a step has put it
there and nothing has changed it since. -/
theorem stored_provenance
    (h : Run (poolStep (Serves c locate ours)) (start, pool svc chrono calls) log s)
    {r : ρ} (hours : ours r) {text : Text} (hstored : s.1 r = some text) :
    (start r = some text ∧ ∀ x ∈ log, ¬ Changes x r) ∨
      ∃ before w after, log = before ++ w :: after ∧ Puts locate w r text ∧
        ∀ x ∈ after, ¬ Changes x r := by
  refine (h.provenance (fun s r text => ours r ∧ s.1 r = some text) (Puts locate) Changes
    (fun s x t r text hs hheld => ?_) ⟨hours, hstored⟩).imp_left
      fun ⟨⟨_, hstart⟩, huntouched⟩ => ⟨hstart, huntouched⟩
  obtain ⟨hours, htext⟩ := hheld
  obtain ⟨hbefore, hafter, hserves, -⟩ := hs
  obtain hsame | ⟨request, he, hplace, ⟨hput, hbody⟩ | ⟨-, hnone⟩⟩ := hserves.kept r hours
  · refine .inr ⟨?_, hours, hsame ▸ htext⟩
    rw [Changes, hbefore, hafter, hsame]
    exact not_not.mpr rfl
  · rw [hbody] at htext
    refine .inl ⟨request, he, hput, hplace, Option.some.inj htext, ?_⟩
    rw [hafter, hbody, htext]
  · rw [hnone] at htext
    cases htext

/-- All that a run puts was given to the call that puts it. -/
theorem writes_of_put {world : Cards ρ → (e : Effect) → Reply e → Cards ρ → Prop}
    (h : Run (poolStep world) (start, pool svc chrono calls) log s)
    {ev : Act (Cards ρ) ι Effect Reply} (hev : ev ∈ log) {request : DavRequest}
    (he : ev.effect = .send request) (hput : request.method = .put) :
    ∃ contact uid, Writes svc (calls ev.call) request contact uid := by
  have hsound : Sound (fun i => contract svc (calls i)) (fun _ _ _ => True) (fun _ => True) log s :=
    pool_sound (fun _ _ _ _ _ _ _ _ _ => ⟨trivial, trivial⟩) trivial
      (fun i => always_writes (chrono i) (calls i)) h
  obtain ⟨before, after, rfl⟩ := List.append_of_mem hev
  exact (hsound.acts before ev after rfl).1 request he hput

/-- The fields of a contact as a caller sees them. -/
def fieldsOf (summary : ContactSummary) : ParsedVcard where
  uid := summary.uid
  fullName := summary.fullName
  givenName := summary.givenName
  familyName := summary.familyName
  emails := summary.emails
  phones := summary.phones
  organization := summary.organization
  title := summary.title
  note := summary.note
  birthday := summary.birthday
  hasPhoto := summary.hasPhoto

theorem fieldsOf_contactSummary (contact : DavContact) :
    fieldsOf (contactSummary contact) = parseVcard contact.vcard := rfl

/-- A caller sees what the decoder makes of the card of a contact. That is the
contact itself where a card loses nothing of it. -/
structure Shows (summary : ContactSummary) (contact : ContactInput) (uid : Text) : Prop where
  read : fieldsOf summary = decoded contact uid
  whole : Lossless contact → fieldsOf summary = asGiven contact uid

theorem parse_sameText {contact : ContactInput} {uid text vcard : Text}
    (hbuilt : buildVcard contact uid = .ok text) (h : SameText vcard text) :
    parseVcard vcard = decoded contact uid := by
  obtain rfl | rfl := h
  · exact parseVcard_buildVcard hbuilt
  · rw [parseVcard_replaceCrLf hbuilt]
    exact parseVcard_buildVcard hbuilt

theorem shows_of_sameText {contact : ContactInput} {uid text : Text} {card : DavContact}
    (hbuilt : buildVcard contact uid = .ok text) (h : SameText card.vcard text) :
    Shows (contactSummary card) contact uid := by
  have hread : fieldsOf (contactSummary card) = decoded contact uid :=
    (fieldsOf_contactSummary card).trans (parse_sameText hbuilt h)
  exact ⟨hread, fun hwhole => hread.trans (decoded_of_lossless hwhole (buildVcard_ok hbuilt).1)⟩

/-- A call was given this contact, and what it wrote is what stands there after
these steps. -/
structure LastWritten (svc : CardDavMcpService) (calls : ι → ServiceCall) (locate : Url → ρ)
    (log : Log ρ ι) (r : ρ) (contact : ContactInput) (uid : Text) : Prop where
  wrote : ∃ before w after request, log = before ++ w :: after ∧ w.effect = .send request ∧
    locate request.url = r ∧ Writes svc (calls w.call) request contact uid ∧
    w.after r = some request.body ∧ ∀ x ∈ after, ¬ Changes x r

/-- A contact that a call returns shows the one that was last written to its
place, whichever call wrote it, or the card there has never changed. -/
theorem listed_as_written
    (hentities : ∀ e : Predefined, svc.carddav.xml.resolveXmlEntity e.name = some [e.char])
    (h : Run (poolStep (Serves svc.carddav locate ours)) (start, pool svc chrono calls) log s)
    {i : ι} {r : ContactsResult} (hdone : s.2 i = .done (.ok (.contacts r)))
    {summary : ContactSummary} (hmem : summary ∈ r.contacts) {url : Url}
    (hresolve : svc.carddav.resolveHref summary.href = .ok url) (hours : ours (locate url)) :
    ∃ before ev after, log = before ++ ev :: after ∧ ev.call = i ∧
      ((∃ text, start (locate url) = some text ∧ (∀ x ∈ before, ¬ Changes x (locate url)) ∧
          SameText summary.vcard text) ∨
        ∃ contact uid, LastWritten svc calls locate before (locate url) contact uid ∧
          Shows summary contact uid) := by
  obtain ⟨request, answer, card, hreport, ⟨response, hsent, hstatus, hread⟩, rfl, hcard⟩ :=
    reported_of_run hentities (executes_of_run h hdone) summary hmem
  obtain ⟨ev, hev, rfl, hevent⟩ := exists_of_traceOf hsent
  obtain ⟨before, after, rfl⟩ := List.append_of_mem hev
  obtain ⟨s₁, s₂, hbefore, hstep, -⟩ := h.split
  obtain ⟨call, effect, reply, cards, cards'⟩ := ev
  cases hevent
  obtain ⟨rfl, -, hserves, -⟩ := hstep
  obtain ⟨doc, ⟨bytes, hcarries, hreads⟩, hstored⟩ :=
    hserves.listed request response rfl hreport hstatus
  obtain rfl := read_carries hcarries hread
  obtain ⟨text, htext, hsame⟩ := hstored card (hcard doc hreads) url hresolve hours
  refine ⟨before, _, after, rfl, rfl, ?_⟩
  obtain ⟨hstart, huntouched⟩ |
    ⟨first, w, later, rfl, ⟨put, he, hput, hplace, rfl, hafter⟩, hlater⟩ :=
    stored_provenance hbefore hours htext
  · exact .inl ⟨text, hstart, huntouched, hsame⟩
  · obtain ⟨contact, uid, hwrites⟩ := writes_of_put hbefore (by simp) he hput
    exact .inr ⟨contact, uid, ⟨first, w, later, put, rfl, he, hplace, hwrites, hafter, hlater⟩,
      shows_of_sameText hwrites.built hsame⟩

variable {within : Url → ρ → Prop}

/-- Such a server that keeps what it confirms and lists all that is within a book. -/
structure Honors (c : CardDavClient) (locate : Url → ρ) (ours : ρ → Prop) (within : Url → ρ → Prop)
    (cards : Cards ρ) (e : Effect) (reply : Reply e) (cards' : Cards ρ) : Prop
    extends Serves c locate ours cards e reply cards' where
  confirmed : ∀ request response,
    WriteContract.asSent ⟨e, reply⟩ = some (request, .ok response) → request.method = .put →
      response.status ∈ [200, 201, 204] → cards' (locate request.url) = some request.body
  complete : ∀ request response,
    WriteContract.asSent ⟨e, reply⟩ = some (request, .ok response) → request.method = .report →
      (response.status = 207 ∨ response.status = 200) → request.body = LIST_CONTACTS_BODY →
        ∃ doc, Lists c locate ours cards response doc ∧
          ∀ r text, ours r → within request.url r → cards r = some text →
            ∃ card ∈ (responses doc).filterMap cardOf, ∃ url, c.resolveHref card.href = .ok url ∧
              locate url = r

theorem unchanged_run {world : Cards ρ → (e : Effect) → Reply e → Cards ρ → Prop}
    {t : Cards ρ × (ι → Prog Effect Reply (Except ErrorData ToolResult))}
    (h : Run (poolStep world) s log t) {r : ρ} (hlog : ∀ x ∈ log, ¬ Changes x r) :
    t.1 r = s.1 r := by
  induction h with
  | nil => rfl
  | @snoc log u t ev _ hs ih =>
    obtain ⟨hbefore, hafter, -, -⟩ := hs
    rw [List.forall_mem_append] at hlog
    have hev := not_not.mp (hlog.2 ev (List.mem_singleton_self ev))
    rw [← hafter, hev, hbefore, ih hlog.1]

/-- What a call has written shows in every later listing of its book that asked
for more contacts than there were, as long as nothing else is stored in its place. -/
theorem written_then_listed
    (hentities : ∀ e : Predefined, svc.carddav.xml.resolveXmlEntity e.name = some [e.char])
    {a b : Log ρ ι}
    (h : Run (poolStep (Honors svc.carddav locate ours within)) (start, pool svc chrono calls)
      (a ++ b) s) {i j : ι} (hi : ∀ x ∈ a, x.call ≠ i) (hj : ∀ x ∈ b, x.call ≠ j)
    {w : ContactWriteResult} (hwritten : s.2 j = .done (.ok (.written w)))
    {params : ListContactsParams} (hcall : (calls i).request = .listContacts params)
    {r : ContactsResult} (hlisted : s.2 i = .done (.ok (.contacts r)))
    (hroom : r.contacts.length < min params.limit 100) :
    ∃ request contact a₁ ev a₂, a = a₁ ++ ev :: a₂ ∧ ev.call = j ∧ ev.effect = .send request ∧
      Writes svc (calls j) request contact w.uid ∧
      ∀ book, svc.carddav.resolveHref params.addressbookHref = .ok book →
        within book (locate request.url) → ours (locate request.url) →
        (∀ x ∈ a₂ ++ b, ¬ Changes x (locate request.url)) →
          ∃ summary ∈ r.contacts, Shows summary contact w.uid := by
  obtain ⟨request, contact, ⟨stored, hsent, hstatus⟩, hwrites⟩ :=
    done_of_run (executes_of_run h hwritten)
  obtain ⟨ev, hev, rfl, hevent⟩ := exists_of_traceOf hsent
  have hev : ev ∈ a := (List.mem_append.mp hev).resolve_right fun hmem => hj ev hmem rfl
  obtain ⟨a₁, a₂, rfl⟩ := List.append_of_mem hev
  obtain ⟨call, effect, reply, cards, cards'⟩ := ev
  cases hevent
  refine ⟨request, contact, a₁, _, a₂, rfl, rfl, rfl, hwrites,
    fun book hbook hwithin hours hunchanged => ?_⟩
  have hlists := executes_of_run h hlisted
  simp only [pool, ServiceCall.run, hcall] at hlists
  obtain ⟨tr, r', _, htrace, hlist, hreturn⟩ := executes_tryBind_ok.mp hlists
  obtain ⟨rfl, hr⟩ := executes_pure.mp hreturn
  obtain rfl : r = r' := by simpa using hr
  obtain ⟨token, url, answer, -, hurl, ⟨response, hasked, hanswer, hread⟩, hexact⟩ :=
    executes_listContacts hentities hlist
  obtain rfl : book = url := Except.ok.inj (hbook.symm.trans hurl)
  -- the answer comes after the write, since the listing began after it
  rw [List.append_nil] at htrace
  rw [← htrace] at hasked
  obtain ⟨rep, hrep, hrepCall, hrepEvent⟩ := exists_of_traceOf hasked
  have hrep : rep ∈ b := (List.mem_append.mp hrep).resolve_left fun hmem => hi rep hmem hrepCall
  obtain ⟨b₁, b₂, rfl⟩ := List.append_of_mem hrep
  obtain ⟨rcall, reffect, rreply, rcards, rcards'⟩ := rep
  cases hrepEvent
  rw [List.append_assoc, List.cons_append] at h
  obtain ⟨s₁, s₂, -, ⟨-, hput, hputs, -⟩, hrest⟩ := h.split
  rw [← List.append_assoc] at hrest
  obtain ⟨s₃, s₄, hbetween, ⟨hbefore, -, hlistens, -⟩, -⟩ := hrest.split
  have hkept := unchanged_run hbetween fun x hx => hunchanged x (by
    rw [List.mem_append] at hx
    simp only [List.mem_append, List.mem_cons]
    exact hx.imp_right .inl)
  rw [hputs.confirmed request stored rfl hwrites.put hstatus] at hkept
  have hbody : (CardDavClient.bearerAuth token (CardDavClient.reportRequest book
      LIST_CONTACTS_BODY)).body = LIST_CONTACTS_BODY := by
    rw [CardDavClient.bearerAuth, CardDavClient.reportRequest]
  obtain ⟨doc, ⟨⟨bytes, hcarries, hreads⟩, hsound⟩, hcomplete⟩ :=
    hlistens.complete _ response rfl rfl hanswer hbody
  obtain ⟨card, hcard, place, hplace, hlocate⟩ := hcomplete _ _ hours hwithin hkept
  obtain rfl := read_carries hcarries hread
  obtain ⟨-, hcontacts⟩ := hexact doc hreads
  obtain ⟨text, htext, hsame⟩ := hsound card hcard place hplace (hlocate ▸ hours)
  rw [hlocate, hkept] at htext
  obtain rfl := Option.some.inj htext
  refine ⟨contactSummary card, ?_, shows_of_sameText hwrites.built hsame⟩
  rw [hcontacts, List.length_map, List.length_take] at hroom
  rw [hcontacts, List.take_of_length_le (by omega)]
  exact List.mem_map_of_mem hcard

end Server

def samplePath : Text := "/b/u-1.vcf".toList

def sampleContact : ContactInput := { fullName := "Ann".toList, uid := some "u-1".toList }

def sampleCard : Text :=
  "BEGIN:VCARD\r\nVERSION:4.0\r\nUID:u-1\r\nFN:Ann\r\nN:;;;;\r\nEND:VCARD\r\n".toList

/-- The book with the card in it, each of its lines ended by a line feed alone. -/
def sampleBook : Content :=
  element "multistatus" (element "response" (element "href" (.chars (.text samplePath) .nil)
    (element "address-data" (.chars (.text (replaceCrLf sampleCard)) .nil))))

abbrev sampleService : CardDavMcpService := serviceAt sampleBook

/-- One call creates a contact, the other one lists its book. -/
def sampleCalls : Bool → ServiceCall
  | false => ⟨sampleContext, .createContact ⟨"/b/".toList, sampleContact⟩⟩
  | true => ⟨sampleContext, .listContacts ⟨"/b/".toList, 25⟩⟩

def empty : Cards Text := fun _ => none
def holding : Cards Text := Function.update empty samplePath (some sampleCard)

def samplePut : DavRequest := CardDavClient.bearerAuth "t".toList
  (CardDavClient.putRequest (plainUrl samplePath) ("if-none-match", ['*']) sampleCard)

def sampleReport : DavRequest := CardDavClient.bearerAuth "t".toList
  (CardDavClient.reportRequest (plainUrl "/b/".toList) LIST_CONTACTS_BODY)

def sampleWrite : Log Text Bool :=
  [⟨false, .rateLimitCheck "t".toList (some "u".toList) .write, .ok (), empty, empty⟩,
    ⟨false, .send samplePut, .ok { status := 201 }, empty, holding⟩]

def sampleList : Log Text Bool :=
  [⟨true, .rateLimitCheck "t".toList (some "u".toList) .read, .ok (), holding, holding⟩,
    ⟨true, .send sampleReport, .ok { status := 207 }, holding, holding⟩]

abbrev SampleServer := Honors sampleService.carddav Url.path (fun _ => True) (fun _ _ => True)

theorem honors_charge (cards : Cards Text) (category : RateLimit.Category) : SampleServer cards
    (.rateLimitCheck "t".toList (some "u".toList) category) (.ok ()) cards where
  kept _ _ := .inl rfl
  listed _ _ h := by cases h
  confirmed _ _ h := by cases h
  complete _ _ h := by cases h

theorem honors_put : SampleServer empty (.send samplePut) (.ok { status := 201 }) holding where
  kept r _ := by
    by_cases hr : r = samplePath
    · subst hr
      exact .inr ⟨samplePut, rfl, rfl, .inl ⟨rfl, Function.update_self ..⟩⟩
    · exact .inl (Function.update_of_ne hr ..)
  listed _ _ h := by
    cases h
    exact fun hreport => by cases hreport
  confirmed _ _ h := by
    cases h
    exact fun _ _ => Function.update_self ..
  complete _ _ h := by
    cases h
    exact fun hreport => by cases hreport

theorem cards_sampleBook : (responses sampleBook).filterMap cardOf =
    [⟨samplePath, none, replaceCrLf sampleCard⟩] := rfl

theorem reads_sampleBook (bytes : Bytes) : Reads sampleService.carddav bytes sampleBook :=
  ⟨rfl, by unfold Flat; decide⟩

theorem resolve_samplePath : sampleService.carddav.resolveHref samplePath =
    .ok (plainUrl samplePath) := rfl

theorem lists_sampleBook : Lists sampleService.carddav Url.path (fun _ => True) holding
    { status := 207 } sampleBook where
  delivered := ⟨[], .inr ⟨[], rfl, rfl⟩, reads_sampleBook _⟩
  stored card hcard url hurl _ := by
    rw [cards_sampleBook, List.mem_singleton] at hcard
    subst hcard
    obtain rfl : plainUrl samplePath = url := Except.ok.inj (resolve_samplePath.symm.trans hurl)
    exact ⟨sampleCard, Function.update_self .., .inr rfl⟩

theorem honors_report :
    SampleServer holding (.send sampleReport) (.ok { status := 207 }) holding where
  kept _ _ := .inl rfl
  listed _ _ h := by
    cases h
    exact fun _ _ => ⟨sampleBook, lists_sampleBook⟩
  confirmed _ _ h := by
    cases h
    exact fun hput => by cases hput
  complete _ _ h := by
    cases h
    refine fun _ _ _ => ⟨sampleBook, lists_sampleBook, fun r text _ _ hstored => ?_⟩
    by_cases hr : r = samplePath
    · subst hr
      rw [cards_sampleBook]
      exact ⟨_, List.mem_singleton_self _, _, resolve_samplePath, rfl⟩
    · rw [holding, Function.update_of_ne hr, empty] at hstored
      cases hstored

def sampleWritten : ContactWriteResult := ⟨samplePath, none, "u-1".toList⟩

def sampleListed : ContactsResult :=
  ⟨[contactSummary ⟨samplePath, none, replaceCrLf sampleCard⟩]⟩

abbrev samplePool : Bool → Prog Effect Reply (Except ErrorData ToolResult) :=
  pool sampleService (fun _ => sampleChrono ()) sampleCalls

theorem sample_creation : ∃ k k',
    samplePool false = .act (.rateLimitCheck "t".toList (some "u".toList) .write) k ∧
    k (.ok ()) = .act (.send samplePut) k' ∧
    k' (.ok { status := 201 }) = .done (.ok (.written sampleWritten)) := ⟨_, _, rfl, rfl, rfl⟩

theorem sample_listing : ∃ k k',
    samplePool true = .act (.rateLimitCheck "t".toList (some "u".toList) .read) k ∧
    k (.ok ()) = .act (.send sampleReport) k' ∧
    k' (.ok { status := 207 }) = .done (.ok (.contacts sampleListed)) :=
  ⟨_, _, rfl, rfl, rfl⟩

theorem sample_run : ∃ s,
    Run (poolStep SampleServer) (empty, samplePool) (sampleWrite ++ sampleList) s ∧
    s.2 false = .done (.ok (.written sampleWritten)) ∧
    s.2 true = .done (.ok (.contacts sampleListed)) := by
  obtain ⟨k₁, k₂, hcharge₁, hput, hwritten⟩ := sample_creation
  obtain ⟨k₃, k₄, hcharge₂, hreport, hlisted⟩ := sample_listing
  have hput' : Function.update samplePool false (k₁ (.ok ())) false = .act (.send samplePut) k₂ :=
    (Function.update_self ..).trans hput
  have hreport' (pool : Bool → Prog Effect Reply (Except ErrorData ToolResult)) :
      Function.update pool true (k₃ (.ok ())) true = .act (.send sampleReport) k₄ :=
    (Function.update_self ..).trans hreport
  exact ⟨_, .cons (poolStep_act hcharge₁ (honors_charge _ _)) (.cons (poolStep_act hput' honors_put)
    (.cons (poolStep_act hcharge₂ (honors_charge _ _)) (.cons
      (poolStep_act (hreport' _) honors_report) .nil))), hwritten, hlisted⟩

/-- The first two steps of the run have one request among them, and it is the
second. -/
theorem sampleWrite_split {a₁ a₂ : Log Text Bool} {ev : Act (Cards Text) Bool Effect Reply}
    {request : DavRequest} (h : sampleWrite = a₁ ++ ev :: a₂) (he : ev.effect = .send request) :
    request = samplePut ∧ a₂ = [] := by
  cases a₁ with
  | nil =>
    obtain ⟨rfl, -⟩ := List.cons.inj h
    cases he
  | cons x a₁ =>
    obtain ⟨-, h⟩ := List.cons.inj h
    cases a₁ with
    | nil =>
      obtain ⟨rfl, rfl⟩ := List.cons.inj h
      cases he
      exact ⟨rfl, rfl⟩
    | cons y a₁ => simp at h

theorem lossless_sampleContact : Lossless sampleContact where
  fullName := by decide
  lines := by simp [sampleContact]
  components := by simp [sampleContact, NoSemicolon]
  emails := by simp [sampleContact]
  phones := by simp [sampleContact]

/-- What was created is in the list as it was given, with the line breaks of the
document. -/
theorem written_then_listed_sample :
    ∃ summary ∈ sampleListed.contacts, fieldsOf summary = asGiven sampleContact "u-1".toList := by
  obtain ⟨s, hrun, hwritten, hlisted⟩ := sample_run
  obtain ⟨request, contact, a₁, ev, a₂, hlog, hcall, he, hwrites, hshown⟩ := written_then_listed
    (entities_serviceAt sampleBook) hrun (i := true) (j := false) (by simp [sampleWrite])
    (by simp [sampleList]) hwritten rfl hlisted (by decide)
  obtain rfl : sampleContact = contact := Option.some.inj hwrites.given
  obtain ⟨rfl, rfl⟩ := sampleWrite_split hlog he
  obtain ⟨summary, hmem, hshows⟩ := hshown (plainUrl "/b/".toList) rfl trivial trivial
    (by simp [sampleList, Changes])
  exact ⟨summary, hmem, hshows.whole lossless_sampleContact⟩

theorem listed_as_written_sample : ∃ (before : Log Text Bool) (contact : ContactInput) (uid : Text),
    LastWritten sampleService sampleCalls Url.path before samplePath contact uid ∧
      ∀ summary ∈ sampleListed.contacts, Shows summary contact uid := by
  obtain ⟨s, hrun, -, hlisted⟩ := sample_run
  have hserved : Run (poolStep (Serves sampleService.carddav Url.path fun _ => True))
      (empty, samplePool) (sampleWrite ++ sampleList) s :=
    hrun.mono fun _ _ _ ⟨hbefore, hafter, hhonors, hcall⟩ =>
      ⟨hbefore, hafter, hhonors.toServes, hcall⟩
  obtain ⟨before, ev, after, -, -, ⟨text, hstart, -⟩ | ⟨contact, uid, hlast, hshows⟩⟩ :=
    listed_as_written (entities_serviceAt sampleBook) hserved hlisted (List.mem_singleton_self _)
      resolve_samplePath trivial
  · cases hstart
  · refine ⟨before, contact, uid, hlast, fun summary hmem => ?_⟩
    rw [List.mem_singleton.mp hmem]
    exact hshows

end CardDavMcp.StoredCards
