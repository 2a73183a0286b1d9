import CardDavMcp.ContactTools
import CardDavMcp.Library.Executions
import CardDavMcp.UrlReferences

namespace CardDavMcp.WriteHrefs

open Library Library.Utf8Text Library.UrlReference Library.Interaction Urls DavError DavClient
  ContactTools UrlReferences
open BearerConfinement (SameAuthority Confined Resolves resolveHref_ok)

variable (c : CardDavClient)

/-- An href that a write to a URL returns can be used again. -/
def Reusable (url : Url) (location : Option Text) (href : Text) : Prop :=
  ∃ v, c.resolveHref href = .ok v ∧
    (v = url ∨ ∃ l, location = some l ∧ c.url.join url l = some v)

/-- All that was sent is one `PUT`. -/
def SentPut (tr : Trace Effect Reply) (url : Url) (response : RawResponse) : Prop :=
  ∃ request, request.method = .put ∧ request.url = url ∧ tr = [⟨.send request, .ok response⟩]

/-- The Location of a response, as far as it is text. -/
def locationOf (response : RawResponse) : Option Text := response.location.bind headerToStr

/-- The URL that a new contact is put to. -/
def newUrl (addressbookHref uid : Text) : Except CardDavError Url :=
  c.resolveHref addressbookHref >>= c.contactUrl addressbookHref uid

variable {c}

theorem executes_send {token : Text} {request : DavRequest} {tr : Trace Effect Reply}
    {response : DavHttpResponse} (h : Executes (c.send token request).run tr (.ok response)) :
    ∃ raw, tr = [⟨.send (CardDavClient.bearerAuth token request), .ok raw⟩] ∧
      response.location = locationOf raw := by
  simp only [CardDavClient.send] at h
  split_ifs at h
  · exact absurd (executes_throw.mp h).2 (by simp)
  · obtain ⟨before, reply, after, rfl, hask, hrest⟩ := executes_tryBind_ok.mp h
    obtain ⟨_, rfl, hreply⟩ := executes_ask.mp hask
    obtain rfl := Except.ok.inj hreply
    cases reply with
    | error e => exact absurd (executes_throw.mp hrest).2 (by simp)
    | ok raw =>
      dsimp only at hrest
      split_ifs at hrest
      · obtain ⟨_, _, _, -, -, hthrow⟩ := executes_tryBind_ok.mp hrest
        exact absurd (executes_throw.mp hthrow).2 (by simp)
      · obtain ⟨rfl, hreceive⟩ := executes_settle.mp hrest
        refine ⟨raw, rfl, ?_⟩
        rw [CardDavClient.receive] at hreceive
        cases hbody : readLimited raw c.maxResponseBytes with
        | error e =>
          rw [hbody] at hreceive
          cases hreceive
        | ok body =>
          rw [hbody] at hreceive
          rw [Except.ok.inj hreceive]
          rfl

theorem sentPut (token : Text) (url : Url) (precondition : String × Text) (vcard : Text)
    (raw : RawResponse) : SentPut
      [⟨.send (CardDavClient.bearerAuth token (CardDavClient.putRequest url precondition vcard)),
        .ok raw⟩] url raw :=
  ⟨_, rfl, rfl, rfl⟩

theorem executes_createContact {token addressbookHref uid vcard : Text} {tr : Trace Effect Reply}
    {r : DavWriteResult}
    (h : Executes (c.createContact token addressbookHref uid vcard).run tr (.ok r)) :
    ∃ url response, newUrl c addressbookHref uid = .ok url ∧ SentPut tr url response ∧
      r.href = (locationOf response).getD url.path := by
  rw [CardDavClient.createContact] at h
  obtain ⟨_, book, _, rfl, hresolve, hrest⟩ := executes_tryBind_ok.mp h
  obtain ⟨rfl, hbook⟩ := executes_settle.mp hresolve
  obtain ⟨_, url, _, rfl, hnew, hput⟩ := executes_tryBind_ok.mp hrest
  obtain ⟨rfl, hurl⟩ := executes_settle.mp hnew
  obtain ⟨_, response, _, rfl, hsend, hanswer⟩ := executes_tryBind_ok.mp hput
  obtain ⟨raw, rfl, hlocation⟩ := executes_send hsend
  have hnewUrl : newUrl c addressbookHref uid = .ok url := by
    rw [newUrl, ← hbook, hurl]
    rfl
  split_ifs at hanswer
  · obtain ⟨rfl, hr⟩ := executes_pure.mp hanswer
    obtain rfl := Except.ok.inj hr
    exact ⟨url, raw, hnewUrl, sentPut .., congrArg (·.getD url.path) hlocation⟩
  all_goals exact absurd (executes_throw.mp hanswer).2 (by simp)

theorem executes_updateContact {token contactHref vcard : Text} {etag : Option Text}
    {tr : Trace Effect Reply} {r : DavWriteResult}
    (h : Executes (c.updateContact token contactHref etag vcard).run tr (.ok r)) :
    ∃ url response, c.resolveHref contactHref = .ok url ∧ SentPut tr url response ∧
      r.href = (locationOf response).getD contactHref := by
  rw [CardDavClient.updateContact] at h
  obtain ⟨_, url, _, rfl, hresolve, hput⟩ := executes_tryBind_ok.mp h
  obtain ⟨rfl, hurl⟩ := executes_settle.mp hresolve
  obtain ⟨_, response, _, rfl, hsend, hanswer⟩ := executes_tryBind_ok.mp hput
  obtain ⟨raw, rfl, hlocation⟩ := executes_send hsend
  split_ifs at hanswer
  · obtain ⟨rfl, hr⟩ := executes_pure.mp hanswer
    obtain rfl := Except.ok.inj hr
    exact ⟨url, raw, hurl.symm, sentPut .., congrArg (·.getD contactHref) hlocation⟩
  all_goals exact absurd (executes_throw.mp hanswer).2 (by simp)

/-- A reference without a host leads to the same place from the base URL and from
the URL of a request, or from the base URL to the path and the query of this
URL. -/
def Agrees (S : UrlStandard) (base url : Url) (r : Text) : Prop :=
  r.head?.any isSlash ∨ SameTarget S.kept base.path url.path base.query url.query r ∨
    UrlReference.escaped S.segment S.query (reached S.kept base.path base.query r) =
      (url.path, url.query)

/-- When the href that a write to a URL returns can be used again, given when it
can without a Location: a Location has to name the origin of the client, or no
host, no fragment and a place on which the client and the server agree. -/
def CanReuse (S : UrlStandard) (base url : Url) (own : Prop) : Option Text → Prop
  | none => own
  | some l => trim l = l ∧ l ≠ [] ∧
    ((OwnHost base.scheme l = true ∧
        ∃ named, S.named base.scheme l = some named ∧ Confined base named) ∨
      ∃ r, OwnHost base.scheme l = false ∧ relativePart base.scheme l = some r ∧
        ¬ S.TooLong base l ∧ '#' ∉ r ∧ Agrees S base url r)

theorem relativePart_of_ownHost {scheme l : Text} (h : OwnHost scheme l = false) :
    ∃ r, relativePart scheme l = some r := by
  rw [OwnHost] at h
  cases hpart : relativePart scheme l with
  | none =>
    rw [hpart] at h
    cases h
  | some r => exact ⟨r, rfl⟩

section Standard

variable {S : UrlStandard} (hU : StandardUrls c.url S) (hbase : S.Valid c.baseUrl)
  (huser : c.baseUrl.username = [] ∧ c.baseUrl.password = none)

include hU hbase huser

theorem resolved_valid {href : Text} {u : Url} (h : c.resolveHref href = .ok u) :
    S.Valid u ∧ SameAuthority c.baseUrl u := by
  obtain ⟨-, -, hjoin, hconfined⟩ := (resolveHref_ok c).mp h
  have hsame : SameAuthority c.baseUrl u :=
    ⟨hconfined.scheme, hconfined.host, hconfined.port, hconfined.username.trans huser.1.symm,
      hconfined.password.trans huser.2.symm⟩
  refine ⟨?_, hsame⟩
  cases hown : OwnHost c.baseUrl.scheme href with
  | true =>
    rw [hU.named _ _ hbase hown] at hjoin
    exact hU.namedValid _ _ _ hbase hown hjoin hsame.scheme
  | false =>
    obtain ⟨r, hpart⟩ := relativePart_of_ownHost hown
    exact (hU.placed _ _ _ _ hbase hpart hown hjoin).1

theorem newUrl_valid {addressbookHref uid : Text} {url : Url}
    (h : newUrl c addressbookHref uid = .ok url) :
    (S.Valid url ∧ SameAuthority c.baseUrl url) ∧ url.query = none ∧ url.fragment = none := by
  rw [newUrl] at h
  cases hbook : c.resolveHref addressbookHref with
  | error e =>
    rw [hbook] at h
    cases h
  | ok book =>
    obtain ⟨hvalid, hsame⟩ := resolved_valid hU hbase huser hbook
    rw [hbook] at h
    change c.contactUrl addressbookHref uid book = .ok url at h
    rw [CardDavClient.contactUrl] at h
    cases hpush : c.url.pushSegment book (uid ++ ".vcf".toList) with
    | none =>
      rw [hpush] at h
      cases h
    | some pushed =>
      rw [hpush] at h
      obtain rfl := Except.ok.inj h
      obtain ⟨hvalid', hsame'⟩ := hU.push _ _ _ hvalid hpush
      obtain ⟨hvalid'', hsame'', hquery, hfragment⟩ := hU.clear _ hvalid'
      exact ⟨⟨hvalid'', (hsame.trans hsame').trans hsame''⟩, hquery, hfragment⟩

variable {url : Url} (hurl : S.Valid url ∧ SameAuthority c.baseUrl url)
  (hfragment : url.fragment = none)

include hurl hfragment

omit huser in
/-- A reference without a host that the client accepts is read alike by the
server, or means the URL of the request. -/
theorem agrees_of_reusable {l r : Text} {v : Url} (hpart : relativePart c.baseUrl.scheme l = some r)
    (hown : OwnHost c.baseUrl.scheme l = false) (hjoin : c.url.join c.baseUrl l = some v)
    (h : v = url ∨ c.url.join url l = some v) : Agrees S c.baseUrl url r := by
  obtain ⟨-, -, hplace, -⟩ := hU.placed _ _ _ _ hbase hpart hown hjoin
  rw [Agrees]
  by_cases hslash : r.head?.any isSlash = true
  · exact .inl hslash
  refine .inr ?_
  obtain rfl | hjoin' := h
  · exact .inr hplace.symm
  · have hscheme := hurl.2.scheme
    obtain ⟨-, -, hplace', -⟩ :=
      hU.placed _ _ _ _ hurl.1 (hscheme ▸ hpart) (hscheme ▸ hown) hjoin'
    have hsame := hplace.symm.trans hplace'
    rw [reached, reached, if_neg hslash, if_neg hslash] at hsame
    exact .inl ((escaped_target_iff hU.slash (hU.escaped _ hbase).1 (hU.escaped _ hurl.1).1
      (hU.escaped _ hbase).2 (hU.escaped _ hurl.1).2).mp hsame)

omit huser in
theorem reusable_of_agrees {l r : Text} {v : Url} (hpart : relativePart c.baseUrl.scheme l = some r)
    (hown : OwnHost c.baseUrl.scheme l = false) (hjoin : c.url.join c.baseUrl l = some v)
    (hplain : '#' ∉ r) (h : Agrees S c.baseUrl url r) : v = url ∨ c.url.join url l = some v := by
  obtain ⟨hvalid, hsame, hplace, hnone⟩ := hU.placed _ _ _ _ hbase hpart hown hjoin
  have halike (hreached : reached S.kept c.baseUrl.path c.baseUrl.query r =
      reached S.kept url.path url.query r) : c.url.join url l = some v := by
    rw [← hU.alike _ _ _ _ hbase hurl.1 hurl.2 hpart hown hreached, hjoin]
  obtain hslash | htarget | hplace' := h
  · refine .inr (halike ?_)
    rw [reached, reached, if_pos hslash, if_pos hslash]
  · refine .inr (halike ?_)
    rw [reached, reached, (target_eq_iff ..).mpr htarget]
  · obtain ⟨hpath, hquery⟩ := Prod.mk.inj (hplace.trans hplace')
    have hauthority : SameAuthority v url :=
      ⟨hurl.2.scheme.trans hsame.scheme.symm, hurl.2.host.trans hsame.host.symm,
        hurl.2.port.trans hsame.port.symm, hurl.2.username.trans hsame.username.symm,
        hurl.2.password.trans hsame.password.symm⟩
    exact .inl (hU.ext _ _ hvalid hurl.1 hauthority hpath hquery
      ((hnone.mpr hplain).trans hfragment.symm))

theorem reusable_location_iff (own : Prop) (l : Text) :
    Reusable c url (some l) l ↔ CanReuse S c.baseUrl url own (some l) := by
  have hscheme := hurl.2.scheme
  have hsome (v : Url) :
      (v = url ∨ ∃ l', some l = some l' ∧ c.url.join url l' = some v) ↔
        v = url ∨ c.url.join url l = some v := by simp
  constructor
  · rintro ⟨v, hv, hor⟩
    obtain ⟨htrim, hne, hjoin, hconfined⟩ := (resolveHref_ok c).mp hv
    refine ⟨htrim, hne, ?_⟩
    cases hown : OwnHost c.baseUrl.scheme l with
    | true => exact .inl ⟨rfl, v, hU.named _ _ hbase hown ▸ hjoin, hconfined⟩
    | false =>
      obtain ⟨r, hpart⟩ := relativePart_of_ownHost hown
      obtain ⟨-, -, -, hnone⟩ := hU.placed _ _ _ _ hbase hpart hown hjoin
      refine .inr ⟨r, rfl, hpart, fun hlong => ?_, hnone.mp hconfined.fragment,
        agrees_of_reusable hU hbase hurl hfragment hpart hown hjoin ((hsome v).mp hor)⟩
      rw [(hU.tooLong _ _ hbase hown).mpr hlong] at hjoin
      cases hjoin
  · rintro ⟨htrim, hne, ⟨hown, v, hnamed, hconfined⟩ | ⟨r, hown, hpart, hshort, hplain, hagrees⟩⟩
    · have hjoin := (hU.named _ _ hbase hown).trans hnamed
      have hjoin' : c.url.join url l = some v := by
        rw [hU.named _ _ hurl.1 (hscheme ▸ hown), hscheme, hnamed]
      exact ⟨v, (resolveHref_ok c).mpr ⟨htrim, hne, hjoin, hconfined⟩, (hsome v).mpr (.inr hjoin')⟩
    · obtain ⟨v, hjoin⟩ : ∃ v, c.url.join c.baseUrl l = some v := by
        rw [← Option.isSome_iff_exists, ← Option.ne_none_iff_isSome]
        exact fun hnone => hshort ((hU.tooLong _ _ hbase hown).mp hnone)
      obtain ⟨-, hsame, -, hnone⟩ := hU.placed _ _ _ _ hbase hpart hown hjoin
      have hconfined : Confined c.baseUrl v :=
        ⟨hsame.scheme, hsame.host, hsame.port, hsame.username.trans huser.1,
          hsame.password.trans huser.2, hnone.mpr hplain⟩
      exact ⟨v, (resolveHref_ok c).mpr ⟨htrim, hne, hjoin, hconfined⟩, (hsome v).mpr
        (reusable_of_agrees hU hbase hurl hfragment hpart hown hjoin hplain hagrees)⟩

/-- Without a Location, the path of a URL can be used if it does not begin with
two slashes. -/
theorem reusable_path_iff (hquery : url.query = none) :
    Reusable c url none url.path ↔ ¬ ['/', '/'] <+: url.path := by
  obtain ⟨hne, hplain⟩ := hU.path url hurl.1
  constructor
  · rintro ⟨v, hv, rfl | ⟨_, hl, -⟩⟩ hslashes
    · obtain ⟨-, -, hjoin, -⟩ := (resolveHref_ok c).mp hv
      exact absurd (hU.hostInPath _ _ _ hbase hurl.1 hslashes hjoin) (lt_irrefl _)
    · cases hl
  · intro hslashes
    have hjoin := hU.ownPath _ _ hbase hurl.1 hurl.2 hquery hfragment hslashes
    refine ⟨url, (resolveHref_ok c).mpr ⟨trim_of_forall hplain, hne, hjoin, ?_⟩, .inl rfl⟩
    exact ⟨hurl.2.scheme, hurl.2.host, hurl.2.port, hurl.2.username.trans huser.1,
      hurl.2.password.trans huser.2, hfragment⟩

end Standard

/-- The hrefs that writes return can be used again exactly if the Location names
the origin of the client or something on which client and server agree, or if
there is none and the path of the new contact does not look like a host. -/
theorem write_hrefs_iff {S : UrlStandard} (hU : StandardUrls c.url S)
    (hbase : S.Valid c.baseUrl) (huser : c.baseUrl.username = [] ∧ c.baseUrl.password = none) :
    (∀ token addressbookHref uid vcard tr r,
      Executes (c.createContact token addressbookHref uid vcard).run tr (.ok r) →
      ∃ url response, newUrl c addressbookHref uid = .ok url ∧ SentPut tr url response ∧
        (Reusable c url (locationOf response) r.href ↔
          CanReuse S c.baseUrl url (¬ ['/', '/'] <+: url.path) (locationOf response))) ∧
    ∀ token contactHref etag vcard tr r,
      Executes (c.updateContact token contactHref etag vcard).run tr (.ok r) →
      ∃ url response, c.resolveHref contactHref = .ok url ∧ SentPut tr url response ∧
        (Reusable c url (locationOf response) r.href ↔
          CanReuse S c.baseUrl url True (locationOf response)) := by
  constructor
  · intro token addressbookHref uid vcard tr r h
    obtain ⟨url, response, hnew, hsent, hhref⟩ := executes_createContact h
    obtain ⟨hurl, hquery, hfragment⟩ := newUrl_valid hU hbase huser hnew
    refine ⟨url, response, hnew, hsent, ?_⟩
    rw [hhref]
    cases locationOf response with
    | none => exact reusable_path_iff hU hbase huser hurl hfragment hquery
    | some l => exact reusable_location_iff hU hbase huser hurl hfragment _ l
  · intro token contactHref etag vcard tr r h
    obtain ⟨url, response, hresolve, hsent, hhref⟩ := executes_updateContact h
    have hurl := resolved_valid hU hbase huser hresolve
    have hfragment := ((resolveHref_ok c).mp hresolve).confined.fragment
    refine ⟨url, response, hresolve, hsent, ?_⟩
    rw [hhref]
    cases locationOf response with
    | none => exact iff_of_true ⟨url, hresolve, .inl rfl⟩ trivial
    | some l => exact reusable_location_iff hU hbase huser hurl hfragment _ l

instance (c : CardDavClient) (url : Url) (location : Option Text) (href : Text) :
    Decidable (Reusable c url location href) :=
  decidable_of_iff ((c.resolveHref href).toOption.any fun v =>
      v = url ∨ location.any fun l => c.url.join url l = some v) <| by
    rw [Reusable]
    cases c.resolveHref href <;> simp [Except.toOption, Option.any_eq_true]

def sampleUrl (path : Text) : Url := urlOf (plainUrl ['/']) path none none

def sampleClient : CardDavClient :=
  { plainService.carddav with url := standardUrls, baseUrl := sampleUrl ['/'] }

/-- A server that stores every card and names a Location. -/
def stored (location : Option Text) : ∀ e : Effect, Reply e
  | .send _ => .ok
      { status := 201, location := location.map (·.map fun c => UInt8.ofNat c.toNat) }
  | .discoveryLookup _ => none
  | .discoveryInsert _ _ | .discoveryRemove _ | .dropToken _ => ()
  | .rateLimitCheck _ _ _ => .ok ()
  | .fillBytes len => List.replicate len 0

def storedAt (path : Text) (location : Option Text) : Trace Effect Reply :=
  let request := CardDavClient.bearerAuth ['t']
    (CardDavClient.putRequest (sampleUrl path) ("if-none-match", ['*']) [])
  [⟨.send request, stored location (.send request)⟩]

def responseOf (location : Option Text) : RawResponse :=
  { status := 201, location := location.map (·.map fun c => UInt8.ofNat c.toNat) }

/-- Creating a contact in a book puts it at a path, and the href that is
returned cannot be used again. -/
def Loses (book path : Text) (location : Option Text) (href : Text) : Prop :=
  Executes (sampleClient.createContact ['t'] book ['a'] []).run (storedAt path location)
    (.ok ⟨href, none⟩) ∧
  SentPut (storedAt path location) (sampleUrl path) (responseOf location) ∧
  ¬ Reusable sampleClient (sampleUrl path) (locationOf (responseOf location)) href

theorem loses_of {book path href : Text} {location : Option Text}
    (hrun : playedOut (stored location) (sampleClient.createContact ['t'] book ['a'] []).run =
      (storedAt path location, .ok ⟨href, none⟩))
    (hlost : ¬ Reusable sampleClient (sampleUrl path) (locationOf (responseOf location)) href) :
    Loses book path location href := by
  have h := executes_playedOut (stored location)
    (sampleClient.createContact ['t'] book ['a'] []).run
  rw [hrun] at h
  exact ⟨h, sentPut .., hlost⟩

/-- A foreign Location is passed on, a relative one means another resource to
the client, and a path with two slashes is taken for a host. -/
theorem hrefs_lost :
    Loses "/b/".toList "/b/a.vcf".toList (some "https://evil.test/a.vcf".toList)
      "https://evil.test/a.vcf".toList ∧
    Loses "/b/".toList "/b/a.vcf".toList (some "new.vcf".toList) "new.vcf".toList ∧
    Loses "https://dav.test//c/".toList "//c/a.vcf".toList none "//c/a.vcf".toList :=
  ⟨loses_of rfl (by decide +kernel), loses_of rfl (by decide +kernel),
    loses_of rfl (by decide +kernel)⟩

/-- From both URLs, this Location climbs to the root. -/
theorem write_hrefs_sample : ∃ tr r url response,
    Executes (sampleClient.createContact ['t'] "/b/".toList ['a'] []).run tr (.ok r) ∧
    SentPut tr url response ∧ r.href = "../b/new.vcf".toList ∧
    Reusable sampleClient url (locationOf response) r.href := by
  have hrun : playedOut (stored (some "../b/new.vcf".toList))
      (sampleClient.createContact ['t'] "/b/".toList ['a'] []).run =
        (storedAt "/b/a.vcf".toList (some "../b/new.vcf".toList),
          .ok ⟨"../b/new.vcf".toList, none⟩) := rfl
  have h := executes_playedOut (stored (some "../b/new.vcf".toList))
    (sampleClient.createContact ['t'] "/b/".toList ['a'] []).run
  rw [hrun] at h
  have hbase : Plain sampleClient.baseUrl := ⟨rfl, by decide +kernel⟩
  obtain ⟨url, response, hnew, hsent, hiff⟩ :=
    (write_hrefs_iff plain_standard hbase ⟨rfl, rfl⟩).1 _ _ _ _ _ _ h
  refine ⟨_, _, url, response, h, hsent, rfl, hiff.mpr ?_⟩
  obtain ⟨_, -, rfl, htr⟩ := hsent
  cases htr
  have hjoin : joinStandard (sampleUrl ['/']) "../b/new.vcf".toList ≠ none := by decide +kernel
  exact ⟨by decide +kernel, by decide, .inr ⟨_, by decide +kernel, rfl, hjoin, by decide,
    .inr (.inl (by decide +kernel))⟩⟩

end CardDavMcp.WriteHrefs
