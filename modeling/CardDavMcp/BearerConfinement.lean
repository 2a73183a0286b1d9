import CardDavMcp.DavClient
import CardDavMcp.Library.BoundedTable

namespace CardDavMcp.BearerConfinement

open Library.Utf8Text Library.Table Library.BoundedTable Library.Interaction Library.Runs Urls
    DavError Multistatus
  DavClient

/-- The parts of a URL that say whom a request goes to. -/
structure SameAuthority (base u : Url) : Prop where
  scheme : u.scheme = base.scheme
  host : u.hostStr = base.hostStr
  port : u.portOrKnownDefault = base.portOrKnownDefault
  username : u.username = base.username
  password : u.password = base.password

theorem SameAuthority.trans {u v w : Url} (h : SameAuthority u v) (h' : SameAuthority v w) :
    SameAuthority u w where
  scheme := h'.scheme.trans h.scheme
  host := h'.host.trans h.host
  port := h'.port.trans h.port
  username := h'.username.trans h.username
  password := h'.password.trans h.password

/-- How the URL library joins a plain relative path and edits a URL. -/
structure KeepsAuthority (U : UrlCrate) : Prop where
  joinWellKnown : ∀ base u, U.join base WELL_KNOWN = some u → SameAuthority base u ∧
    u.fragment = none
  setPath : ∀ u path, SameAuthority u (U.setPath u path)
  clearQuery : ∀ u, SameAuthority u (U.clearQuery u)
  clearFragment : ∀ u, SameAuthority u (U.clearFragment u)
  noFragment : ∀ u, (U.clearFragment u).fragment = none
  pushSegment : ∀ u segment v, U.pushSegment u segment = some v → SameAuthority u v

/-- A URL on the origin of another, without userinfo and fragment. -/
structure Confined (base u : Url) : Prop where
  scheme : u.scheme = base.scheme
  host : u.hostStr = base.hostStr
  port : u.portOrKnownDefault = base.portOrKnownDefault
  username : u.username = []
  password : u.password = none
  fragment : u.fragment = none

theorem Confined.edit {base u v : Url} (h : Confined base u) (hv : SameAuthority u v)
    (hfragment : v.fragment = none) : Confined base v where
  scheme := hv.scheme.trans h.scheme
  host := hv.host.trans h.host
  port := hv.port.trans h.port
  username := hv.username.trans h.username
  password := hv.password.trans h.password
  fragment := hfragment

theorem Confined.rebase {base base' u : Url} (h : SameAuthority base base')
    (hu : Confined base' u) :
    Confined base u where
  scheme := hu.scheme.trans h.scheme
  host := hu.host.trans h.host
  port := hu.port.trans h.port
  username := hu.username
  password := hu.password
  fragment := hu.fragment

theorem baseOf_same {U : UrlCrate} (hU : KeepsAuthority U) (parsed : Url) :
    SameAuthority parsed (baseOf U parsed) := by
  have hcleared := (hU.clearQuery parsed).trans (hU.clearFragment _)
  simp only [baseOf]
  split_ifs
  · exact hcleared
  · exact hcleared.trans (hU.setPath _ _)

/-- What the constructor makes of a base URL. -/
theorem new_ok {K : Crates} {stalwartBase : Text} {connectIp : Option Text} {cap : Nat}
    {c : CardDavClient} (h : CardDavClient.new K stalwartBase connectIp cap = .ok c) :
    c.toCrates = K ∧ ∃ parsed, K.url.parse stalwartBase = some parsed ∧
      c.baseUrl = baseOf K.url parsed ∧ K.url.join c.baseUrl WELL_KNOWN = some c.discoveryUrl := by
  simp only [CardDavClient.new, bind, Except.bind, pure, Except.pure, throw, throwThe,
    MonadExceptOf.throw] at h
  cases hparse : K.url.parse stalwartBase with
  | none =>
    simp only [hparse] at h
    split_ifs at h
  | some parsed =>
    cases hjoin : K.url.join (baseOf K.url parsed) WELL_KNOWN with
    | none =>
      simp only [hparse, hjoin] at h
      split_ifs at h
    | some discoveryUrl =>
      simp only [hparse, hjoin] at h
      split_ifs at h
      obtain rfl := Except.ok.inj h
      exact ⟨rfl, parsed, rfl, rfl, hjoin⟩

section Client

variable (c : CardDavClient)

/-- An href and the URL it stands for, on the origin of the client. -/
structure Resolves (href : Text) (u : Url) : Prop where
  trimmed : trim href = href
  nonempty : href ≠ []
  joins : c.url.join c.baseUrl href = some u
  confined : Confined c.baseUrl u

/-- The check that every href has to pass. -/
def Passes (href : Text) : Prop := ∃ u, Resolves c href u

theorem resolveHref_ok {href : Text} {u : Url} : c.resolveHref href = .ok u ↔
    Resolves c href u := by
  constructor
  · intro h
    simp only [CardDavClient.resolveHref] at h
    split_ifs at h with hplain
    cases hjoin : c.url.join c.baseUrl href with
    | none => simp [hjoin] at h
    | some resolved =>
      simp only [hjoin] at h
      split_ifs at h with hbad
      obtain rfl := Except.ok.inj h
      simp only [not_or, not_not, List.isEmpty_iff] at hplain
      simp only [not_or, not_not, Bool.not_eq_true, Option.isSome_eq_false_iff,
        Option.isNone_iff_eq_none, List.isEmpty_iff] at hbad
      obtain ⟨⟨hscheme, hhost, hport⟩, husername, hpassword, hfragment⟩ := hbad
      exact ⟨hplain.1, hplain.2, hjoin, ⟨hscheme, hhost, hport, husername, hpassword, hfragment⟩⟩
  · rintro ⟨htrim, hne, hjoin, hconfined⟩
    simp [CardDavClient.resolveHref, htrim, hne, hjoin, hconfined.scheme, hconfined.host,
      hconfined.port, hconfined.username, hconfined.password, hconfined.fragment]

theorem passes_of_ok {href : Text} {u : Url} (h : c.resolveHref href = .ok u) : Passes c href :=
  ⟨u, (resolveHref_ok c).mp h⟩

theorem resolveHref_error {href : Text} {e : CardDavError} (h : c.resolveHref href = .error e) :
    e = .invalidHref href := by
  simp only [CardDavClient.resolveHref] at h
  split_ifs at h
  · exact (Except.error.inj h).symm
  · cases hjoin : c.url.join c.baseUrl href with
    | none => simpa [hjoin, eq_comm] using h
    | some resolved =>
      simp only [hjoin] at h
      split_ifs at h
      exact (Except.error.inj h).symm

theorem not_passes {href : Text} {e : CardDavError} (h : c.resolveHref href = .error e) :
    ¬ Passes c href := by
  rintro ⟨u, hu⟩
  rw [(resolveHref_ok c).mpr hu] at h
  cases h

/-- A listing is collected whole if all its hrefs pass, else it fails on one
that does not. -/
theorem collect_spec {β : Type} (href : β → Text) (pick : ParsedDavResponse → Option β)
    (items : List ParsedDavResponse) :
    match c.collect href pick items with
    | .ok found => found = items.filterMap pick ∧ ∀ h ∈ found.map href, Passes c h
    | .error e => ∃ h ∈ (items.filterMap pick).map href, ¬ Passes c h ∧ e = .invalidHref h := by
  induction items with
  | nil => exact ⟨rfl, by simp⟩
  | cons item items ih =>
    cases hpick : pick item with
    | none =>
      simp only [CardDavClient.collect, hpick]
      rwa [List.filterMap_cons_none hpick]
    | some found =>
      rw [List.filterMap_cons_some hpick]
      cases hresolve : c.resolveHref (href found) with
      | error e =>
        simp only [CardDavClient.collect, hpick, hresolve, bind, Except.bind]
        exact ⟨href found, by simp, not_passes c hresolve, resolveHref_error c hresolve⟩
      | ok u =>
        cases hrest : c.collect href pick items with
        | error e =>
          rw [hrest] at ih
          obtain ⟨h, hmem, hnot, he⟩ := ih
          simp only [CardDavClient.collect, hpick, hresolve, hrest, bind, Except.bind]
          exact ⟨h, List.mem_cons_of_mem _ hmem, hnot, he⟩
        | ok others =>
          rw [hrest] at ih
          obtain ⟨rfl, hpass⟩ := ih
          simp only [CardDavClient.collect, hpick, hresolve, hrest, bind, Except.bind,
            pure, Except.pure]
          refine ⟨trivial, fun h hmem => ?_⟩
          obtain rfl | hmem := List.mem_cons.mp hmem
          · exact passes_of_ok c hresolve
          · exact hpass h hmem

end Client

/-- The operations of the client. -/
inductive Operation
  | discover (token : Text)
  | listAddressBooks (token : Text)
  | listContacts (token addressbookHref : Text)
  | searchContacts (token addressbookHref query : Text)
  | getContact (token contactHref : Text)
  | createContact (token addressbookHref uid vcard : Text)
  | updateContact (token contactHref : Text) (etag : Option Text) (vcard : Text)
  | deleteContact (token contactHref : Text) (etag : Option Text)
  | evict (token : Text)
deriving DecidableEq, Repr

inductive Result
  | discovery (discovery : DavDiscovery)
  | addressBooks (books : List DavAddressBook)
  | contacts (contacts : List DavContact)
  | contact (contact : DavContact)
  | written (result : DavWriteResult)
  | unit
deriving DecidableEq, Repr

def Operation.run (c : CardDavClient) : Operation → Dav Result
  | .discover token => do return .discovery (← c.discover token)
  | .listAddressBooks token => do return .addressBooks (← c.listAddressBooks token)
  | .listContacts token href => do return .contacts (← c.listContacts token href)
  | .searchContacts token href query => do return .contacts (← c.searchContacts token href query)
  | .getContact token href => do return .contact (← c.getContact token href)
  | .createContact token href uid vcard =>
    do return .written (← c.createContact token href uid vcard)
  | .updateContact token href etag vcard => do
    return .written (← c.updateContact token href etag vcard)
  | .deleteContact token href etag => do
    c.deleteContact token href etag
    return .unit
  | .evict token => do
    c.evict token
    return .unit

/-- The hrefs in a result that stands for a listing. -/
def Result.listed : Result → List Text
  | .addressBooks books => books.map DavAddressBook.href
  | .contacts found => found.map DavContact.href
  | .discovery _ | .contact _ | .written _ => []
  | .unit => []

/-- The href an operation is called with, if it comes to use it. -/
def Operation.callerHrefs : Operation → List Text
  | .discover _ | .listAddressBooks _ | .evict _ => []
  | .listContacts _ href | .getContact _ href | .createContact _ href _ _
  | .updateContact _ href _ _ | .deleteContact _ href _ => [href]
  | .searchContacts _ href query => if CardDavClient.checkQuery query = .ok () then [href] else []

def Operation.lists : Operation → Bool
  | .listAddressBooks _ => true
  | _ => false

/-- What an operation has in hand: the home set it found, and all hrefs that
it goes on to use. -/
structure Hand where
  home : Option Text := none
  hrefs : List Text := []

def bookHrefs (home : Option Text) (items : List ParsedDavResponse) : List Text :=
  match home with
  | some home =>
    (items.filterMap (CardDavClient.bookOf (normalizeHref home))).map DavAddressBook.href
  | none => []

def contactHrefs (items : List ParsedDavResponse) : List Text :=
  (items.filterMap CardDavClient.contactOf).map DavContact.href

/-- The items of a reply that is accepted as a listing. -/
def multistatus (c : CardDavClient) (reply : Except String RawResponse) :
    Except CardDavError (List ParsedDavResponse) := do
  let response ← c.outcome reply
  ensureMultistatus response.status
  parseMultistatus c.xml response.body

/-- What the items of a listing add to the hand. -/
def Hand.serve (hand : Hand) (request : DavRequest) (items : List ParsedDavResponse) : Hand :=
  match request.method with
  | .propfind =>
    if request.body = CURRENT_USER_PRINCIPAL_BODY then
      { hand with
        hrefs := hand.hrefs ++ (items.findSome? ParsedDavResponse.currentUserPrincipal).toList }
    else if request.body = ADDRESSBOOK_HOME_BODY then
      let home := items.findSome? ParsedDavResponse.addressbookHome
      ⟨home, hand.hrefs ++ home.toList⟩
    else { hand with hrefs := hand.hrefs ++ bookHrefs hand.home items }
  | .report => { hand with hrefs := hand.hrefs ++ contactHrefs items }
  | .get | .put | .delete => hand

theorem toList_ne {s t : String} (h : s ≠ t) : s.toList ≠ t.toList :=
  fun heq => h (String.toList_inj.mp heq)

section Serve

variable (hand : Hand) (url : Url) (depth : String) (items : List ParsedDavResponse)

theorem serve_principal :
    hand.serve (CardDavClient.propfindRequest url depth CURRENT_USER_PRINCIPAL_BODY) items =
      { hand with
        hrefs := hand.hrefs ++
          (items.findSome? ParsedDavResponse.currentUserPrincipal).toList } := by
  simp [Hand.serve, CardDavClient.propfindRequest]

theorem serve_home :
    hand.serve (CardDavClient.propfindRequest url depth ADDRESSBOOK_HOME_BODY) items =
      ⟨items.findSome? ParsedDavResponse.addressbookHome,
        hand.hrefs ++ (items.findSome? ParsedDavResponse.addressbookHome).toList⟩ := by
  have hbody : ADDRESSBOOK_HOME_BODY ≠ CURRENT_USER_PRINCIPAL_BODY := toList_ne (by simp)
  simp [Hand.serve, CardDavClient.propfindRequest, hbody]

theorem serve_books :
    hand.serve (CardDavClient.propfindRequest url depth LIST_ADDRESSBOOKS_BODY) items =
      { hand with hrefs := hand.hrefs ++ bookHrefs hand.home items } := by
  have hbody : LIST_ADDRESSBOOKS_BODY ≠ CURRENT_USER_PRINCIPAL_BODY := toList_ne (by simp)
  have hbody' : LIST_ADDRESSBOOKS_BODY ≠ ADDRESSBOOK_HOME_BODY := toList_ne (by simp)
  simp [Hand.serve, CardDavClient.propfindRequest, hbody, hbody']

end Serve

/-- A cached home set is used by the one operation that lists it. -/
def Hand.take (c : CardDavClient) (op : Operation) (hand : Hand) : (e : Effect) × Reply e → Hand
  | ⟨.send request, reply⟩ =>
    match multistatus c reply with
    | .ok items => hand.serve request items
    | .error _ => hand
  | ⟨.discoveryLookup _, some discovery⟩ =>
    ⟨some discovery.addressbookHomeHref,
      if op.lists then hand.hrefs ++ [discovery.addressbookHomeHref] else hand.hrefs⟩
  | _ => hand

/-- What an operation has in hand after the effects of a trace. -/
def inHand (c : CardDavClient) (op : Operation) (tr : Trace Effect Reply) : Hand :=
  tr.foldl (Hand.take c op) { hrefs := op.callerHrefs }

section Contracts

variable (c : CardDavClient) (op : Operation)

def AllPass (tr : Trace Effect Reply) : Prop := ∀ href ∈ (inHand c op tr).hrefs, Passes c href

/-- Every effect comes while all hrefs in hand pass; requests stay with the
origin, and only a discovery that passes is cached. -/
def contract : Contract Effect Reply where
  guar tr e := AllPass c op tr ∧
    match e with
    | .send request => Confined c.baseUrl request.url
    | .discoveryInsert _ discovery =>
      Passes c discovery.principalHref ∧ Passes c discovery.addressbookHomeHref
    | _ => True
  rely _ _ := True

/-- An operation that succeeds has used only hrefs that pass, and lists only
such; one that got hold of another fails on it. -/
def Ends {α : Type} (listed : α → List Text) (tr : Trace Effect Reply) :
    Except CardDavError α → Prop
  | .ok a => AllPass c op tr ∧ ∀ href ∈ listed a, Passes c href
  | .error e => AllPass c op tr ∨
      ∃ href ∈ (inHand c op tr).hrefs, ¬ Passes c href ∧ e = .invalidHref href

variable {c op} {α : Type} {tr : Trace Effect Reply} {token : Text} {request : DavRequest}

theorem inHand_append (tr tr' : Trace Effect Reply) :
    inHand c op (tr ++ tr') = tr'.foldl (Hand.take c op) (inHand c op tr) := List.foldl_append

theorem rejects_multistatus {reply : Except String RawResponse} (h : CardDavClient.Rejects reply) :
    multistatus c reply = .error .unauthorized := by
  cases reply with
  | error e => simp [CardDavClient.Rejects] at h
  | ok response =>
    simp only [CardDavClient.Rejects, decide_eq_true_eq] at h
    simp [multistatus, CardDavClient.outcome, h, bind, Except.bind]

theorem inHand_send (tr : Trace Effect Reply) (token : Text) (request : DavRequest)
    (reply : Except String RawResponse) :
    inHand c op (tr ++ [⟨.send (CardDavClient.bearerAuth token request), reply⟩]) =
      match multistatus c reply with
      | .ok items => (inHand c op tr).serve request items
      | .error _ => inHand c op tr := by
  rw [inHand_append]
  rfl

theorem inHand_sent (tr : Trace Effect Reply) (token : Text) (request : DavRequest)
    (reply : Except String RawResponse) :
    inHand c op (tr ++ c.sent token request reply) =
      match multistatus c reply with
      | .ok items => (inHand c op tr).serve request items
      | .error _ => inHand c op tr := by
  rw [← inHand_send tr token, CardDavClient.sent]
  split_ifs
  · rw [List.append_cons, inHand_append]
    rfl
  · rfl

/-- A request to a confined URL keeps the contract. -/
theorem always_send_confined (h₀ : AllPass c op tr) (hurl : Confined c.baseUrl request.url)
    {post : Trace Effect Reply → Except CardDavError DavHttpResponse → Prop}
    (hinvalid : ∀ e, post tr (.error e))
    (hpost : ∀ reply, post (tr ++ c.sent token request reply) (c.outcome reply)) :
    Always (contract c op) post tr (c.send token request).run := by
  refine c.always_send (hinvalid _) ⟨h₀, hurl⟩ ?_ (fun reply _ => hpost reply)
  intro reply hreply
  refine ⟨?_, trivial⟩
  rw [AllPass, inHand_send, rejects_multistatus hreply]
  exact h₀

/-- What the answer to a request for a listing leaves in hand. -/
def Listed (c : CardDavClient) (op : Operation) (hand : Hand) (request : DavRequest)
    (tr : Trace Effect Reply) : Except CardDavError DavHttpResponse → Prop
  | .error _ => inHand c op tr = hand
  | .ok response =>
    inHand c op tr =
      match parseMultistatus c.xml response.body with
      | .ok items => hand.serve request items
      | .error _ => hand

/-- A request whose answer has to be a multistatus. -/
theorem always_listing (h₀ : AllPass c op tr) (hurl : Confined c.baseUrl request.url) :
    Always (contract c op) (Listed c op (inHand c op tr) request) tr (do
      let response ← c.send token request
      settle (ensureMultistatus response.status)
      return response : Dav DavHttpResponse).run := by
  refine always_tryBind.mpr (always_send_confined h₀ hurl (fun e => rfl) (fun reply => ?_))
  have hhand : inHand c op (tr ++ c.sent token request reply) = _ :=
    inHand_sent tr token request reply
  cases hout : c.outcome reply with
  | error e => simpa [multistatus, hout, Listed, bind, Except.bind] using hhand
  | ok response =>
    apply always_settle_bind.mpr
    cases hstatus : ensureMultistatus response.status with
    | error e => simpa [multistatus, hout, hstatus, Listed, bind, Except.bind] using hhand
    | ok u =>
      apply always_pure.mpr
      simpa [multistatus, hout, hstatus, Listed, bind, Except.bind] using hhand

/-- What follows on a listing keeps the contract if it does so with whatever
the listing brings in. -/
theorem always_after_listing {p : Dav DavHttpResponse} (h₀ : AllPass c op tr)
    (hp : Always (contract c op) (Listed c op (inHand c op tr) request) tr p.run)
    {k : List ParsedDavResponse → Dav α} {post : Trace Effect Reply → Except CardDavError α → Prop}
    (hfail : ∀ tr e, AllPass c op tr → post tr (.error e))
    (hk : ∀ tr' items, inHand c op tr' = (inHand c op tr).serve request items →
      Always (contract c op) post tr' (k items).run) :
    Always (contract c op) post tr
      (p >>= fun response => settle (parseMultistatus c.xml response.body) >>= k).run := by
  refine always_tryBind.mpr (hp.mono fun tr' result hresult => ?_)
  cases result with
  | error e =>
    apply hfail tr' e
    rw [AllPass, hresult]
    exact h₀
  | ok response =>
    apply always_settle_bind.mpr
    simp only [Listed] at hresult
    cases hparse : parseMultistatus c.xml response.body with
    | error e =>
      rw [hparse] at hresult
      apply hfail tr' e
      rw [AllPass, hresult]
      exact h₀
    | ok items =>
      rw [hparse] at hresult
      exact hk tr' items hresult

theorem AllPass.extend {tr' : Trace Effect Reply} (h₀ : AllPass c op tr) {found : Option Text}
    (hhand : (inHand c op tr').hrefs = (inHand c op tr).hrefs ++ found.toList)
    (hfound : ∀ href, found = some href → Passes c href) : AllPass c op tr' := by
  intro href hmem
  rw [hhand, List.mem_append, Option.mem_toList] at hmem
  obtain hmem | hmem := hmem
  · exact h₀ href hmem
  · exact hfound href hmem

/-- Whatever is discovered over the network passes the check. -/
theorem always_discover (hop : op.callerHrefs = [])
    (hwellKnown : Confined c.baseUrl c.discoveryUrl) :
    Always (contract c op) (fun tr result => match result with
      | .ok discovery => (inHand c op tr).home = some discovery.addressbookHomeHref ∧
        ((AllPass c op tr ∧ Passes c discovery.addressbookHomeHref) ∨
          (inHand c op tr).hrefs = if op.lists then [discovery.addressbookHomeHref] else [])
      | .error e => AllPass c op tr ∨
        ∃ href ∈ (inHand c op tr).hrefs, ¬ Passes c href ∧ e = .invalidHref href)
      [] (c.discover token).run := by
  have hnil : AllPass c op [] := by simp [AllPass, inHand, hop]
  refine always_ask_bind.mpr ⟨⟨hnil, trivial⟩, fun found _ => ?_⟩
  cases found with
  | some discovery =>
    refine always_pure.mpr ⟨rfl, .inr ?_⟩
    simp [inHand, Hand.take, hop]
  | none =>
    have h₀ : AllPass c op [⟨.discoveryLookup (c.hashToken token), none⟩] := hnil
    apply always_after_listing h₀ (always_listing h₀ hwellKnown) (fun tr e h => .inl h)
    intro tr items hhand
    rw [serve_principal] at hhand
    have hhrefs := congrArg Hand.hrefs hhand
    cases hprincipal : items.findSome? ParsedDavResponse.currentUserPrincipal with
    | none =>
      refine always_throw.mpr (.inl (h₀.extend hhrefs ?_))
      simp [hprincipal]
    | some principalHref =>
      rw [hprincipal] at hhrefs
      apply always_settle_bind.mpr
      cases hresolve : c.resolveHref principalHref with
      | error e =>
        refine .inr ⟨principalHref, ?_, not_passes c hresolve, resolveHref_error c hresolve⟩
        simp [hhrefs]
      | ok principalUrl =>
        have h₁ : AllPass c op tr := by
          apply h₀.extend hhrefs
          intro href hfound
          rw [← Option.some.inj hfound]
          exact passes_of_ok c hresolve
        refine always_after_listing h₁ (always_listing h₁ ((resolveHref_ok c).mp hresolve).confined)
          (fun tr e h => .inl h) ?_
        intro tr' items' hhand'
        rw [serve_home] at hhand'
        have hhrefs' := congrArg Hand.hrefs hhand'
        cases hhome : items'.findSome? ParsedDavResponse.addressbookHome with
        | none =>
          refine always_throw.mpr (.inl (h₁.extend hhrefs' ?_))
          simp [hhome]
        | some addressbookHomeHref =>
          rw [hhome] at hhrefs'
          apply always_settle_bind.mpr
          cases hresolve' : c.resolveHref addressbookHomeHref with
          | error e =>
            refine .inr ⟨addressbookHomeHref, ?_, not_passes c hresolve',
              resolveHref_error c hresolve'⟩
            simp [hhrefs']
          | ok homeUrl =>
            have h₂ : AllPass c op tr' := by
              apply h₁.extend hhrefs'
              intro href hfound
              rw [← Option.some.inj hfound]
              exact passes_of_ok c hresolve'
            refine always_ask_bind.mpr
              ⟨⟨h₂, passes_of_ok c hresolve, passes_of_ok c hresolve'⟩, fun _ _ => ?_⟩
            have hinsert (r : Unit) : inHand c op (tr' ++ [⟨.discoveryInsert (c.hashToken token)
                ⟨principalHref, addressbookHomeHref⟩, r⟩]) = inHand c op tr' := inHand_append _ _
            refine always_pure.mpr ⟨?_, .inl ⟨?_, passes_of_ok c hresolve'⟩⟩
            · rw [hinsert, hhand', hhome]
            · rw [AllPass, hinsert]
              exact h₂

/-- The end of an operation that collects what a listing brings in. -/
theorem ends_collect {β : Type} {href : β → Text} {pick : ParsedDavResponse → Option β}
    {items : List ParsedDavResponse} {tr' : Trace Effect Reply} (h₀ : AllPass c op tr)
    (hhand : (inHand c op tr').hrefs =
      (inHand c op tr).hrefs ++ (items.filterMap pick).map href) :
    Ends c op (fun found => found.map href) tr' (c.collect href pick items) := by
  have hcollect := collect_spec c href pick items
  cases hresult : c.collect href pick items with
  | ok found =>
    rw [hresult] at hcollect
    obtain ⟨rfl, hpass⟩ := hcollect
    refine ⟨fun h hmem => ?_, hpass⟩
    rw [hhand, List.mem_append] at hmem
    exact hmem.elim (h₀ h) (hpass h)
  | error e =>
    rw [hresult] at hcollect
    obtain ⟨h, hmem, hnot, he⟩ := hcollect
    refine .inr ⟨h, ?_, hnot, he⟩
    rw [hhand]
    exact List.mem_append_right _ hmem

theorem always_listAddressBooks (hwellKnown : Confined c.baseUrl c.discoveryUrl) :
    Always (contract c (.listAddressBooks token))
      (Ends c (.listAddressBooks token) (fun books => books.map DavAddressBook.href)) []
      (c.listAddressBooks token).run := by
  refine always_tryBind.mpr ((always_discover rfl hwellKnown).mono fun tr result h => ?_)
  cases result with
  | error e => exact h
  | ok discovery =>
    obtain ⟨hhome, h⟩ := h
    apply always_settle_bind.mpr
    cases hresolve : c.resolveHref discovery.addressbookHomeHref with
    | error e =>
      refine .inr ⟨discovery.addressbookHomeHref, ?_, not_passes c hresolve,
        resolveHref_error c hresolve⟩
      obtain ⟨-, hpasses⟩ | hhrefs := h
      · exact absurd hpasses (not_passes c hresolve)
      · simp [hhrefs, Operation.lists]
    | ok homeUrl =>
      have h₀ : AllPass c (.listAddressBooks token) tr := by
        obtain ⟨h₀, -⟩ | hhrefs := h
        · exact h₀
        · intro href hmem
          rw [hhrefs, Operation.lists, if_pos rfl, List.mem_singleton] at hmem
          exact hmem ▸ passes_of_ok c hresolve
      refine always_after_listing h₀ (always_listing h₀ ((resolveHref_ok c).mp hresolve).confined)
        (fun tr e h => .inl h) ?_
      intro tr' items hhand
      rw [serve_books, hhome] at hhand
      exact ends_collect h₀ (congrArg Hand.hrefs hhand)

theorem ends_unresolved {listed : α → List Text} {href : Text} {e : CardDavError}
    (hmem : href ∈ (inHand c op tr).hrefs) (hresolve : c.resolveHref href = .error e) :
    Ends c op listed tr (.error e) :=
  .inr ⟨href, hmem, not_passes c hresolve, resolveHref_error c hresolve⟩

/-- A request that brings in no href, and what follows on it. -/
theorem always_plain_send (h₀ : AllPass c op tr) (hurl : Confined c.baseUrl request.url)
    (hplain : ∀ (hand : Hand) items, hand.serve request items = hand) {k : DavHttpResponse → Dav α}
    {post : Trace Effect Reply → Except CardDavError α → Prop}
    (hfail : ∀ tr e, AllPass c op tr → post tr (.error e))
    (hk : ∀ tr response, AllPass c op tr → Always (contract c op) post tr (k response).run) :
    Always (contract c op) post tr (c.send token request >>= k).run := by
  refine always_tryBind.mpr
    (always_send_confined h₀ hurl (fun e => hfail tr e h₀) (fun reply => ?_))
  have h₁ : AllPass c op (tr ++ c.sent token request reply) := by
    rw [AllPass, inHand_sent]
    cases multistatus c reply with
    | error e => exact h₀
    | ok items =>
      simp only [hplain]
      exact h₀
  cases c.outcome reply with
  | error e => exact hfail _ e h₁
  | ok response => exact hk _ response h₁

theorem AllPass.ends {result : Except CardDavError α} (h : AllPass c op tr) :
    Ends c op (fun _ => []) tr result := by
  cases result with
  | ok a => exact ⟨h, by simp⟩
  | error e => exact .inl h

theorem contactUrl_confined (hU : KeepsAuthority c.url) {href uid : Text} {url newUrl : Url}
    (hurl : Confined c.baseUrl url) (h : c.contactUrl href uid url = .ok newUrl) :
    Confined c.baseUrl newUrl := by
  rw [CardDavClient.contactUrl] at h
  cases hpush : c.url.pushSegment url (uid ++ ".vcf".toList) with
  | none =>
    simp only [hpush] at h
    cases h
  | some pushed =>
    simp only [hpush, Except.ok.injEq] at h
    subst h
    exact hurl.edit
      ((hU.pushSegment _ _ _ hpush).trans ((hU.clearQuery _).trans (hU.clearFragment _)))
      (hU.noFragment _)

section CalledWith

variable {href : Text} (hop : op.callerHrefs = [href])
include hop

theorem called_mem : href ∈ (inHand c op []).hrefs := by simp [inHand, hop]

theorem called_allPass {url : Url} (hresolve : c.resolveHref href = .ok url) : AllPass c op [] := by
  intro h hmem
  obtain rfl : h = href := by simpa [inHand, hop] using hmem
  exact passes_of_ok c hresolve

theorem always_queryContacts {body : Text} :
    Always (contract c op) (Ends c op (fun contacts => contacts.map DavContact.href)) []
      (c.queryContacts token href body).run := by
  apply always_settle_bind.mpr
  cases hresolve : c.resolveHref href with
  | error e => exact ends_unresolved (called_mem hop) hresolve
  | ok url =>
    have h₀ : AllPass c op [] := called_allPass hop hresolve
    have hurl : Confined c.baseUrl (CardDavClient.reportRequest url body).url :=
      ((resolveHref_ok c).mp hresolve).confined
    refine always_checked.mpr
      (always_after_listing h₀ (always_listing h₀ hurl) (fun tr e h => .inl h) ?_)
    intro tr items hhand
    exact always_settle.mpr (ends_collect h₀ (congrArg Hand.hrefs hhand))

theorem always_getContact :
    Always (contract c op) (Ends c op (fun _ => [])) [] (c.getContact token href).run := by
  apply always_settle_bind.mpr
  cases hresolve : c.resolveHref href with
  | error e => exact ends_unresolved (called_mem hop) hresolve
  | ok url =>
    refine always_plain_send (called_allPass hop hresolve) ((resolveHref_ok c).mp hresolve).confined
      (fun _ _ => rfl) (fun _ _ h => h.ends) (fun tr response h => ?_)
    split_ifs
    · apply always_settle_bind.mpr
      cases c.fromUtf8 response.body with
      | error e => exact h.ends
      | ok vcard => exact always_pure.mpr h.ends
    · exact always_throw.mpr h.ends
    · exact always_throw.mpr h.ends

theorem always_updateContact {etag : Option Text} {vcard : Text} :
    Always (contract c op) (Ends c op (fun _ => [])) []
      (c.updateContact token href etag vcard).run := by
  apply always_settle_bind.mpr
  cases hresolve : c.resolveHref href with
  | error e => exact ends_unresolved (called_mem hop) hresolve
  | ok url =>
    refine always_plain_send (called_allPass hop hresolve) ((resolveHref_ok c).mp hresolve).confined
      (fun _ _ => rfl) (fun _ _ h => h.ends) (fun tr response h => ?_)
    split_ifs
    · exact always_pure.mpr h.ends
    all_goals exact always_throw.mpr h.ends

theorem always_deleteContact {etag : Option Text} :
    Always (contract c op) (Ends c op (fun _ => [])) [] (c.deleteContact token href etag).run := by
  apply always_settle_bind.mpr
  cases hresolve : c.resolveHref href with
  | error e => exact ends_unresolved (called_mem hop) hresolve
  | ok url =>
    refine always_plain_send (called_allPass hop hresolve) ((resolveHref_ok c).mp hresolve).confined
      (fun _ _ => rfl) (fun _ _ h => h.ends) (fun tr response h => ?_)
    split_ifs
    · exact always_pure.mpr h.ends
    all_goals exact always_throw.mpr h.ends

theorem always_createContact (hU : KeepsAuthority c.url) {uid vcard : Text} :
    Always (contract c op) (Ends c op (fun _ => [])) []
      (c.createContact token href uid vcard).run := by
  apply always_settle_bind.mpr
  cases hresolve : c.resolveHref href with
  | error e => exact ends_unresolved (called_mem hop) hresolve
  | ok url =>
    have h₀ : AllPass c op [] := called_allPass hop hresolve
    apply always_settle_bind.mpr
    cases hnew : c.contactUrl href uid url with
    | error e => exact h₀.ends
    | ok newUrl =>
      have hconfined := contactUrl_confined hU ((resolveHref_ok c).mp hresolve).confined hnew
      refine always_plain_send h₀ hconfined (fun _ _ => rfl) (fun _ _ h => h.ends)
        (fun tr response h => ?_)
      split_ifs
      · exact always_pure.mpr h.ends
      all_goals exact always_throw.mpr h.ends

end CalledWith

theorem ends_map {β : Type} (listed : β → List Text) {p : Dav β} {f : β → Result}
    (h : Always (contract c op) (Ends c op listed) tr p.run) (hf : ∀ b, (f b).listed = listed b) :
    Always (contract c op) (Ends c op Result.listed) tr (p >>= fun b => pure (f b)).run := by
  refine always_tryBind.mpr (h.mono fun tr result hresult => ?_)
  cases result with
  | error e => exact hresult
  | ok b =>
    refine always_pure.mpr ⟨hresult.1, ?_⟩
    rw [hf]
    exact hresult.2

/-- Every operation of the client keeps the contract. -/
theorem always_run (hU : KeepsAuthority c.url) (hwellKnown : Confined c.baseUrl c.discoveryUrl)
    (op : Operation) : Always (contract c op) (Ends c op Result.listed) [] (op.run c).run := by
  cases op with
  | discover token =>
    refine ends_map (fun _ => []) ((always_discover rfl hwellKnown).mono ?_) (fun _ => rfl)
    intro tr result h
    cases result with
    | error e => exact h
    | ok discovery =>
      obtain ⟨-, ⟨hpass, -⟩ | hhrefs⟩ := h
      · exact hpass.ends
      · apply AllPass.ends
        intro href hmem
        simp [hhrefs, Operation.lists] at hmem
  | listAddressBooks token => exact ends_map _ (always_listAddressBooks hwellKnown) (fun _ => rfl)
  | listContacts token href => exact ends_map _ (always_queryContacts rfl) (fun _ => rfl)
  | searchContacts token href query =>
    refine ends_map (List.map DavContact.href) ?_ (fun _ => rfl)
    apply always_settle_bind.mpr
    cases hquery : CardDavClient.checkQuery query with
    | error e =>
      apply Or.inl
      intro href' hmem
      simp [inHand, Operation.callerHrefs, hquery] at hmem
    | ok u => exact always_queryContacts (by simp [Operation.callerHrefs, hquery])
  | getContact token href => exact ends_map _ (always_getContact rfl) (fun _ => rfl)
  | createContact token href uid vcard =>
    exact ends_map _ (always_createContact rfl hU) (fun _ => rfl)
  | updateContact token href etag vcard =>
    exact ends_map _ (always_updateContact rfl) (fun _ => rfl)
  | deleteContact token href etag => exact ends_map _ (always_deleteContact rfl) (fun _ => rfl)
  | evict token =>
    have h₀ : AllPass c (.evict token) [] := fun href hmem => absurd hmem List.not_mem_nil
    refine always_ask_bind.mpr
      ⟨⟨h₀, trivial⟩, fun r _ => always_pure.mpr ⟨?_, by simp [Result.listed]⟩⟩
    exact h₀

end Contracts

structure World where
  discoveries : Discoveries
  now : Nat

/-- Effects that leave the discovery cache alone. -/
def Outside : Effect → Prop
  | .discoveryLookup _ | .discoveryInsert _ _ | .discoveryRemove _ => False
  | .send _ | .rateLimitCheck _ _ _ | .dropToken _ | .fillBytes _ => True

/-- The cache answers at a clock that does not go back; anything else, the
server in the first place, answers as it likes. -/
inductive Answers : World → (e : Effect) → Reply e → World → Prop
  | lookup {w : World} {t : Nat} (key : Key) (ht : w.now ≤ t) :
      Answers w (.discoveryLookup key) (discoveryLookup t key w.discoveries) ⟨w.discoveries, t⟩
  | insert {w : World} {t : Nat} (order : IterOrder Key CachedDiscovery) (key : Key)
      (discovery : DavDiscovery) (ht : w.now ≤ t) :
      Answers w (.discoveryInsert key discovery) ()
        ⟨discoveryInsert order t key discovery w.discoveries, t⟩
  | remove {w : World} {t : Nat} (key : Key) (ht : w.now ≤ t) :
      Answers w (.discoveryRemove key) () ⟨w.discoveries.erase key, t⟩
  | outside {w : World} {t : Nat} (e : Effect) (reply : Reply e) (he : Outside e) (ht : w.now ≤ t) :
      Answers w e reply ⟨w.discoveries, t⟩

/-- An insertion stores its own discovery and brings in no other. -/
theorem lookup_discoveryInsert {order : IterOrder Key CachedDiscovery} {now : Nat} {key k : Key}
    {discovery : DavDiscovery} {cache : Discoveries} {entry : CachedDiscovery}
    (h : (discoveryInsert order now key discovery cache).lookup k = some entry) :
    entry = ⟨discovery, now⟩ ∨ cache.lookup k = some entry := by
  have hinserts : Inserts DISCOVERY_CAP CachedDiscovery.cachedAt
      (fun entry => decide (now - entry.cachedAt < DISCOVERY_TTL)) key ⟨discovery, now⟩ cache
      (discoveryInsert order now key discovery cache) := inserts_insertCapped (by decide)
  exact (hinserts.lookup h).imp And.right And.right

/-- Every discovery that came into the cache since the start passes the check. -/
def Vetted (c : CardDavClient) (start cache : Discoveries) : Prop :=
  ∀ key entry, cache.lookup key = some entry → start.lookup key = some entry ∨
    (Passes c entry.discovery.principalHref ∧ Passes c entry.discovery.addressbookHomeHref)

theorem Answers.keeps {c : CardDavClient} {op : Operation} {tr : Trace Effect Reply}
    {start : Discoveries} {w w' : World} {e : Effect} {r : Reply e} (h : Answers w e r w')
    (hw : Vetted c start w.discoveries) (hguar : (contract c op).guar tr e) :
    Vetted c start w'.discoveries := by
  cases h with
  | lookup | outside => exact hw
  | insert order key discovery ht =>
    intro k entry hentry
    obtain rfl | hold := lookup_discoveryInsert hentry
    · exact .inr hguar.2
    · exact hw k entry hold
  | remove key ht =>
    intro k entry hentry
    by_cases hk : k = key
    · subst hk
      simp at hentry
    · rw [AList.lookup_erase_ne hk] at hentry
      exact hw k entry hentry

section Run

variable {ι : Type} [DecidableEq ι]

/-- What holds of a client's operations in any run. -/
structure Confinement (c : CardDavClient) (base : Url) (ops : ι → Operation) (start : Discoveries)
    (log : List (Act World ι Effect Reply))
    (s : World × (ι → Prog Effect Reply (Except CardDavError Result))) : Prop where
  /-- Every request goes to the origin, and none comes after an href that fails. -/
  requests : ∀ a ev b request, log = a ++ ev :: b → ev.effect = .send request →
    Confined base request.url ∧ AllPass c (ops ev.call) (traceOf ev.call a)
  /-- An operation with an href in hand that fails has ended with this error. -/
  stops : ∀ i href, href ∈ (inHand c (ops i) (traceOf i log)).hrefs → ¬ Passes c href →
    ∃ failing ∈ (inHand c (ops i) (traceOf i log)).hrefs, ¬ Passes c failing ∧
      s.2 i = .done (.error (.invalidHref failing))
  cached : Vetted c start s.1.discoveries
  listed : ∀ i result, s.2 i = .done (.ok result) → ∀ href ∈ result.listed, Passes c href

/-- Whatever the server answers and whatever was cached, the bearer never
leaves the configured origin. -/
theorem bearer_confined {K : Crates} (hU : KeepsAuthority K.url) {stalwartBase : Text}
    {connectIp : Option Text} {cap : Nat} {c : CardDavClient} {base : Url}
    (hbase : K.url.parse stalwartBase = some base)
    (huser : base.username = [] ∧ base.password = none)
    (hnew : CardDavClient.new K stalwartBase connectIp cap = .ok c)
    (ops : ι → Operation) (start : Discoveries) (now : Nat)
    {log : List (Act World ι Effect Reply)}
    {s : World × (ι → Prog Effect Reply (Except CardDavError Result))}
    (h : Run (poolStep Answers) (⟨start, now⟩, fun i => ((ops i).run c).run) log s) :
    Confinement c base ops start log s := by
  obtain ⟨rfl, parsed, hparse, hbaseUrl, hjoin⟩ := new_ok hnew
  obtain rfl : base = parsed := Option.some.inj (hbase.symm.trans hparse)
  have hsame : SameAuthority base c.baseUrl := hbaseUrl ▸ baseOf_same hU base
  have hwellKnown : Confined c.baseUrl c.discoveryUrl := by
    obtain ⟨hedit, hfragment⟩ := hU.joinWellKnown _ _ hjoin
    exact ⟨hedit.scheme, hedit.host, hedit.port,
      hedit.username.trans (hsame.username.trans huser.1),
      hedit.password.trans (hsame.password.trans huser.2), hfragment⟩
  have hsound := pool_sound (C := fun i => contract c (ops i))
    (I := fun w : World => Vetted c start w.discoveries)
    (fun i tr w e r w' hw hguar hanswer => ⟨trivial, ?_⟩) (fun key entry h => .inl h)
    (fun i => always_run hU hwellKnown (ops i)) h
  · refine ⟨fun a ev b request hlog he => ?_, fun i href hmem hnot => ?_, hsound.world,
      fun i result hdone => ?_⟩
    · have hguar := (hsound.acts a ev b hlog).1
      rw [he] at hguar
      exact ⟨hguar.2.rebase hsame, hguar.1⟩
    · cases hp : s.2 i with
      | act e k =>
        have hi := hsound.calls i
        rw [hp] at hi
        exact absurd (hi.1.1 href hmem) hnot
      | done result =>
        have hends := hsound.returned hp
        cases result with
        | ok v => exact absurd (hends.1 href hmem) hnot
        | error e =>
          obtain hall | ⟨failing, hfailing, hnot', rfl⟩ := hends
          · exact absurd (hall href hmem) hnot
          · exact ⟨failing, hfailing, hnot', rfl⟩
    · exact (hsound.returned hdone).2
  · exact hanswer.keeps hw hguar

end Run

theorem keepsAuthority_plainUrls : KeepsAuthority plainUrls where
  joinWellKnown base u h := by
    obtain rfl := Option.some.inj h
    exact ⟨⟨rfl, rfl, rfl, rfl, rfl⟩, rfl⟩
  setPath _ _ := ⟨rfl, rfl, rfl, rfl, rfl⟩
  clearQuery _ := ⟨rfl, rfl, rfl, rfl, rfl⟩
  clearFragment _ := ⟨rfl, rfl, rfl, rfl, rfl⟩
  noFragment _ := rfl
  pushSegment _ _ _ h := by
    obtain rfl := Option.some.inj h
    exact ⟨rfl, rfl, rfl, rfl, rfl⟩

def hostileXml : String :=
  "<response><current-user-principal><href>https://evil.test/</href></current-user-principal></response>"

def hostileBody : Bytes := hostileXml.toList.map (fun c => UInt8.ofNat c.toNat)

open Library.XmlTree in
def hostileEvents : List (Except String Event) :=
  [.ok (.startTag ⟨none, "response".toList⟩),
   .ok (.startTag ⟨none, "current-user-principal".toList⟩),
   .ok (.startTag ⟨none, "href".toList⟩),
   .ok (.text (.ok "https://evil.test/".toList)),
   .ok (.endTag ⟨none, "href".toList⟩),
   .ok (.endTag ⟨none, "current-user-principal".toList⟩),
   .ok (.endTag ⟨none, "response".toList⟩),
   .ok .eof]

def sampleCrates : Crates where
  url := plainUrls
  xml := ⟨fun xml => if xml = hostileBody then hostileEvents else [], fun _ => none⟩
  hashToken token := token.map (fun c => UInt8.ofNat c.toNat)
  isIpAddr _ := false
  isHeaderValue value := value.all (fun c => (32 ≤ c.toNat && c.toNat ≠ 127) || c = '\t')
  utf8Error _ := "invalid utf-8"

def sampleBase : Url := withPath
  { serialization := [], scheme := "https".toList, hostStr := some "dav.test".toList,
    portOrKnownDefault := some 443 } ['/']

def sampleClient : CardDavClient :=
  { sampleCrates with
    baseUrl := sampleBase
    discoveryUrl := withPath sampleBase ('/' :: WELL_KNOWN)
    maxResponseBytes := 1024 }

theorem sampleClient_new :
    CardDavClient.new sampleCrates "https://dav.test/".toList none 1024 = .ok sampleClient := by
  rfl

def sampleReply : RawResponse := { status := 207, chunks := [.ok hostileBody] }

theorem sampleReply_multistatus : multistatus sampleClient (.ok sampleReply) =
    .ok [{ currentUserPrincipal := some "https://evil.test/".toList }] := by
  decide +kernel

theorem hostile_fails : ¬ Passes sampleClient "https://evil.test/".toList :=
  not_passes sampleClient (e := .invalidHref "https://evil.test/".toList) (by decide +kernel)

/-- One call names a foreign contact itself, the other discovers a foreign
principal. -/
def sampleOps : Bool → Operation
  | false => .getContact "t".toList "https://evil.test/".toList
  | true => .discover "t".toList

def sampleLookup : Act World Bool Effect Reply :=
  ⟨true, .discoveryLookup (sampleClient.hashToken "t".toList), none, ⟨∅, 0⟩, ⟨∅, 0⟩⟩

def sampleSend : Act World Bool Effect Reply :=
  ⟨true, .send (CardDavClient.bearerAuth "t".toList
      (CardDavClient.propfindRequest sampleClient.discoveryUrl "0" CURRENT_USER_PRINCIPAL_BODY)),
    .ok sampleReply, ⟨∅, 0⟩, ⟨∅, 0⟩⟩

def sampleStart : World × (Bool → Prog Effect Reply (Except CardDavError Result)) :=
  (⟨∅, 0⟩, fun i => ((sampleOps i).run sampleClient).run)

theorem sample_run : ∃ s, Run (poolStep Answers) sampleStart [sampleLookup, sampleSend] s := by
  have hvalid : (CardDavClient.bearerAuth "t".toList (CardDavClient.propfindRequest
      sampleClient.discoveryUrl "0" CURRENT_USER_PRINCIPAL_BODY)).headers.all
      (fun h => sampleClient.isHeaderValue h.2) := by decide +kernel
  obtain ⟨k, hk⟩ := starts_bind (f := fun discovery => pure (Result.discovery discovery))
    (starts_bind (starts_bind (sampleClient.starts_send hvalid)))
  exact ⟨_, .cons (poolStep_act rfl (.lookup _ le_rfl))
    (.cons (poolStep_act hk (.outside _ _ trivial le_rfl)) .nil)⟩

theorem bearer_confined_sample :
    ∃ s, Run (poolStep Answers) sampleStart [sampleLookup, sampleSend] s ∧
    (∀ i, s.2 i = .done (.error (.invalidHref "https://evil.test/".toList))) ∧
    Confinement sampleClient sampleBase sampleOps ∅ [sampleLookup, sampleSend] s := by
  obtain ⟨s, hs⟩ := sample_run
  have hbase : sampleCrates.url.parse "https://dav.test/".toList = some sampleBase := rfl
  have h := bearer_confined keepsAuthority_plainUrls hbase ⟨rfl, rfl⟩ sampleClient_new
    sampleOps ∅ 0 hs
  refine ⟨s, hs, fun i => ?_, h⟩
  have hhand : (inHand sampleClient (sampleOps i) (traceOf i [sampleLookup, sampleSend])).hrefs =
      ["https://evil.test/".toList] := by
    cases i with
    | false => rfl
    | true =>
      apply (congrArg Hand.hrefs (inHand_send [sampleLookup.event] _ _ (.ok sampleReply))).trans
      simp only [sampleReply_multistatus, serve_principal]
      rfl
  obtain ⟨failing, hmem, -, hdone⟩ :=
    h.stops i "https://evil.test/".toList (by simp [hhand]) hostile_fails
  rw [hhand, List.mem_singleton] at hmem
  rw [hdone, hmem]

end CardDavMcp.BearerConfinement
