import CardDavMcp.OAuthMetadata

namespace CardDavMcp.RedirectAllowlist

open Library.Utf8Text Urls OAuthRedirect OAuthProxy OAuthMetadata

variable {U : UrlCrate} {uri : Text} {url : Url} {key : String} {allowed : List Text}

/-- Cleartext only on a loopback host. -/
def SchemeAllowed (url : Url) : Prop :=
  if url.scheme = "https".toList then url.hostStr ≠ none
  else if url.scheme = "http".toList then ∃ host, url.hostStr = some host ∧ isLoopbackHost host
  else url.scheme ≠ []

/-- A redirect URI that the operator may list. -/
structure Valid (U : UrlCrate) (uri : Text) (url : Url) : Prop where
  trimmed : trim uri = uri
  nonempty : uri ≠ []
  parsed : U.parse uri = some url
  scheme : SchemeAllowed url
  fragment : url.fragment = none
  username : url.username = []
  password : url.password = none

theorem reject_ok {ε : Type} {c : Prop} [Decidable c] {e : ε} {k : PUnit → Except ε Unit} :
    (if c then throw e >>= k else k ⟨⟩) = .ok () ↔ ¬ c ∧ k ⟨⟩ = .ok () := by
  split_ifs with hc
  · exact ⟨nofun, fun h => absurd hc h.1⟩
  · exact ⟨fun h => ⟨hc, h⟩, And.right⟩

theorem last_ok {ε : Type} {c : Prop} [Decidable c] {e : ε} :
    (if c then throw e else pure () : Except ε Unit) = .ok () ↔ ¬ c := by
  split_ifs with hc
  · exact ⟨nofun, fun h => absurd hc h⟩
  · exact ⟨fun _ => hc, fun _ => rfl⟩

theorem loopback_iff {host : Option Text} : ¬ (!isLoopbackHost (host.getD [])) = true ↔
    ∃ h, host = some h ∧ isLoopbackHost h = true := by
  cases host with
  | none => simp only [Option.getD_none, reduceCtorEq, false_and, exists_false, iff_false]; decide
  | some h => simp

theorem valid_iff (hparse : U.parse uri = some url) : (∃ url, Valid U uri url) ↔
    ¬ (decide (trim uri ≠ uri) || uri.isEmpty) = true ∧ SchemeAllowed url ∧
      ¬ url.fragment.isSome = true ∧ ¬ (!url.username.isEmpty || url.password.isSome) = true := by
  simp only [Bool.or_eq_true, decide_eq_true_eq, Bool.not_eq_true', not_or, not_not,
    List.isEmpty_iff, Option.not_isSome_iff_eq_none, Bool.not_eq_false]
  constructor
  · rintro ⟨url', h⟩
    obtain rfl : url' = url := Option.some.inj (h.parsed.symm.trans hparse)
    exact ⟨⟨h.trimmed, h.nonempty⟩, h.scheme, h.fragment, h.username, h.password⟩
  · rintro ⟨⟨htrim, hne⟩, hscheme, hfragment, huser, hpassword⟩
    exact ⟨url, htrim, hne, hparse, hscheme, hfragment, huser, hpassword⟩

/-- The validator accepts exactly the valid URIs, whatever name its errors give. -/
theorem validate_iff : validateRedirectUri U uri key = .ok () ↔ ∃ url, Valid U uri url := by
  rw [validateRedirectUri]
  cases hparse : U.parse uri with
  | none =>
    refine ⟨fun h => ?_, fun ⟨url, h⟩ => ?_⟩
    · simp only [reject_ok] at h
      cases h.2
    · cases h.parsed.symm.trans hparse
  | some url =>
    rw [valid_iff hparse, SchemeAllowed]
    by_cases hhttps : url.scheme = "https".toList
    · simp only [reject_ok, last_ok, if_pos hhttps, Option.isNone_iff_eq_none, ne_eq]
    · by_cases hhttp : url.scheme = "http".toList
      · simp only [reject_ok, last_ok, if_neg hhttps, if_pos hhttp, loopback_iff]
      · simp only [reject_ok, last_ok, if_neg hhttps, if_neg hhttp, List.isEmpty_iff, ne_eq]

theorem collectUris_valid {uris rest : List Text} (h : collectUris U key uris rest = .ok allowed)
    (huris : ∀ entry ∈ uris, ∃ url, Valid U entry url) :
    ∀ entry ∈ allowed, ∃ url, Valid U entry url := by
  induction rest generalizing uris with
  | nil =>
    obtain rfl := Except.ok.inj h
    exact huris
  | cons uri rest ih =>
    rw [collectUris] at h
    cases hvalid : validateRedirectUri U uri key with
    | error e => simp [hvalid, bind, Except.bind] at h
    | ok =>
      simp only [hvalid, bind, Except.bind] at h
      apply ih h
      intro entry hentry
      split_ifs at hentry
      · exact huris entry hentry
      obtain hentry | hentry := List.mem_append.mp hentry
      · exact huris entry hentry
      · obtain rfl := List.mem_singleton.mp hentry
        exact validate_iff.mp hvalid

/-- Every entry of an allowlist is valid. -/
theorem parseAllowlist_valid {raw : Text} (h : parseAllowlist U raw key = .ok allowed) :
    ∀ entry ∈ allowed, ∃ url, Valid U entry url := by
  rw [parseAllowlist] at h
  dsimp only at h
  cases hlisted :
    collectUris U key [] (((raw.splitOn ',').map trim).filter (fun uri => !uri.isEmpty)) with
  | error e => simp [hlisted, bind, Except.bind] at h
  | ok uris =>
    simp only [hlisted, bind, Except.bind] at h
    split_ifs at h
    obtain rfl := Except.ok.inj h
    exact collectUris_valid hlisted nofun

/-- A cleartext URL on a loopback host. -/
def IsLoopback (url : Url) : Prop :=
  url.scheme = "http".toList ∧ ∃ host, url.hostStr = some host ∧ isLoopbackHost host

/-- Two URLs that may differ only in their ports. -/
structure SameButPort (entry url : Url) : Prop where
  scheme : entry.scheme = url.scheme
  host : entry.hostStr = url.hostStr
  path : entry.path = url.path
  query : entry.query = url.query

theorem SchemeAllowed.loopback (h : SchemeAllowed url) (hhttp : url.scheme = "http".toList) :
    IsLoopback url := by
  have hne : "http".toList ≠ "https".toList := by decide
  rw [SchemeAllowed, hhttp, if_neg hne, if_pos rfl] at h
  exact ⟨hhttp, h⟩

theorem matches_iff : matchesLoopbackEntry U allowed uri = true ↔
    ∃ url, U.parse uri = some url ∧ IsLoopback url ∧
      ∃ entry ∈ allowed, ∃ e, U.parse entry = some e ∧ SameButPort e url := by
  rw [matchesLoopbackEntry]
  cases hparse : U.parse uri with
  | none => simp
  | some url =>
    simp only [Option.some.injEq, exists_eq_left']
    split_ifs with hhttp
    · exact ⟨nofun, fun h => absurd h.1.1 hhttp⟩
    rw [not_not] at hhttp
    cases hhost : url.hostStr with
    | none =>
      refine ⟨nofun, fun ⟨⟨_, host, hsome, _⟩, _⟩ => ?_⟩
      cases hhost.symm.trans hsome
    | some host =>
      dsimp only
      split_ifs with hloopback
      · refine ⟨nofun, fun ⟨⟨_, host', hsome, hloopback'⟩, _⟩ => ?_⟩
        obtain rfl := Option.some.inj (hhost.symm.trans hsome)
        simp [hloopback'] at hloopback
      rw [Bool.not_eq_true', Bool.not_eq_false] at hloopback
      simp only [List.any_eq_true, Option.any_eq_true, Bool.and_eq_true, decide_eq_true_eq]
      constructor
      · rintro ⟨entry, hentry, e, he, ⟨⟨hscheme, hehost⟩, hpath⟩, hquery⟩
        exact ⟨⟨hhttp, host, hhost, hloopback⟩, entry, hentry, e, he, hscheme.trans hhttp.symm,
          hehost.trans hhost.symm, hpath, hquery⟩
      · rintro ⟨-, entry, hentry, e, he, hsame⟩
        exact ⟨entry, hentry, e, he,
          ⟨⟨hsame.scheme.trans hhttp, hsame.host.trans hhost⟩, hsame.path⟩, hsame.query⟩

/-- A URI is allowed if it is valid and listed, or differs from a cleartext
loopback entry only in its port. -/
theorem allowed_iff : isAllowedRedirectUri U allowed uri = true ↔ ∃ url, Valid U uri url ∧
    (uri ∈ allowed ∨ IsLoopback url ∧ ∃ entry ∈ allowed, ∃ e, U.parse entry = some e ∧
      SameButPort e url) := by
  rw [isAllowedRedirectUri]
  cases hvalid : validateRedirectUri U uri "redirect_uri" with
  | error e =>
    refine ⟨nofun, fun ⟨url, h, _⟩ => ?_⟩
    cases hvalid.symm.trans (validate_iff.mpr ⟨url, h⟩)
  | ok =>
    obtain ⟨url, h⟩ := validate_iff.mp hvalid
    simp only [Bool.or_eq_true, List.contains_iff_mem, matches_iff]
    constructor
    · rintro (hlisted | ⟨url', hparse, hmatch⟩)
      · exact ⟨url, h, .inl hlisted⟩
      · obtain rfl := Option.some.inj (h.parsed.symm.trans hparse)
        exact ⟨url, h, .inr hmatch⟩
    · rintro ⟨url', h', hlisted | hmatch⟩
      · exact .inl hlisted
      · exact .inr ⟨url', h'.parsed, hmatch⟩

abbrev REDIRECT_URI : Text := "redirect_uri".toList

abbrev UNREGISTERED : String := "unregistered redirect_uri\n"

/-- Both endpoints refuse a request for its redirect URI. -/
structure Unregistered (U : UrlCrate) (st : OAuthProxyState) (uri : Text) : Prop where
  authorize : ∀ pairs, firstValue pairs REDIRECT_URI = some uri →
    checkAuthorize U st pairs = .error (.text 400 UNREGISTERED)
  token : ∀ pairs, (REDIRECT_URI, uri) ∈ pairs →
    tokenPairs U st pairs = .error (.text 400 UNREGISTERED)

/-- No request is refused for its redirect URI. -/
structure Registered (U : UrlCrate) (st : OAuthProxyState) (uri : Text) : Prop where
  authorize : ∀ pairs, firstValue pairs REDIRECT_URI = some uri →
    checkAuthorize U st pairs ≠ .error (.text 400 UNREGISTERED)
  token : ∀ pairs, (∀ p ∈ pairs, p.1 = REDIRECT_URI → p.2 = uri) →
    tokenPairs U st pairs ≠ .error (.text 400 UNREGISTERED)

variable {st : OAuthProxyState}

theorem unregistered_of (h : isAllowedRedirectUri U st.allowedRedirectUris uri = false) :
    Unregistered U st uri where
  authorize pairs hfirst := by
    rw [checkAuthorize, hfirst]
    simp only [h, Bool.not_false, if_true]
  token pairs hmem := by
    rw [tokenPairs, if_pos]
    exact List.any_eq_true.mpr ⟨_, hmem, Bool.and_eq_true_iff.mpr ⟨decide_eq_true rfl, h ▸ rfl⟩⟩

theorem registered_of (h : isAllowedRedirectUri U st.allowedRedirectUris uri = true) :
    Registered U st uri where
  authorize pairs hfirst := by
    rw [checkAuthorize, hfirst]
    simp only [h, Bool.not_true, Bool.false_eq_true, if_false]
    split_ifs
    · rw [ne_eq, Except.error.injEq, Response.text.injEq]
      exact fun heq => absurd heq.2 (by decide)
    · nofun
  token pairs hall := by
    have hnone : ¬ (pairs.any fun p => p.1 = REDIRECT_URI &&
        !isAllowedRedirectUri U st.allowedRedirectUris p.2) = true := by
      rw [List.any_eq_true]
      rintro ⟨p, hp, hbad⟩
      rw [Bool.and_eq_true, decide_eq_true_eq] at hbad
      rw [hall p hp hbad.1, h] at hbad
      exact absurd hbad.2 (by decide)
    rw [tokenPairs, if_neg hnone]
    split_ifs
    · rw [ne_eq, Except.error.injEq, Response.text.injEq]
      exact fun heq => absurd heq.2 (by decide)
    · nofun

theorem Registered.not_unregistered (h : Registered U st uri) : ¬ Unregistered U st uri := fun h' =>
  h.authorize [(REDIRECT_URI, uri)] (by simp [firstValue]) (h'.authorize _ (by simp [firstValue]))

/-- Registration refuses a list of URIs when the endpoints refuse one of them. -/
structure RegisterAgrees (U : UrlCrate) (cfg : Config) (st : OAuthProxyState) : Prop where
  lists : ∀ uris, ∃ body, requestedUris body = uris
  refused : ∀ body now, register U cfg body now = .text 400 UNREGISTERED ↔
    ∃ uri ∈ requestedUris body, Unregistered U st uri
  accepted : ∀ body now, (∃ reply, register U cfg body now = .json 201 reply) ↔
    ∀ uri ∈ requestedUris body, Registered U st uri

theorem registerAgrees {cfg : Config} {clientId : Text} (hclient : cfg.dcrClientId = some clientId)
    (huris : st.allowedRedirectUris = cfg.oauthRedirectUris) : RegisterAgrees U cfg st := by
  have hunregistered : ∀ uri, Unregistered U st uri ↔
      isAllowedRedirectUri U cfg.oauthRedirectUris uri = false := by
    intro uri
    rw [← huris]
    refine ⟨fun h => ?_, unregistered_of⟩
    rw [← Bool.not_eq_true]
    exact fun hallowed => (registered_of hallowed).not_unregistered h
  have hregistered : ∀ uri, Registered U st uri ↔
      isAllowedRedirectUri U cfg.oauthRedirectUris uri = true := by
    intro uri
    rw [← huris]
    refine ⟨fun h => ?_, registered_of⟩
    rw [← Bool.not_eq_false]
    exact fun hrefused => h.not_unregistered (unregistered_of hrefused)
  refine ⟨fun uris => ⟨_, requestedUris_array uris⟩, fun body now => ?_, fun body now => ?_⟩
  · simp only [hunregistered, register, hclient]
    split_ifs with hany
    · simpa using hany
    · simpa using hany
  · simp only [hregistered, register, hclient]
    split_ifs with hany
    · simpa using hany
    · simpa using hany

/-- What an allowlist admits. -/
structure Exact (U : UrlCrate) (allowed : List Text) : Prop where
  sound : ∀ uri, isAllowedRedirectUri U allowed uri = true → ∃ url, U.parse uri = some url ∧
    url.username = [] ∧ url.password = none ∧ url.fragment = none ∧
    (url.scheme = "http".toList → IsLoopback url) ∧
    ∃ entry ∈ allowed, ∃ e, U.parse entry = some e ∧ SameButPort e url ∧
      (e.portOrKnownDefault = url.portOrKnownDefault ∨ IsLoopback e ∧ IsLoopback url)
  listed : ∀ entry ∈ allowed, isAllowedRedirectUri U allowed entry = true
  loopback : ∀ entry ∈ allowed, ∀ e, U.parse entry = some e → IsLoopback e → ∀ uri url,
    validateRedirectUri U uri "redirect_uri" = .ok () → U.parse uri = some url → SameButPort e url →
      isAllowedRedirectUri U allowed uri = true
  register : ∀ cfg st clientId, cfg.dcrClientId = some clientId → cfg.oauthRedirectUris = allowed →
    st.allowedRedirectUris = allowed → RegisterAgrees U cfg st

theorem IsLoopback.of_same {e : Url} (h : IsLoopback e) (hsame : SameButPort e url) :
    IsLoopback url := by
  obtain ⟨hscheme, host, hhost, hloopback⟩ := h
  exact ⟨hsame.scheme.symm.trans hscheme, host, hsame.host.symm.trans hhost, hloopback⟩

theorem SameButPort.symm {e : Url} (h : SameButPort e url) : SameButPort url e :=
  ⟨h.scheme.symm, h.host.symm, h.path.symm, h.query.symm⟩

theorem allowlist_exact (U : UrlCrate) (raw : Text) (key : String) (allowed : List Text)
    (h : parseAllowlist U raw key = .ok allowed) : Exact U allowed := by
  have hvalid := parseAllowlist_valid h
  constructor
  · intro uri hallowed
    obtain ⟨url, huri, hmatch⟩ := allowed_iff.mp hallowed
    refine ⟨url, huri.parsed, huri.username, huri.password, huri.fragment, huri.scheme.loopback, ?_⟩
    obtain hlisted | ⟨hloopback, entry, hentry, e, he, hsame⟩ := hmatch
    · exact ⟨uri, hlisted, url, huri.parsed, ⟨rfl, rfl, rfl, rfl⟩, .inl rfl⟩
    · exact ⟨entry, hentry, e, he, hsame, .inr ⟨hloopback.of_same hsame.symm, hloopback⟩⟩
  · intro entry hentry
    obtain ⟨url, hurl⟩ := hvalid entry hentry
    exact allowed_iff.mpr ⟨url, hurl, .inl hentry⟩
  · intro entry hentry e he hloopback uri url huri hparse hsame
    obtain ⟨url', huri⟩ := validate_iff.mp huri
    obtain rfl := Option.some.inj (huri.parsed.symm.trans hparse)
    exact allowed_iff.mpr ⟨_, huri, .inr ⟨hloopback.of_same hsame, entry, hentry, e, he, hsame⟩⟩
  · intro cfg st clientId hclient hcfg hst
    exact registerAgrees hclient (hst.trans hcfg.symm)

/-- The crate on plain URLs, one of which names its port. -/
def portUrls : UrlCrate where
  __ := plainUrls
  parse uri :=
    if uri = "http://127.0.0.1:49152/cb".toList then
      some { serialization := uri, scheme := "http".toList, hostStr := some "127.0.0.1".toList,
             portOrKnownDefault := some 49152, path := "/cb".toList }
    else parsePlain uri

theorem allowlist_exact_sample : ∃ allowed,
    parseAllowlist portUrls "https://a.test/cb, http://127.0.0.1/cb,".toList "KEY" = .ok allowed ∧
      allowed = ["https://a.test/cb".toList, "http://127.0.0.1/cb".toList] ∧
      Exact portUrls allowed ∧
      isAllowedRedirectUri portUrls allowed "http://127.0.0.1:49152/cb".toList = true := by
  have hparse : parseAllowlist portUrls "https://a.test/cb, http://127.0.0.1/cb,".toList "KEY" =
      .ok ["https://a.test/cb".toList, "http://127.0.0.1/cb".toList] := by
    decide +kernel
  exact ⟨_, hparse, rfl, allowlist_exact portUrls _ "KEY" _ hparse, by decide +kernel⟩

end CardDavMcp.RedirectAllowlist
