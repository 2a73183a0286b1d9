import CardDavMcp.OAuthFlow

namespace CardDavMcp.OAuthIntegrity

open Library.Utf8Text Library.Table Library.Runs Urls OAuthRedirect OAuthProxy OAuthFlow

variable (U : UrlCrate) (st : OAuthProxyState)

/-- Every entry comes from an accepted request, and a state that was redeemed
holds no entry any more. -/
structure FlowInv (log : List Exchange) (pending : PendingMap) : Prop where
  allowed : ∀ state p, pending.lookup state = some p →
    isAllowedRedirectUri U st.allowedRedirectUris p.clientRedirectUri = true
  minted : ∀ state p, pending.lookup state = some p →
    ∃ e ∈ log, Mints U e state p ∧ drawn U st e.request = some state
  spent : ∀ e ∈ log, ∀ state, Redeems U e state →
    pending.lookup state = none ∧ state ∈ drawnStates U st log

theorem drawnStates_append (log rest : List Exchange) :
    drawnStates U st (log ++ rest) = drawnStates U st log ++ drawnStates U st rest :=
  List.filterMap_append

theorem mem_drawnStates {log : List Exchange} {e : Exchange} {state : Text} (he : e ∈ log)
    (hd : drawn U st e.request = some state) : state ∈ drawnStates U st log :=
  List.mem_filterMap.mpr ⟨e, he, hd⟩

variable {U st}

theorem admissible_of_append {log rest : List Exchange} (h : Admissible U st (log ++ rest)) :
    Admissible U st log := by
  obtain ⟨hclock, hdraw⟩ := h
  rw [List.flatMap_append, List.pairwise_append] at hclock
  rw [drawnStates_append, List.nodup_append] at hdraw
  exact ⟨hclock.1, hdraw.1⟩

theorem not_redeems_authorize {query : Option Text} {s state : Text} {created now : Nat}
    {r : Response} : ¬ Redeems U ⟨.authorize query s created now, r⟩ state := by
  rintro ⟨_, _, _, he, _⟩
  simp at he

theorem not_redeems_token {body : Text} {post : Text → Text → Option UpstreamReply} {state : Text}
    {r : Response} : ¬ Redeems U ⟨.token body post, r⟩ state := by
  rintro ⟨_, _, _, he, _⟩
  simp at he

/-- A step that stores nothing keeps the invariant, if what it redeems was
there and is gone. -/
theorem FlowInv.shrink {log : List Exchange} {pending pending' : PendingMap} {e : Exchange}
    (h : FlowInv U st log pending)
    (hsub : ∀ k p, pending'.lookup k = some p → pending.lookup k = some p)
    (hredeem : ∀ state, Redeems U e state →
      pending'.lookup state = none ∧ ∃ p, pending.lookup state = some p) :
    FlowInv U st (log ++ [e]) pending' where
  allowed state p hp := h.allowed state p (hsub state p hp)
  minted state p hp := by
    obtain ⟨e', hmem, he'⟩ := h.minted state p (hsub state p hp)
    exact ⟨e', List.mem_append_left _ hmem, he'⟩
  spent e' hmem state hr := by
    rw [drawnStates_append]
    rw [List.mem_append, List.mem_singleton] at hmem
    obtain hmem | rfl := hmem
    · obtain ⟨hnone, hd⟩ := h.spent e' hmem state hr
      refine ⟨?_, List.mem_append_left _ hd⟩
      cases hp : pending'.lookup state with
      | none => rfl
      | some p => simp [hsub state p hp] at hnone
    · obtain ⟨hnone, p, hp⟩ := hredeem state hr
      obtain ⟨m, hm, -, hd⟩ := h.minted state p hp
      exact ⟨hnone, List.mem_append_left _ (mem_drawnStates U st hm hd)⟩

/-- An accepted request stores its entry under a state that nobody has
redeemed, since it was never drawn before. -/
theorem FlowInv.grow {log : List Exchange} {pending pending' : PendingMap} {e : Exchange}
    {state : Text} {p : Pending} (h : FlowInv U st log pending)
    (hfresh : state ∉ drawnStates U st log)
    (hsub : ∀ k q, pending'.lookup k = some q → (k = state ∧ q = p) ∨ k ≠ state ∧
      pending.lookup k = some q)
    (hallowed : isAllowedRedirectUri U st.allowedRedirectUris p.clientRedirectUri = true)
    (hmints : Mints U e state p) (hdrawn : drawn U st e.request = some state)
    (hredeem : ∀ state, ¬ Redeems U e state) : FlowInv U st (log ++ [e]) pending' where
  allowed k q hq := by
    obtain ⟨rfl, rfl⟩ | ⟨-, hold⟩ := hsub k q hq
    · exact hallowed
    · exact h.allowed k q hold
  minted k q hq := by
    obtain ⟨rfl, rfl⟩ | ⟨-, hold⟩ := hsub k q hq
    · exact ⟨e, by simp, hmints, hdrawn⟩
    · obtain ⟨m, hm, hm'⟩ := h.minted k q hold
      exact ⟨m, List.mem_append_left _ hm, hm'⟩
  spent e' hmem k hr := by
    rw [List.mem_append, List.mem_singleton] at hmem
    obtain hmem | rfl := hmem
    · obtain ⟨hnone, hd⟩ := h.spent e' hmem k hr
      rw [drawnStates_append]
      refine ⟨?_, List.mem_append_left _ hd⟩
      cases hq : pending'.lookup k with
      | none => rfl
      | some q =>
        obtain ⟨rfl, -⟩ | ⟨-, hold⟩ := hsub k q hq
        · exact absurd hd hfresh
        · simp [hold] at hnone
    · exact absurd hr (hredeem k)

theorem FlowInv.step {log : List Exchange} {pending pending' : PendingMap} {e : Exchange}
    (h : FlowInv U st log pending) (ha : Admissible U st (log ++ [e]))
    (hs : Step U st pending e pending') : FlowInv U st (log ++ [e]) pending' := by
  obtain ⟨request, r⟩ := e
  cases request with
  | authorize query state created now =>
    obtain ⟨-, -, hpending⟩ |
      ⟨-, ⟨location, rfl⟩, uri, clientState, huri, hallowed, hstate, hdrawn, rfl⟩ :=
      authorize_cases U st hs
    · refine h.shrink (fun k p hk => ?_) (fun state hr => absurd hr not_redeems_authorize)
      obtain rfl | ⟨-, rfl⟩ := hpending
      · exact hk
      · exact lookup_sweep hk
    · have hfresh : state ∉ drawnStates U st log := by
        have hnodup := ha.2
        rw [drawnStates_append, List.nodup_append] at hnodup
        have hmem : state ∈ drawnStates U st
          [⟨.authorize query state created now, .redirect location⟩] :=
          mem_drawnStates U st (List.mem_singleton_self _) hdrawn
        exact fun hold => hnodup.2.2 _ hold _ hmem rfl
      refine h.grow (p := ⟨uri, clientState, created⟩) hfresh (fun k q hk => ?_) hallowed
        ⟨query, now, location, rfl, huri, hstate⟩ hdrawn (fun _ => not_redeems_authorize)
      by_cases hks : k = state
      · subst hks
        rw [AList.lookup_insert, Option.some.injEq] at hk
        exact .inl ⟨rfl, hk.symm⟩
      · rw [AList.lookup_insert_ne hks] at hk
        exact .inr ⟨hks, lookup_sweep hk⟩
  | callback query now =>
    obtain ⟨rfl, hno⟩ | ⟨state, p, hstate, hp, rfl, -⟩ := callback_cases U hs
    · refine h.shrink (fun _ _ hk => hk) (fun s hr => ?_)
      obtain ⟨q, n, location, he, -⟩ := hr
      rw [Exchange.mk.injEq] at he
      exact absurd he.2 (hno location)
    · refine h.shrink (fun k q hk => ?_) (fun s hr => ?_)
      · rw [AList.lookup_erase_ne (fun hks => by subst hks; simp at hk)] at hk
        exact hk
      · obtain ⟨q, n, location, he, hs'⟩ := hr
        simp only [Exchange.mk.injEq, Request.callback.injEq] at he
        obtain ⟨⟨rfl, -⟩, -⟩ := he
        rw [hstate, Option.some.injEq] at hs'
        subst hs'
        exact ⟨AList.lookup_erase _ _, p, hp⟩
  | token body post =>
    have hpending : pending' = pending := (congrArg Prod.snd hs).symm
    subst hpending
    exact h.shrink (fun _ _ hk => hk) (fun s hr => absurd hr not_redeems_token)

theorem FlowInv.empty : FlowInv U st [] ∅ where
  allowed _ _ h := by simp at h
  minted _ _ h := by simp at h
  spent _ h := by simp at h

theorem FlowInv.of_run {log : List Exchange} {pending : PendingMap}
    (h : Run (Step U st) ∅ log pending) (ha : Admissible U st log) : FlowInv U st log pending :=
  h.invariant (Admissible U st) (fun _ _ h => admissible_of_append h) .empty
    (fun _ _ _ _ hinv ha hs => hinv.step ha hs) ha

/-- Where a state was drawn, no other exchange of the run draws it. -/
theorem drawn_unique {a b : List Exchange} {m e : Exchange} {state : Text}
    (h : (drawnStates U st (a ++ m :: b)).Nodup) (hm : drawn U st m.request = some state)
    (he : e ∈ a ++ b) : drawn U st e.request ≠ some state := by
  intro hd
  rw [drawnStates_append, drawnStates, drawnStates, List.filterMap_cons, hm] at h
  have hmem : state ∈ drawnStates U st a ++ drawnStates U st b := by
    rw [← drawnStates_append]
    exact mem_drawnStates U st he hd
  rw [List.nodup_middle, List.nodup_cons] at h
  exact h.1 hmem

theorem reading_le {before after : List Exchange} {e m : Exchange} {t now : Nat}
    (h : ((before ++ e :: after).flatMap (fun e => readings e.request)).Pairwise (· ≤ ·))
    (hm : m ∈ before) (ht : t ∈ readings m.request)
    (hnow : now ∈ readings e.request) : t ≤ now := by
  rw [List.flatMap_append, List.pairwise_append] at h
  exact h.2.2 t (List.mem_flatMap.mpr ⟨m, hm, ht⟩) now
    (List.mem_flatMap.mpr ⟨e, List.mem_cons_self, hnow⟩)

theorem step_redeems {pending pending' : PendingMap} {query : Option Text} {now : Nat}
    {location : Text} (hs : Step U st pending ⟨.callback query now, .redirect location⟩ pending') :
    ∃ state p url, lastValue (U.formParse (query.getD [])) "state".toList = some state ∧
      pending.lookup state = some p ∧ now - p.created < PENDING_TTL ∧
      U.parse p.clientRedirectUri = some url ∧
      location = (U.appendPairs url
        (callbackPairs (U.formParse (query.getD [])) p.clientState)).serialization := by
  obtain ⟨-, hno⟩ | ⟨state, p, hstate, hp, -, hr⟩ := callback_cases U hs
  · exact absurd rfl (hno location)
  · obtain ⟨hfresh, url, hurl, hloc⟩ := hr location rfl
    exact ⟨state, p, url, hstate, hp, hfresh, hurl, hloc⟩

/-- What a callback forwards of a key: its last value, where it has one. -/
def Forwards (pairs : Pairs) (key : String) (added : Pairs) : Prop :=
  (added = [] ∧ ∀ pair ∈ pairs, pair.1 ≠ key.toList) ∨
  ∃ a value b, pairs = a ++ (key.toList, value) :: b ∧ (∀ pair ∈ b, pair.1 ≠ key.toList) ∧
    added = [(key.toList, value)]

theorem forwards_lastValue (pairs : Pairs) (key : String) :
    Forwards pairs key
      ((lastValue pairs key.toList).toList.map (fun value => (key.toList, value))) := by
  cases hfind : pairs.reverse.find? (fun pair => pair.1 = key.toList) with
  | none =>
    refine .inl ⟨by simp [lastValue, firstValue, hfind], fun pair hpair => ?_⟩
    simpa using List.find?_eq_none.mp hfind pair (List.mem_reverse.mpr hpair)
  | some pair =>
    obtain ⟨hkey, a, b, hpairs, hlater⟩ := List.find?_eq_some_iff_append.mp hfind
    obtain ⟨found, value⟩ := pair
    have hfound : found = key.toList := by simpa using hkey
    subst hfound
    refine .inr ⟨b.reverse, value, a.reverse, ?_, fun pair hpair => ?_, ?_⟩
    · rw [← List.reverse_reverse pairs, hpairs]
      simp
    · simpa using hlater pair (List.mem_reverse.mp hpair)
    · simp [lastValue, firstValue, hfind]

theorem Forwards.key {pairs added : Pairs} {key : String} (h : Forwards pairs key added)
    {pair : Text × Text} (hp : pair ∈ added) : pair.1 = key.toList := by
  obtain ⟨rfl, -⟩ | ⟨a, value, b, -, -, rfl⟩ := h
  · simp at hp
  · rw [List.mem_singleton.mp hp]

/-- What a callback adds to a redirect URI: what it forwards of a code, an
error and its description, in this order, and then the state of the client. -/
def Adds (pairs : Pairs) (clientState : Option Text) (added : Pairs) : Prop :=
  ∃ code error description, Forwards pairs "code" code ∧ Forwards pairs "error" error ∧
    Forwards pairs "error_description" description ∧
    added = code ++ error ++ description ++
      clientState.toList.map (fun state => ("state".toList, state))

theorem adds_callbackPairs (pairs : Pairs) (clientState : Option Text) :
    Adds pairs clientState (callbackPairs pairs clientState) :=
  ⟨_, _, _, forwards_lastValue pairs "code", forwards_lastValue pairs "error",
    forwards_lastValue pairs "error_description", rfl⟩

/-- Of the issuer and the state that the callback brings nothing is added. -/
theorem Adds.own {pairs added : Pairs} {clientState : Option Text}
    (h : Adds pairs clientState added) {pair : Text × Text} (hp : pair ∈ added) :
    pair.1 ≠ "iss".toList ∧ (pair.1 = "state".toList → clientState = some pair.2) := by
  obtain ⟨code, error, description, hcode, herror, hdescription, rfl⟩ := h
  simp only [List.mem_append, List.mem_map, Option.mem_toList] at hp
  obtain ((hp | hp) | hp) | ⟨state, hstate, rfl⟩ := hp
  · rw [hcode.key hp]
    exact ⟨by decide, fun he => absurd he (by decide)⟩
  · rw [herror.key hp]
    exact ⟨by decide, fun he => absurd he (by decide)⟩
  · rw [hdescription.key hp]
    exact ⟨by decide, fun he => absurd he (by decide)⟩
  · exact ⟨by simp, fun _ => hstate⟩

/-- What the flow promises of a run and of the map it has reached. -/
structure FlowIntegrity (U : UrlCrate) (st : OAuthProxyState) (log : List Exchange)
    (pending : PendingMap) : Prop where
  /-- Only allowed redirect URIs are held. -/
  allowed : ∀ state p, pending.lookup state = some p →
    isAllowedRedirectUri U st.allowedRedirectUris p.clientRedirectUri = true
  /-- A callback redirects to the URI of the one accepted request that minted
  the state, in time, and adds to its query only what it may. -/
  redirected : ∀ before query now location after,
    log = before ++ ⟨.callback query now, .redirect location⟩ :: after →
    ∃ state p url added, lastValue (U.formParse (query.getD [])) "state".toList = some state ∧
      (∃ a m b, before = a ++ m :: b ∧ Mints U m state p ∧
        ∀ e ∈ a ++ b ++ after, drawn U st e.request ≠ some state) ∧
      p.created ≤ now ∧ now < p.created + PENDING_TTL ∧
      U.parse p.clientRedirectUri = some url ∧
      Adds (U.formParse (query.getD [])) p.clientState added ∧
      location = (U.appendPairs url added).serialization ∧
      ∀ pair ∈ added, pair.1 ≠ "iss".toList ∧
        (pair.1 = "state".toList → p.clientState = some pair.2)
  /-- No state is redeemed twice. -/
  once : ∀ a b c e e' state, log = a ++ e :: b ++ e' :: c →
    Redeems U e state → ¬ Redeems U e' state
  /-- A refused request redirects nowhere and stores nothing; it may only drop
  what has expired. -/
  refused : ∀ query state created now r pending',
    authorize U st query state created now pending = (r, pending') →
    ((∀ location, r ≠ .redirect location) ↔
      Refused U st (U.formParse (query.getD [])) now pending) ∧
    (Refused U st (U.formParse (query.getD [])) now pending →
      ∀ k p, (pending'.lookup k = some p → pending.lookup k = some p) ∧
        (pending.lookup k = some p → now < p.created + PENDING_TTL → pending'.lookup k = some p))

theorem refused_authorize {query : Option Text} {state : Text} {created now : Nat}
    {pending pending' : PendingMap} {r : Response}
    (h : authorize U st query state created now pending = (r, pending')) :
    ((∀ location, r ≠ .redirect location) ↔
      Refused U st (U.formParse (query.getD [])) now pending) ∧
    (Refused U st (U.formParse (query.getD [])) now pending →
      ∀ k p, (pending'.lookup k = some p → pending.lookup k = some p) ∧
        (pending.lookup k = some p → now < p.created + PENDING_TTL →
          pending'.lookup k = some p)) := by
  obtain ⟨href, ⟨status, text, rfl⟩, hpending⟩ | ⟨href, ⟨location, rfl⟩, -⟩ :=
    authorize_cases U st h
  · refine ⟨by simp [href], fun _ k p => ?_⟩
    obtain rfl | ⟨hfull, rfl⟩ := hpending
    · exact ⟨id, fun hk _ => hk⟩
    · refine ⟨lookup_sweep, fun hk hlt => ?_⟩
      have hpos : 0 < PENDING_TTL := by decide
      have hfresh : fresh now p = true := by
        rw [fresh, decide_eq_true_eq]
        omega
      rw [lookup_sweep_full hfull, hk, Option.filter_some, if_pos hfresh]
  · exact ⟨by simp [href], fun hno => absurd hno href⟩

/-- In every run of interleaved requests, the proxy sends a code only to the
client that asked for it, once, and in time. -/
theorem flow_integrity {log : List Exchange} {pending : PendingMap}
    (h : Run (Step U st) ∅ log pending) (ha : Admissible U st log) :
    FlowIntegrity U st log pending where
  allowed := (FlowInv.of_run h ha).allowed
  redirected before query now location after hlog := by
    subst hlog
    obtain ⟨s, s', hbefore, hstep, -⟩ := h.split
    obtain ⟨state, p, url, hstate, hp, hfresh, hurl, hloc⟩ := step_redeems hstep
    obtain ⟨m, hm, hmints, hdrawn⟩ :=
      (FlowInv.of_run hbefore (admissible_of_append ha)).minted state p hp
    obtain ⟨a, b, rfl⟩ := List.append_of_mem hm
    have hadds := adds_callbackPairs (U.formParse (query.getD [])) p.clientState
    refine ⟨state, p, url, _, hstate, ⟨a, m, b, rfl, hmints, fun e he => ?_⟩, ?_, ?_, hurl, hadds,
      hloc, fun pair hpair => hadds.own hpair⟩
    · have hnodup := ha.2
      rw [List.append_assoc, List.cons_append] at hnodup
      apply drawn_unique hnodup hdrawn
      grind
    · obtain ⟨aq, n, l, rfl, -⟩ := hmints
      exact reading_le ha.1 hm List.mem_cons_self List.mem_cons_self
    · omega
  once a b c e e' state hlog hr hr' := by
    subst hlog
    obtain ⟨s, s', hbefore, hstep, -⟩ := h.split
    have hspent := ((FlowInv.of_run hbefore (admissible_of_append ha)).spent e (by simp) state hr).1
    obtain ⟨query, now, location, rfl, hstate⟩ := hr'
    obtain ⟨state', p, url, hstate', hp, -⟩ := step_redeems hstep
    rw [hstate, Option.some.injEq] at hstate'
    subst hstate'
    simp [hspent] at hp
  refused _ _ _ _ _ _ hauth := refused_authorize hauth

def sampleProxy : OAuthProxyState :=
  .new "https://login.test/oidc/".toList "https://r.test".toList ["https://c.test/cb".toList]
    "https://r.test".toList

/-- One flow, a replay of its callback, and a request of a stranger. -/
def sampleFlow : List Request :=
  [.authorize (some "redirect_uri=https://c.test/cb&state=xyz".toList) "s1".toList 5 5,
   .callback (some "code=a&error_description=d&iss=l&state=zz&code=abc&error=e&state=s1".toList) 7,
   .callback (some "code=abc&state=s1".toList) 8,
   .authorize (some "redirect_uri=https://evil.test/cb".toList) "s2".toList 9 9]

theorem flow_integrity_sample :
    (serveAll plainUrls sampleProxy ∅ sampleFlow).1.map Exchange.response =
      [.redirect ("https://login.test/oidc/auth?redirect_uri=https%3A%2F%2Fr.test%2Foauth%2Fcallback" ++
        "&state=s1&resource=https%3A%2F%2Fr.test").toList,
       .redirect "https://c.test/cb?code=abc&error=e&error_description=d&state=xyz".toList,
       .text 400 "unknown or expired state\n",
       .text 400 "unregistered redirect_uri\n"] ∧
    FlowIntegrity plainUrls sampleProxy (serveAll plainUrls sampleProxy ∅ sampleFlow).1
      (serveAll plainUrls sampleProxy ∅ sampleFlow).2 := by
  refine ⟨by decide +kernel, flow_integrity (serveAll_run _ _ _ _) ?_⟩
  rw [Admissible]
  decide +kernel

end CardDavMcp.OAuthIntegrity
