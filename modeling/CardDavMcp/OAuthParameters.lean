import CardDavMcp.Library.FormEncoding
import CardDavMcp.OAuthFlow

namespace CardDavMcp.OAuthParameters

open Library.Utf8Text Library.FormEncoding Urls OAuthRedirect OAuthProxy
open OAuthFlow (checkAuthorize_ok checkAuthorize_error)

/-- Pairs are sent on with some values forced. All other pairs are as they were
received, and only the required keys that are missing are added. -/
structure Forced (forced : Pairs) (required : List Text) (received sent : Pairs) : Prop where
  values : ∀ p ∈ sent, ∀ value, forced.lookup p.1 = some value → p.2 = value
  present : ∀ key ∈ required, key ∈ sent.map Prod.fst
  others : sent.filter (fun p => (forced.lookup p.1).isNone) =
    received.filter (fun p => (forced.lookup p.1).isNone)
  keys : sent.map Prod.fst =
    received.map Prod.fst ++ required.filter (· ∉ received.map Prod.fst)

theorem forced_refl (pairs : Pairs) : Forced [] [] pairs pairs where
  values := by simp
  present := by simp
  others := rfl
  keys := by simp

variable {forced received sent : Pairs} {required : List Text} {key value : Text}

theorem lookup_cons (key value k : Text) (forced : Pairs) :
    List.lookup k ((key, value) :: forced) = if k = key then some value else forced.lookup k := by
  rw [List.lookup_cons]
  by_cases hk : k = key
  · rw [if_pos hk, beq_iff_eq.mpr hk]
  · rw [if_neg hk, beq_eq_false_iff_ne.mpr hk]

theorem Forced.filter_cons (h : Forced forced required received sent) (key value : Text) :
    sent.filter (fun p => (List.lookup p.1 ((key, value) :: forced)).isNone) =
      received.filter (fun p => (List.lookup p.1 ((key, value) :: forced)).isNone) := by
  have hboth (pairs : Pairs) :
      pairs.filter (fun p => (List.lookup p.1 ((key, value) :: forced)).isNone) =
        (pairs.filter (fun p => (forced.lookup p.1).isNone)).filter (fun p => p.1 ≠ key) := by
    rw [List.filter_filter]
    refine List.filter_congr fun p _ => ?_
    rw [lookup_cons]
    by_cases hp : p.1 = key <;> simp [hp]
  rw [hboth, hboth, h.others]

theorem keys_rewriteValue (key value : Text) (pairs : Pairs) :
    (rewriteValue key value pairs).map Prod.fst = pairs.map Prod.fst := by
  rw [rewriteValue, List.map_map]
  refine List.map_congr_left fun p _ => ?_
  dsimp only [Function.comp_apply]
  split_ifs <;> rfl

theorem Forced.rewriteValue (h : Forced forced required received sent) (key value : Text) :
    Forced ((key, value) :: forced) required received (rewriteValue key value sent) where
  values p hp v hv := by
    obtain ⟨q, hq, rfl⟩ := List.mem_map.mp hp
    split_ifs at hv ⊢ with hkey
    · rw [lookup_cons, if_pos hkey] at hv
      exact Option.some.inj hv
    · rw [lookup_cons, if_neg hkey] at hv
      exact h.values q hq v hv
  present k hk := by
    rw [keys_rewriteValue]
    exact h.present k hk
  others := by
    rw [← h.filter_cons key value, OAuthProxy.rewriteValue, List.filter_map, List.map_congr_left]
    · exact (List.map_id _).trans (List.filter_congr fun p _ => by
        dsimp only [Function.comp_apply]
        split_ifs <;> rfl)
    · intro p hp
      have hnone := (List.mem_filter.mp hp).2
      dsimp only [Function.comp_apply] at hnone
      refine if_neg fun hkey => ?_
      rw [if_pos hkey, lookup_cons, if_pos hkey] at hnone
      cases hnone
  keys := by
    rw [keys_rewriteValue]
    exact h.keys

theorem hasKey_iff (key : Text) (pairs : Pairs) : hasKey key pairs ↔ key ∈ pairs.map Prod.fst := by
  simp [hasKey]

theorem Forced.forceValue (h : Forced forced required received sent) (key value : Text)
    (hkey : key ∉ required) :
    Forced ((key, value) :: forced) (required ++ [key]) received (forceValue key value sent) := by
  have hreceived : hasKey key sent ↔ key ∈ received.map Prod.fst := by
    rw [hasKey_iff, h.keys, List.mem_append, List.mem_filter]
    exact or_iff_left fun hmem => hkey hmem.1
  rw [OAuthProxy.forceValue]
  split_ifs with hhas
  · have hforced := h.rewriteValue key value
    refine ⟨hforced.values, ?_, hforced.others, ?_⟩
    · intro k hk
      rcases List.mem_append.mp hk with hk | hk
      · exact hforced.present k hk
      · rw [keys_rewriteValue, List.mem_singleton.mp hk]
        exact (hasKey_iff key sent).mp hhas
    · rw [hforced.keys, List.filter_append]
      simp [hreceived.mp hhas]
  · refine ⟨?_, ?_, ?_, ?_⟩
    · intro p hp v hv
      rw [lookup_cons] at hv
      rcases List.mem_append.mp hp with hp | hp
      · have hne : p.1 ≠ key := by
          intro hp'
          exact hhas ((hasKey_iff _ _).mpr (hp' ▸ List.mem_map_of_mem hp))
        rw [if_neg hne] at hv
        exact h.values p hp v hv
      · obtain rfl := List.mem_singleton.mp hp
        rw [if_pos rfl] at hv
        exact Option.some.inj hv
    · intro k hk
      rw [List.map_append, List.mem_append]
      exact (List.mem_append.mp hk).imp (h.present k) id
    · rw [← h.filter_cons key value, List.filter_append, List.append_right_eq_self]
      simp [lookup_cons]
    · have hmissing : key ∉ received.map Prod.fst := fun hmem => hhas (hreceived.mpr hmem)
      rw [List.map_append, h.keys, List.filter_append, List.append_assoc]
      simp [hmissing]

variable {U : UrlCrate} {st : OAuthProxyState}

theorem authorizePairs_forced (haudience : isAbsoluteHttpUri U st.davAudience = true)
    (proxyState : Text) (pairs : Pairs) :
    Forced
      [("resource".toList, st.davAudience), ("state".toList, proxyState),
        ("redirect_uri".toList, st.callbackUrl)]
      ["state".toList, "resource".toList] pairs (authorizePairs U st proxyState pairs) := by
  have hredirect := (forced_refl pairs).rewriteValue "redirect_uri".toList st.callbackUrl
  have hstate := hredirect.forceValue "state".toList proxyState (by simp)
  rw [authorizePairs, applyDavResource, if_pos haudience]
  exact hstate.forceValue "resource".toList st.davAudience (by decide)

/-- A token request with a redirect URI that is not allowed, or with a code but
without any. -/
def Refused (U : UrlCrate) (st : OAuthProxyState) (pairs : Pairs) : Prop :=
  (∃ p ∈ pairs, p.1 = "redirect_uri".toList ∧
    isAllowedRedirectUri U st.allowedRedirectUris p.2 = false) ∨
  (∃ p ∈ pairs, p.1 = "grant_type".toList ∧ p.2 = "authorization_code".toList) ∧
    ∀ p ∈ pairs, p.1 ≠ "redirect_uri".toList

theorem tokenPairs_spec (U : UrlCrate) (st : OAuthProxyState) (pairs : Pairs) :
    (Refused U st pairs ∧ ∃ body, tokenPairs U st pairs = .error (.text 400 body)) ∨
    ¬ Refused U st pairs ∧ tokenPairs U st pairs =
      .ok (applyDavResource U (rewriteValue "redirect_uri".toList st.callbackUrl pairs)
        st.davAudience) := by
  rw [tokenPairs, Refused]
  simp only [hasKey, List.any_eq_true, Bool.and_eq_true, decide_eq_true_eq, Bool.not_eq_true',
    List.any_eq_false]
  split_ifs with hdisallowed hmissing
  · exact .inl ⟨.inl hdisallowed, _, rfl⟩
  · exact .inl ⟨.inr hmissing, _, rfl⟩
  · exact .inr ⟨not_or.mpr ⟨hdisallowed, hmissing⟩, rfl⟩

theorem tokenPairs_forced (haudience : isAbsoluteHttpUri U st.davAudience = true) (pairs : Pairs) :
    Forced [("resource".toList, st.davAudience), ("redirect_uri".toList, st.callbackUrl)]
      ["resource".toList] pairs
      (applyDavResource U (rewriteValue "redirect_uri".toList st.callbackUrl pairs)
        st.davAudience) := by
  have hredirect := (forced_refl pairs).rewriteValue "redirect_uri".toList st.callbackUrl
  rw [applyDavResource, if_pos haudience]
  exact hredirect.forceValue "resource".toList st.davAudience (by simp)

/-- What `token` answers once Logto has, or has not. -/
def relay : Option UpstreamReply → Response
  | some r => .relayed r.status (r.contentType.getD "application/json".toList) (r.body.getD [])
  | none => .text 502 "token endpoint upstream error\n"

theorem authorize_redirect {query : Option Text} {randomState : Text} {created now : Nat}
    {pending pending' : PendingMap} {location : Text}
    (h : authorize U st query randomState created now pending = (.redirect location, pending')) :
    ∃ uri, location = st.logtoBase ++ "/auth?".toList ++
        U.formSerialize (authorizePairs U st randomState (U.formParse (query.getD []))) ∧
      firstValue (U.formParse (query.getD [])) "redirect_uri".toList = some uri ∧
      isAllowedRedirectUri U st.allowedRedirectUris uri = true := by
  rw [authorize] at h
  cases hcheck : checkAuthorize U st (U.formParse (query.getD [])) with
  | error refusal =>
    obtain ⟨⟨text, rfl⟩, -⟩ := checkAuthorize_error U st hcheck
    simp [hcheck] at h
  | ok accepted =>
    obtain ⟨uri, clientState⟩ := accepted
    obtain ⟨hfirst, hallowed, -⟩ := (checkAuthorize_ok U st).mp hcheck
    simp only [hcheck] at h
    split at h
    · cases h
    · obtain ⟨hlocation, -⟩ := Prod.mk.inj h
      exact ⟨uri, (Response.redirect.inj hlocation).symm, hfirst, hallowed⟩

theorem token_sent {body : Text} {pairs : Pairs}
    (h : tokenPairs U st (U.formParse body) = .ok pairs)
    (post : Text → Text → Option UpstreamReply) :
    token U st body post =
      relay (post (st.logtoBase ++ "/token".toList) (U.formSerialize pairs)) := by
  rw [token, h]
  dsimp only
  cases post _ _ <;> rfl

/-- What goes to Logto is what the client sent, with the forced values. -/
theorem parameters_forced (hform : ∀ pairs, U.formParse (U.formSerialize pairs) = pairs)
    (haudience : isAbsoluteHttpUri U st.davAudience = true) :
    (∀ query randomState created now pending location pending',
      authorize U st query randomState created now pending = (.redirect location, pending') →
      ∃ form uri, location = st.logtoBase ++ "/auth?".toList ++ form ∧
        firstValue (U.formParse (query.getD [])) "redirect_uri".toList = some uri ∧
        isAllowedRedirectUri U st.allowedRedirectUris uri = true ∧
        Forced
          [("resource".toList, st.davAudience), ("state".toList, randomState),
            ("redirect_uri".toList, st.callbackUrl)]
          ["state".toList, "resource".toList] (U.formParse (query.getD [])) (U.formParse form)) ∧
    ∀ body,
      (Refused U st (U.formParse body) →
        ∃ refusal, ∀ post, token U st body post = .text 400 refusal) ∧
      (¬ Refused U st (U.formParse body) →
        ∃ form,
          (∀ post, token U st body post = relay (post (st.logtoBase ++ "/token".toList) form)) ∧
          Forced [("resource".toList, st.davAudience), ("redirect_uri".toList, st.callbackUrl)]
            ["resource".toList] (U.formParse body) (U.formParse form)) := by
  refine ⟨?_, fun body => ?_⟩
  · intro query randomState created now pending location pending' h
    obtain ⟨uri, hlocation, hfirst, hallowed⟩ := authorize_redirect h
    refine ⟨_, uri, hlocation, hfirst, hallowed, ?_⟩
    rw [hform]
    exact authorizePairs_forced haudience randomState _
  · rcases tokenPairs_spec U st (U.formParse body) with ⟨hrefused, refusal, herror⟩ | ⟨hnot, hok⟩
    · refine ⟨fun _ => ⟨refusal, fun post => ?_⟩, fun hnot => absurd hrefused hnot⟩
      rw [token, herror]
    · have hforced := tokenPairs_forced haudience (U.formParse body)
      generalize applyDavResource U _ st.davAudience = sent at hok hforced
      refine ⟨fun hrefused => absurd hrefused hnot,
        fun _ => ⟨U.formSerialize sent, token_sent hok, ?_⟩⟩
      rwa [hform]

def sampleForms : UrlCrate where
  __ := plainUrls
  formParse := parse decodeUtf8
  formSerialize := serialize

def sampleProxy : OAuthProxyState :=
  .new "https://login.test/oidc/".toList "https://r.test".toList ["https://c.test/cb".toList]
    "https://r.test".toList

def sampleQuery : Text :=
  "state=a&redirect_uri=https://c.test/cb&redirect_uri=x&state=b+c&scope=%C3%A9".toList

/-- A second redirect URI and a second state do not get through. -/
theorem parameters_forced_sample : ∃ form,
    (authorize sampleForms sampleProxy (some sampleQuery) "s1".toList 5 5 ∅).1 =
      .redirect (sampleProxy.logtoBase ++ "/auth?".toList ++ form) ∧
    sampleForms.formParse form =
      [("state".toList, "s1".toList), ("redirect_uri".toList, sampleProxy.callbackUrl),
        ("redirect_uri".toList, sampleProxy.callbackUrl), ("state".toList, "s1".toList),
        ("scope".toList, "é".toList), ("resource".toList, sampleProxy.davAudience)] ∧
    Forced
      [("resource".toList, sampleProxy.davAudience), ("state".toList, "s1".toList),
        ("redirect_uri".toList, sampleProxy.callbackUrl)]
      ["state".toList, "resource".toList] (sampleForms.formParse sampleQuery)
      (sampleForms.formParse form) := by
  have haudience : isAbsoluteHttpUri sampleForms sampleProxy.davAudience = true := by
    decide +kernel
  have hform : ∀ pairs, sampleForms.formParse (sampleForms.formSerialize pairs) = pairs :=
    parse_serialize decodeUtf8_utf8
  have hresponse : (authorize sampleForms sampleProxy (some sampleQuery) "s1".toList 5 5 ∅).1 =
      .redirect (sampleProxy.logtoBase ++ "/auth?".toList ++ sampleForms.formSerialize
        (authorizePairs sampleForms sampleProxy "s1".toList
          (sampleForms.formParse sampleQuery))) := by
    decide +kernel
  obtain ⟨form, _, hlocation, -, -, hforced⟩ :=
    (parameters_forced hform haudience).1 _ _ _ _ _ _ _ (Prod.ext hresponse rfl)
  rw [List.append_cancel_left_eq] at hlocation
  subst hlocation
  refine ⟨_, hresponse, ?_, hforced⟩
  rw [hform]
  decide +kernel

end CardDavMcp.OAuthParameters
