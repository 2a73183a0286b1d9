import CardDavMcp.OAuthProxy
import CardDavMcp.Library.BoundedTable

namespace CardDavMcp.OAuthFlow

open Library.Utf8Text Library.Table Library.Runs Urls OAuthRedirect OAuthProxy

/-- One request, with what it draws from its surroundings: the random state,
the readings of the clock, the upstream endpoint. -/
inductive Request
  | authorize (query : Option Text) (randomState : Text) (created now : Nat)
  | callback (query : Option Text) (now : Nat)
  | token (body : Text) (post : Text → Text → Option UpstreamReply)

structure Exchange where
  request : Request
  response : Response

variable (U : UrlCrate) (st : OAuthProxyState)

def serve (pending : PendingMap) : Request → Response × PendingMap
  | .authorize query randomState created now => authorize U st query randomState created now pending
  | .callback query now => callback U query now pending
  | .token body post => (token U st body post, pending)

def Step (pending : PendingMap) (e : Exchange) (pending' : PendingMap) : Prop :=
  serve U st pending e.request = (e.response, pending')

/-- The requests served one after another. -/
def serveAll (pending : PendingMap) : List Request → List Exchange × PendingMap
  | [] => ([], pending)
  | request :: rest =>
    let (response, pending) := serve U st pending request
    let (log, pending) := serveAll pending rest
    (⟨request, response⟩ :: log, pending)

theorem serveAll_run (pending : PendingMap) (requests : List Request) :
    Run (Step U st) pending (serveAll U st pending requests).1
    (serveAll U st pending requests).2 := by
  induction requests generalizing pending with
  | nil => exact .nil
  | cons request rest ih => exact .cons rfl (ih (serve U st pending request).2)

def readings : Request → List Nat
  | .authorize _ _ created now => [created, now]
  | .callback _ now => [now]
  | .token _ _ => []

/-- The random state that a request draws, where it comes that far. -/
def drawn : Request → Option Text
  | .authorize query randomState _ _ =>
    match checkAuthorize U st (U.formParse (query.getD [])) with
    | .error _ => none
    | .ok _ => some randomState
  | _ => none

def drawnStates (log : List Exchange) : List Text := log.filterMap (fun e => drawn U st e.request)

/-- The clock never goes back and no random state is drawn twice. -/
def Admissible (log : List Exchange) : Prop :=
  (log.flatMap (fun e => readings e.request)).Pairwise (· ≤ ·) ∧ (drawnStates U st log).Nodup

/-- An accepted `authorize` that stored an entry under a proxy state. -/
def Mints (e : Exchange) (state : Text) (p : Pending) : Prop :=
  ∃ query now location, e = ⟨.authorize query state p.created now, .redirect location⟩ ∧
    firstValue (U.formParse (query.getD [])) "redirect_uri".toList = some p.clientRedirectUri ∧
    firstValue (U.formParse (query.getD [])) "state".toList = p.clientState

/-- A callback that answers a proxy state with a redirect. -/
def Redeems (e : Exchange) (state : Text) : Prop :=
  ∃ query now location, e = ⟨.callback query now, .redirect location⟩ ∧
    lastValue (U.formParse (query.getD [])) "state".toList = some state

theorem lookup_sweep {now : Nat} {pending : PendingMap} {k : Text} {q : Pending}
    (h : (sweepPending now pending).lookup k = some q) : pending.lookup k = some q :=
  Library.BoundedTable.lookup_sweep h

theorem sweep_full {now : Nat} {pending : PendingMap} :
    PENDING_CAP ≤ len (sweepPending now pending) ↔
      PENDING_CAP ≤ len (retain (fun _ p => fresh now p) pending) := by
  have hle := len_retain_le (fun (_ : Text) p => fresh now p) pending
  rw [sweepPending]
  split_ifs
  · exact Iff.rfl
  · omega

theorem lookup_sweep_full {now : Nat} {pending : PendingMap}
    (h : PENDING_CAP ≤ len (sweepPending now pending)) (k : Text) :
    (sweepPending now pending).lookup k = (pending.lookup k).filter (fresh now) := by
  have hle := len_retain_le (fun (_ : Text) p => fresh now p) pending
  rw [sweep_full] at h
  rw [sweepPending, if_pos (by omega), lookup_retain]

theorem insertPending_cases (now : Nat) (state : Text) (p : Pending) (pending : PendingMap) :
    (PENDING_CAP ≤ len (sweepPending now pending) ∧
      insertPending now state p pending = (false, sweepPending now pending)) ∨
    (¬ PENDING_CAP ≤ len (sweepPending now pending) ∧
      insertPending now state p pending = (true, (sweepPending now pending).insert state p)) := by
  by_cases h : PENDING_CAP ≤ len (sweepPending now pending)
  · exact .inl ⟨h, by simp [insertPending, h]⟩
  · exact .inr ⟨h, by simp [insertPending, h]⟩

theorem checkAuthorize_ok {pairs : Pairs} {uri : Text} {clientState : Option Text} :
    checkAuthorize U st pairs = .ok (uri, clientState) ↔
      firstValue pairs "redirect_uri".toList = some uri ∧
      isAllowedRedirectUri U st.allowedRedirectUris uri = true ∧
      firstValue pairs "state".toList = clientState ∧
      ∀ state ∈ clientState, byteLen state ≤ MAX_CLIENT_STATE_BYTES := by
  have hlong (value : Option Text) :
      value.any (fun state => byteLen state > MAX_CLIENT_STATE_BYTES) = true ↔
        ¬ ∀ state ∈ value, byteLen state ≤ MAX_CLIENT_STATE_BYTES := by
    cases value <;> simp
  rw [checkAuthorize]
  cases huri : firstValue pairs "redirect_uri".toList with
  | none => simp
  | some found =>
    dsimp only
    split_ifs with hallowed hlen
    · have hne : found = uri → isAllowedRedirectUri U st.allowedRedirectUris uri ≠ true := by
        rintro rfl
        simpa using hallowed
      grind
    · rw [hlong] at hlen
      grind
    · rw [hlong, not_not] at hlen
      simp only [Bool.not_eq_true', Bool.not_eq_false] at hallowed
      grind

/-- The refusals of `authorize`, with the condition of each. -/
def Refused (pairs : Pairs) (now : Nat) (pending : PendingMap) : Prop :=
  (∀ uri, firstValue pairs "redirect_uri".toList = some uri →
    isAllowedRedirectUri U st.allowedRedirectUris uri = false) ∨
  (∃ state, firstValue pairs "state".toList = some state ∧
    MAX_CLIENT_STATE_BYTES < byteLen state) ∨
  PENDING_CAP ≤ len (retain (fun _ p => fresh now p) pending)

theorem checkAuthorize_error {pairs : Pairs} {refusal : Response}
    (h : checkAuthorize U st pairs = .error refusal) :
    (∃ text, refusal = .text 400 text) ∧
    ((∀ uri, firstValue pairs "redirect_uri".toList = some uri →
      isAllowedRedirectUri U st.allowedRedirectUris uri = false) ∨
    ∃ state, firstValue pairs "state".toList = some state ∧
      MAX_CLIENT_STATE_BYTES < byteLen state) := by
  rw [checkAuthorize] at h
  cases huri : firstValue pairs "redirect_uri".toList with
  | none =>
    simp only [huri, Except.error.injEq] at h
    exact ⟨⟨_, h.symm⟩, .inl (by simp)⟩
  | some found =>
    simp only [huri] at h
    split_ifs at h with hallowed hlen
    · cases h
      exact ⟨⟨_, rfl⟩, .inl (by simpa using hallowed)⟩
    · cases h
      rw [Option.any_eq_true] at hlen
      exact ⟨⟨_, rfl⟩, .inr (by simpa using hlen)⟩

/-- What `authorize` can do: refuse and store nothing, or store one entry
under the state it has drawn. -/
theorem authorize_cases {query : Option Text} {state : Text} {created now : Nat}
    {pending pending' : PendingMap} {r : Response}
    (h : authorize U st query state created now pending = (r, pending')) :
    (Refused U st (U.formParse (query.getD [])) now pending ∧
      (∃ status text, r = .text status text) ∧
      (pending' = pending ∨ PENDING_CAP ≤ len (sweepPending now pending) ∧
        pending' = sweepPending now pending)) ∨
    (¬ Refused U st (U.formParse (query.getD [])) now pending ∧
      (∃ location, r = .redirect location) ∧ ∃ uri clientState,
        firstValue (U.formParse (query.getD [])) "redirect_uri".toList = some uri ∧
        isAllowedRedirectUri U st.allowedRedirectUris uri = true ∧
        firstValue (U.formParse (query.getD [])) "state".toList = clientState ∧
        drawn U st (.authorize query state created now) = some state ∧
        pending' = (sweepPending now pending).insert state ⟨uri, clientState, created⟩) := by
  cases hcheck : checkAuthorize U st (U.formParse (query.getD [])) with
  | error refusal =>
    simp only [authorize, hcheck, Prod.mk.injEq] at h
    obtain ⟨⟨text, htext⟩, hwhy⟩ := checkAuthorize_error U st hcheck
    refine .inl ⟨?_, ⟨400, text, by rw [← h.1, htext]⟩, .inl h.2.symm⟩
    exact hwhy.elim .inl (fun hlong => .inr (.inl hlong))
  | ok accepted =>
    obtain ⟨uri, clientState⟩ := accepted
    obtain ⟨huri, hallowed, hstate, hlen⟩ := (checkAuthorize_ok U st).mp hcheck
    obtain ⟨hfull, hins⟩ | ⟨hfull, hins⟩ :=
      insertPending_cases now state ⟨uri, clientState, created⟩ pending
    · simp only [authorize, hcheck, hins, Prod.mk.injEq] at h
      exact .inl ⟨.inr (.inr (sweep_full.mp hfull)), ⟨503, _, h.1.symm⟩, .inr ⟨hfull, h.2.symm⟩⟩
    · simp only [authorize, hcheck, hins, Prod.mk.injEq] at h
      refine .inr ⟨?_, ⟨_, h.1.symm⟩, uri, clientState, huri, hallowed, hstate, ?_, h.2.symm⟩
      · rintro (hno | ⟨s, hs, hlong⟩ | hcap)
        · simp [hno uri huri] at hallowed
        · have := hlen s (hstate ▸ hs)
          omega
        · exact hfull (sweep_full.mpr hcap)
      · simp [drawn, hcheck]

/-- What `callback` can do: nothing, or consume one entry; it redirects only
for an entry that is still fresh. -/
theorem callback_cases {query : Option Text} {now : Nat} {pending pending' : PendingMap}
    {r : Response} (h : callback U query now pending = (r, pending')) :
    (pending' = pending ∧ ∀ location, r ≠ .redirect location) ∨
    ∃ state p, lastValue (U.formParse (query.getD [])) "state".toList = some state ∧
      pending.lookup state = some p ∧ pending' = pending.erase state ∧
      ∀ location, r = .redirect location → now - p.created < PENDING_TTL ∧
        ∃ url, U.parse p.clientRedirectUri = some url ∧
          location = (U.appendPairs url
            (callbackPairs (U.formParse (query.getD [])) p.clientState)).serialization := by
  rw [callback] at h
  cases hstate : lastValue (U.formParse (query.getD [])) "state".toList with
  | none =>
    simp only [hstate, Prod.mk.injEq] at h
    exact .inl ⟨h.2.symm, fun location hr => by simp [← h.1] at hr⟩
  | some state =>
    cases hp : pending.lookup state with
    | none =>
      simp only [hstate, takePending, hp, Prod.mk.injEq] at h
      exact .inl ⟨h.2.symm, fun location hr => by simp [← h.1] at hr⟩
    | some p =>
      refine .inr ⟨state, p, rfl, hp, ?_⟩
      by_cases hexpired : now - p.created ≥ PENDING_TTL
      · simp only [hstate, takePending, hp, hexpired, if_true, Prod.mk.injEq] at h
        exact ⟨h.2.symm, fun location hr => by simp [← h.1] at hr⟩
      · simp only [hstate, takePending, hp, hexpired, if_false] at h
        cases hurl : U.parse p.clientRedirectUri with
        | none =>
          simp only [hurl, Prod.mk.injEq] at h
          exact ⟨h.2.symm, fun location hr => by simp [← h.1] at hr⟩
        | some url =>
          simp only [hurl, Prod.mk.injEq] at h
          refine ⟨h.2.symm, fun location hr => ⟨Nat.not_le.mp hexpired, url, rfl, ?_⟩⟩
          rw [← h.1, Response.redirect.injEq] at hr
          exact hr.symm

end CardDavMcp.OAuthFlow
