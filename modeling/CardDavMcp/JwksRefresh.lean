import CardDavMcp.Library.Gate
import CardDavMcp.LogtoOidc

namespace CardDavMcp.JwksRefresh

open Library.Utf8Text Library.Table Library.Gate Library.Runs LogtoOidc

def JWKS_TTL : Nat := 3600
def JWKS_MIN_REFRESH_INTERVAL : Nat := 5

/-- A key of a key set: its id, and the decoding key if one can be made of it. -/
structure Jwk where
  keyId : Option Text
  decodingKey : Option DecodingKey
deriving DecidableEq, Repr

/-- The answer of the key endpoint, with its body read as a key set. -/
structure JwksResponse where
  status : Nat
  set : Except String (List Jwk)

abbrev Keys := Dict Text DecodingKey

def insertJwk (keys : Keys) (jwk : Jwk) : Keys :=
  match jwk.keyId, jwk.decodingKey with
  | some kid, some key => keys.insert kid key
  | _, _ => keys

def keysOf (set : List Jwk) : Keys := set.foldl insertJwk ∅

/-- What a refresh makes of the answer to its request. -/
def refreshedKeys : Except String JwksResponse → Except ValidationError Keys
  | .error e => .error (.http e)
  | .ok response =>
    if ¬ (200 ≤ response.status ∧ response.status < 300) then .error (.jwksUpstream response.status)
    else match response.set with
      | .error e => .error (.http e)
      | .ok set => .ok (keysOf set)

structure JwksCache (𝕜 : Type) where
  keys : Keys := ∅
  fetchedAt : Option 𝕜 := none
  lastRefreshAttempt : Option 𝕜 := none

/-- The key cache and the clock. -/
structure Shared (𝕜 : Type) where
  jwks : JwksCache 𝕜
  now : 𝕜

abbrev Found := Except ValidationError (Option DecodingKey)

/-- Where a call stands, named after what it does next. -/
inductive Stage
  | fastPath | lock | recheck | attempt | fetch | lastRead
  | returned (result : Found)
  | cancelled
deriving DecidableEq

/-- The locked sections of a call, the end of its request, and its
cancellation. -/
inductive Action
  | readFresh | acquire | reread | startFetch
  | respond (response : Except String JwksResponse)
  | readAgain
  | cancel

section Call

variable {𝕜 : Type} [CommRing 𝕜] [LinearOrder 𝕜]

def within (now : 𝕜) (limit : Nat) (since : Option 𝕜) : Bool := since.any (fun t => now - t < limit)

/-- The key of a set that is still fresh. -/
def freshKey (kid : Text) (now : 𝕜) (jwks : JwksCache 𝕜) : Option DecodingKey :=
  if within now JWKS_TTL jwks.fetchedAt then jwks.keys.lookup kid else none

/-- What a call returns without a refresh once it holds the gate, if it does. -/
def settled (kid : Text) (now : 𝕜) (jwks : JwksCache 𝕜) : Option (Option DecodingKey) :=
  match freshKey kid now jwks with
  | some key => some (some key)
  | none =>
    if within now JWKS_MIN_REFRESH_INTERVAL jwks.lastRefreshAttempt then some (jwks.keys.lookup kid)
    else none

theorem not_within_of_settled {kid : Text} {now : 𝕜} {jwks : JwksCache 𝕜}
    (h : settled kid now jwks = none) :
    within now JWKS_MIN_REFRESH_INTERVAL jwks.lastRefreshAttempt = false := by
  rw [settled] at h
  split at h
  · cases h
  · split_ifs at h with hrecent
    exact Bool.eq_false_iff.mpr hrecent

theorem freshKey_eq {kid : Text} {now : 𝕜} {jwks : JwksCache 𝕜} {key : DecodingKey}
    (h : freshKey kid now jwks = some key) :
    jwks.keys.lookup kid = some key ∧ within now JWKS_TTL jwks.fetchedAt := by
  rw [freshKey] at h
  split_ifs at h with hin
  exact ⟨h, hin⟩

/-- What is returned without a refresh is what the cache binds to the key id. -/
theorem settled_eq {kid : Text} {now : 𝕜} {jwks : JwksCache 𝕜} {key : Option DecodingKey}
    (h : settled kid now jwks = some key) : key = jwks.keys.lookup kid ∧
      (within now JWKS_TTL jwks.fetchedAt ∨
        within now JWKS_MIN_REFRESH_INTERVAL jwks.lastRefreshAttempt) := by
  rw [settled] at h
  split at h
  · next found hfresh =>
    obtain ⟨hkey, hin⟩ := freshKey_eq hfresh
    rw [hkey]
    exact ⟨(Option.some.inj h).symm, .inl hin⟩
  · split_ifs at h with hrecent
    exact ⟨(Option.some.inj h).symm, .inr hrecent⟩

def recordAttempt (now : 𝕜) (jwks : JwksCache 𝕜) : JwksCache 𝕜 :=
  { jwks with lastRefreshAttempt := some now }

def install (now : 𝕜) (keys : Keys) (jwks : JwksCache 𝕜) : JwksCache 𝕜 :=
  { jwks with keys, fetchedAt := some now }

/-- How a call goes on. A call that returns or is cancelled drops its guard. -/
def decodingKeyFor (kid : Text) (now : 𝕜) : Action → Stage → JwksCache 𝕜 →
    Option (Stage × JwksCache 𝕜 × Move)
  | .readFresh, .fastPath, jwks =>
    match freshKey kid now jwks with
    | some key => some (.returned (.ok (some key)), jwks, .stay)
    | none => some (.lock, jwks, .stay)
  | .acquire, .lock, jwks => some (.recheck, jwks, .take)
  | .reread, .recheck, jwks =>
    match settled kid now jwks with
    | some key => some (.returned (.ok key), jwks, .leave)
    | none => some (.attempt, jwks, .stay)
  | .startFetch, .attempt, jwks => some (.fetch, recordAttempt now jwks, .stay)
  | .respond response, .fetch, jwks =>
    match refreshedKeys response with
    | .ok keys => some (.lastRead, install now keys jwks, .stay)
    | .error e => some (.returned (.error e), jwks, .leave)
  | .readAgain, .lastRead, jwks => some (.returned (.ok (jwks.keys.lookup kid)), jwks, .leave)
  | .cancel, .returned _, _ | .cancel, .cancelled, _ => none
  | .cancel, _, jwks => some (.cancelled, jwks, .leave)
  | _, _, _ => none

/-- Any number of calls, each with its key id. Their steps carry the time,
which does not run backwards. -/
def protocol {ι : Type} (kids : ι → Text) : Protocol ι Stage (Action × 𝕜) Empty (Shared 𝕜) where
  next i a stage shared :=
    if a.2 < shared.now then none
    else (decodingKeyFor (kids i) a.2 a.1 stage shared.jwks).map
      fun (stage, jwks, move) => (stage, ⟨jwks, a.2⟩, move)
  outside b _ := b.elim

/-- All that a step of a call does. -/
inductive CallStep (kid : Text) (now : 𝕜) : Action → Stage → JwksCache 𝕜 → Stage →
    JwksCache 𝕜 → Move → Prop
  | hit {jwks : JwksCache 𝕜} {key : DecodingKey} (h : freshKey kid now jwks = some key) :
      CallStep kid now .readFresh .fastPath jwks (.returned (.ok (some key))) jwks .stay
  | miss {jwks : JwksCache 𝕜} (h : freshKey kid now jwks = none) :
      CallStep kid now .readFresh .fastPath jwks .lock jwks .stay
  | acquire {jwks : JwksCache 𝕜} : CallStep kid now .acquire .lock jwks .recheck jwks .take
  | settle {jwks : JwksCache 𝕜} {key : Option DecodingKey} (h : settled kid now jwks = some key) :
      CallStep kid now .reread .recheck jwks (.returned (.ok key)) jwks .leave
  | proceed {jwks : JwksCache 𝕜} (h : settled kid now jwks = none) :
      CallStep kid now .reread .recheck jwks .attempt jwks .stay
  | startFetch {jwks : JwksCache 𝕜} :
      CallStep kid now .startFetch .attempt jwks .fetch (recordAttempt now jwks) .stay
  | install {jwks : JwksCache 𝕜} {response : Except String JwksResponse} {keys : Keys}
      (h : refreshedKeys response = .ok keys) :
      CallStep kid now (.respond response) .fetch jwks .lastRead (install now keys jwks) .stay
  | fail {jwks : JwksCache 𝕜} {response : Except String JwksResponse} {e : ValidationError}
      (h : refreshedKeys response = .error e) :
      CallStep kid now (.respond response) .fetch jwks (.returned (.error e)) jwks .leave
  | readAgain {jwks : JwksCache 𝕜} :
      CallStep kid now .readAgain .lastRead jwks
        (.returned (.ok (jwks.keys.lookup kid))) jwks .leave
  | cancel {jwks : JwksCache 𝕜} {stage : Stage} (h : ∀ result, stage ≠ .returned result)
      (h' : stage ≠ .cancelled) : CallStep kid now .cancel stage jwks .cancelled jwks .leave

theorem callStep_of {kid : Text} {now : 𝕜} {a : Action} {stage stage' : Stage}
    {jwks jwks' : JwksCache 𝕜}
    {m : Move} (h : decodingKeyFor kid now a stage jwks = some (stage', jwks', m)) :
    CallStep kid now a stage jwks stage' jwks' m := by
  cases a with
  | readFresh =>
    cases stage with
    | fastPath =>
      rw [decodingKeyFor] at h
      cases hfresh : freshKey kid now jwks with
      | some key =>
        rw [hfresh] at h
        cases h
        exact .hit hfresh
      | none =>
        rw [hfresh] at h
        cases h
        exact .miss hfresh
    | _ => cases h
  | acquire =>
    cases stage with
    | lock =>
      cases h
      exact .acquire
    | _ => cases h
  | reread =>
    cases stage with
    | recheck =>
      rw [decodingKeyFor] at h
      cases hsettled : settled kid now jwks with
      | some key =>
        rw [hsettled] at h
        cases h
        exact .settle hsettled
      | none =>
        rw [hsettled] at h
        cases h
        exact .proceed hsettled
    | _ => cases h
  | startFetch =>
    cases stage with
    | attempt =>
      cases h
      exact .startFetch
    | _ => cases h
  | respond response =>
    cases stage with
    | fetch =>
      rw [decodingKeyFor] at h
      cases hkeys : refreshedKeys response with
      | ok keys =>
        rw [hkeys] at h
        cases h
        exact .install hkeys
      | error e =>
        rw [hkeys] at h
        cases h
        exact .fail hkeys
    | _ => cases h
  | readAgain =>
    cases stage with
    | lastRead =>
      cases h
      exact .readAgain
    | _ => cases h
  | cancel =>
    cases stage with
    | returned result => cases h
    | cancelled => cases h
    | _ =>
      cases h
      exact .cancel (fun _ => Stage.noConfusion) Stage.noConfusion

end Call

section Run

variable {𝕜 ι : Type} [CommRing 𝕜] [LinearOrder 𝕜] [DecidableEq ι] {kids : ι → Text}

abbrev RefreshEvent (𝕜 ι : Type) := Event ι (Action × 𝕜) Empty
abbrev System (𝕜 ι : Type) := Gated ι Stage (Shared 𝕜)

/-- Between taking the gate and dropping it. -/
def Inside : Stage → Prop
  | .recheck | .attempt | .fetch | .lastRead => True
  | _ => False

omit [DecidableEq ι] in
theorem callStep_of_next {i : ι} {a : Action × 𝕜} {l l' : Stage} {x x' : Shared 𝕜} {m : Move}
    (h : (protocol kids).next i a l x = some (l', x', m)) :
    x.now ≤ a.2 ∧ x'.now = a.2 ∧ CallStep (kids i) a.2 a.1 l x.jwks l' x'.jwks m := by
  simp only [protocol] at h
  split_ifs at h with hnow
  obtain ⟨⟨stage, jwks, move⟩, hcall, heq⟩ := Option.map_eq_some_iff.mp h
  simp only [Prod.mk.injEq] at heq
  obtain ⟨rfl, rfl, rfl⟩ := heq
  exact ⟨not_lt.mp hnow, rfl, callStep_of hcall⟩

/-- Every step is one of a call. -/
theorem callStep_of_step {s s' : System 𝕜 ι} {ev : RefreshEvent 𝕜 ι}
    (h : (protocol kids).Step s ev s') :
    ∃ i a t m stage stage' jwks jwks' now, ev = .task i (a, t) ∧ now ≤ t ∧
      Goes s s' i stage stage' ⟨jwks, now⟩ ⟨jwks', t⟩ ∧
      CallStep (kids i) t a stage jwks stage' jwks' m := by
  cases ev with
  | outside b => exact b.elim
  | task i a =>
    obtain ⟨stage, stage', ⟨jwks, now⟩, ⟨jwks', now'⟩, m, hnext, hgoes⟩ := goes_of_step h
    obtain ⟨hnow, rfl, hcall⟩ := callStep_of_next hnext
    exact ⟨i, a.1, a.2, m, stage, stage', jwks, jwks', now, rfl, hnow, hgoes, hcall⟩

omit [DecidableEq ι] in
theorem disciplined : (protocol (𝕜 := 𝕜) kids).Disciplined Inside := by
  constructor
  · rintro i ⟨a, t⟩ l ⟨jwks, now⟩ l' ⟨jwks', now'⟩ h hin
    generalize hm : Move.stay = m at h
    have hcall : CallStep (kids i) t a l jwks l' jwks' m := (callStep_of_next h).2.2
    cases hcall with
    | hit | miss => exact hin
    | proceed | startFetch | install => trivial
    | acquire | settle | fail | readAgain | cancel => cases hm
  · rintro i ⟨a, t⟩ l ⟨jwks, now⟩ l' ⟨jwks', now'⟩ h hin
    generalize hm : Move.leave = m at h
    have hcall : CallStep (kids i) t a l jwks l' jwks' m := (callStep_of_next h).2.2
    cases hcall with
    | settle | fail | readAgain | cancel => exact hin
    | hit | miss | acquire | proceed | startFetch | install => cases hm

/-- The time at which a step starts a request, if it does. -/
def startOf : RefreshEvent 𝕜 ι → Option 𝕜
  | .task _ (.startFetch, t) => some t
  | _ => none

/-- The key set that a step fetched, and when, if it did. -/
def setOf : RefreshEvent 𝕜 ι → Option (Keys × 𝕜)
  | .task _ (.respond response, t) => (refreshedKeys response).toOption.map (·, t)
  | _ => none

def startsOf (log : List (RefreshEvent 𝕜 ι)) : List 𝕜 := log.filterMap startOf

/-- The key set fetched last. -/
def lastSet (log : List (RefreshEvent 𝕜 ι)) : Option (Keys × 𝕜) := (log.filterMap setOf).getLast?

def lastKeys (log : List (RefreshEvent 𝕜 ι)) : Keys := ((lastSet log).map Prod.fst).getD ∅

variable {log : List (RefreshEvent 𝕜 ι)} {ev : RefreshEvent 𝕜 ι}

omit [CommRing 𝕜] [LinearOrder 𝕜] [DecidableEq ι] in
theorem startsOf_snoc : startsOf (log ++ [ev]) = startsOf log ++ (startOf ev).toList := by
  cases h : startOf ev <;> simp [startsOf, h]

omit [CommRing 𝕜] [LinearOrder 𝕜] [DecidableEq ι] in
theorem lastSet_snoc : lastSet (log ++ [ev]) = (setOf ev <|> lastSet log) := by
  cases h : setOf ev <;> simp [lastSet, h]

/-- The cache holds what the steps so far put there. -/
structure Recorded (log : List (RefreshEvent 𝕜 ι)) (jwks : JwksCache 𝕜) : Prop where
  keys : jwks.keys = lastKeys log
  fetchedAt : jwks.fetchedAt = (lastSet log).map Prod.snd
  attempt : jwks.lastRefreshAttempt = (startsOf log).getLast?

omit [CommRing 𝕜] [LinearOrder 𝕜] [DecidableEq ι] in
theorem Recorded.quiet {jwks : JwksCache 𝕜} (h : Recorded log jwks) (hstart : startOf ev = none)
    (hset : setOf ev = none) : Recorded (log ++ [ev]) jwks := by
  have hlast : lastSet (log ++ [ev]) = lastSet log := by
    rw [lastSet_snoc, hset]
    rfl
  refine ⟨?_, ?_, ?_⟩
  · rw [lastKeys, hlast]
    exact h.keys
  · rw [hlast]
    exact h.fetchedAt
  · rw [startsOf_snoc, hstart, Option.toList_none, List.append_nil]
    exact h.attempt

omit [DecidableEq ι] in
theorem Recorded.step {i : ι} {a : Action} {t : 𝕜} {kid : Text} {stage stage' : Stage}
    {jwks jwks' : JwksCache 𝕜} {m : Move} (h : Recorded log jwks)
    (hs : CallStep kid t a stage jwks stage' jwks' m) :
    Recorded (log ++ [.task i (a, t)]) jwks' := by
  cases hs with
  | startFetch =>
    refine ⟨?_, ?_, ?_⟩
    · rw [lastKeys, lastSet_snoc]
      exact h.keys
    · rw [lastSet_snoc]
      exact h.fetchedAt
    · rw [startsOf_snoc]
      exact List.getLast?_concat.symm
  | @install _ response keys hkeys =>
    have hset : setOf (Event.task i (Action.respond response, t) : RefreshEvent 𝕜 ι) =
      some (keys, t) := by
      rw [setOf, hkeys]
      rfl
    refine ⟨?_, ?_, ?_⟩
    · rw [lastKeys, lastSet_snoc, hset]
      rfl
    · rw [lastSet_snoc, hset]
      rfl
    · rw [startsOf_snoc]
      exact h.attempt.trans (congrArg List.getLast? (List.append_nil _).symm)
  | fail hfailed =>
    apply h.quiet rfl
    rw [setOf, hfailed]
    rfl
  | hit | miss | acquire | settle | proceed | readAgain | cancel => exact h.quiet rfl rfl

section Ordered

variable [IsStrictOrderedRing 𝕜]

omit [DecidableEq ι] [IsStrictOrderedRing 𝕜] in
theorem not_within {now : 𝕜} {limit : Nat} {since : Option 𝕜} :
    within now limit since = false ↔ ∀ t, since = some t → (limit : 𝕜) ≤ now - t := by
  cases since <;> simp [within]

omit [DecidableEq ι] in
theorem not_within_mono {now now' : 𝕜} {limit : Nat} {since : Option 𝕜} (hnow : now ≤ now')
    (h : within now limit since = false) : within now' limit since = false := by
  rw [not_within] at h ⊢
  intro t ht
  exact (h t ht).trans (sub_le_sub_right hnow t)

/-- Times that lie apart come in order. -/
def Apart (times : List 𝕜) : Prop :=
  times.Pairwise (fun t u => (JWKS_MIN_REFRESH_INTERVAL : 𝕜) ≤ u - t)

omit [DecidableEq ι] in
theorem Apart.snoc {times : List 𝕜} {now : 𝕜} (h : Apart times)
    (hlast : within now JWKS_MIN_REFRESH_INTERVAL times.getLast? = false) :
    Apart (times ++ [now]) := by
  rw [not_within] at hlast
  refine List.pairwise_append.mpr ⟨h, List.pairwise_singleton _ _, fun t ht u hu => ?_⟩
  obtain rfl := List.mem_singleton.mp hu
  cases times using List.reverseRecOn with
  | nil => cases ht
  | append_singleton times last =>
    have hnow := hlast last List.getLast?_concat
    obtain ht | ht := List.mem_append.mp ht
    · have hbefore := (List.pairwise_append.mp h).2.2 t ht last (List.mem_singleton_self last)
      have hpos : (0 : 𝕜) ≤ (JWKS_MIN_REFRESH_INTERVAL : 𝕜) := Nat.cast_nonneg _
      linarith
    · obtain rfl := List.mem_singleton.mp ht
      exact hnow

/-- What holds in every state of a run. -/
structure Consistent (log : List (RefreshEvent 𝕜 ι)) (s : System 𝕜 ι) : Prop where
  guarded : Guarded Inside s
  recorded : Recorded log s.shared.jwks
  clock : ∀ t ∈ startsOf log, t ≤ s.shared.now
  ready : ∀ i, s.stage i = .attempt →
    within s.shared.now JWKS_MIN_REFRESH_INTERVAL s.shared.jwks.lastRefreshAttempt = false
  apart : Apart (startsOf log)
  own : ∀ i, s.stage i = .lastRead → ∃ response keys t, .task i (.respond response, t) ∈ log ∧
    refreshedKeys response = .ok keys
  fetching : ∀ i, s.stage i = .fetch → ∃ before t during,
    log = before ++ .task i (.startFetch, t) :: during ∧ lastSet log = lastSet before

section Step

variable {s s' : System 𝕜 ι} {i : ι} {a : Action} {t now : 𝕜} {stage stage' : Stage}
  {jwks jwks' : JwksCache 𝕜} {m : Move}

omit [DecidableEq ι] [IsStrictOrderedRing 𝕜] in
theorem Consistent.clock_step (h : Consistent log s)
    (hgoes : Goes s s' i stage stage' ⟨jwks, now⟩ ⟨jwks', t⟩) (hnow : now ≤ t) :
    ∀ u ∈ startsOf (log ++ [.task i (a, t)]), u ≤ s'.shared.now := by
  intro u hu
  rw [startsOf_snoc, List.mem_append] at hu
  rw [hgoes.shared']
  have hclock := h.clock u
  rw [hgoes.shared] at hclock
  obtain hu | hu := hu
  · exact (hclock hu).trans hnow
  · cases a with
    | startFetch => exact (List.mem_singleton.mp hu).le
    | _ => cases hu

/-- Only the call inside records an attempt. -/
theorem Consistent.ready_step (h : Consistent log s)
    (hgoes : Goes s s' i stage stage' ⟨jwks, now⟩ ⟨jwks', t⟩) (hnow : now ≤ t)
    (hcall : CallStep (kids i) t a stage jwks stage' jwks' m) : ∀ j, s'.stage j = .attempt →
      within s'.shared.now JWKS_MIN_REFRESH_INTERVAL s'.shared.jwks.lastRefreshAttempt = false := by
  intro j hj
  rw [hgoes.shared']
  obtain ⟨rfl, hstage⟩ | ⟨hji, hstage⟩ := hgoes.cases j
  all_goals rw [hstage] at hj
  · subst hj
    cases hcall with
    | proceed hsettled => exact not_within_of_settled hsettled
  · have hready := h.ready j hj
    rw [hgoes.shared] at hready
    have hkept := not_within_mono hnow hready
    cases hcall with
    | startFetch => exact absurd (hgoes.unique h.guarded trivial (by rw [hj]; trivial)) hji
    | _ => exact hkept

omit [DecidableEq ι] in
/-- A request starts only when the last one is long past. -/
theorem Consistent.apart_step (h : Consistent log s)
    (hgoes : Goes s s' i stage stage' ⟨jwks, now⟩ ⟨jwks', t⟩) (hnow : now ≤ t)
    (hcall : CallStep (kids i) t a stage jwks stage' jwks' m) :
    Apart (startsOf (log ++ [.task i (a, t)])) := by
  rw [startsOf_snoc]
  cases hcall with
  | startFetch =>
    have hready := h.ready i hgoes.stage
    have hattempt := h.recorded.attempt
    rw [hgoes.shared] at hready hattempt
    have hlast := not_within_mono hnow hready
    rw [hattempt] at hlast
    exact h.apart.snoc hlast
  | _ => exact (List.append_nil (startsOf log)).symm ▸ h.apart

omit [IsStrictOrderedRing 𝕜] in
theorem Consistent.own_step (h : Consistent log s)
    (hgoes : Goes s s' i stage stage' ⟨jwks, now⟩ ⟨jwks', t⟩)
    (hcall : CallStep (kids i) t a stage jwks stage' jwks' m) : ∀ j, s'.stage j = .lastRead →
      ∃ response keys u, .task j (.respond response, u) ∈ log ++ [.task i (a, t)] ∧
        refreshedKeys response = .ok keys := by
  intro j hj
  obtain ⟨rfl, hstage⟩ | ⟨hji, hstage⟩ := hgoes.cases j
  all_goals rw [hstage] at hj
  · subst hj
    cases hcall with
    | @install _ response keys hkeys => exact ⟨response, keys, t, by simp, hkeys⟩
  · obtain ⟨response, keys, u, hmem, hkeys⟩ := h.own j hj
    exact ⟨response, keys, u, List.mem_append_left _ hmem, hkeys⟩

omit [IsStrictOrderedRing 𝕜] in
/-- Only the call inside installs a key set. -/
theorem Consistent.fetching_step (h : Consistent log s)
    (hgoes : Goes s s' i stage stage' ⟨jwks, now⟩ ⟨jwks', t⟩)
    (hcall : CallStep (kids i) t a stage jwks stage' jwks' m) : ∀ j, s'.stage j = .fetch →
      ∃ before u during, log ++ [.task i (a, t)] = before ++ .task j (.startFetch, u) :: during ∧
        lastSet (log ++ [.task i (a, t)]) = lastSet before := by
  intro j hj
  obtain ⟨rfl, hstage⟩ | ⟨hji, hstage⟩ := hgoes.cases j
  all_goals rw [hstage] at hj
  · subst hj
    cases hcall with
    | startFetch => exact ⟨log, t, [], rfl, lastSet_snoc⟩
  · obtain ⟨before, u, during, hlog, hlast⟩ := h.fetching j hj
    refine ⟨before, u, during ++ [.task i (a, t)], by simp [hlog], ?_⟩
    rw [lastSet_snoc]
    cases hcall with
    | install => exact absurd (hgoes.unique h.guarded trivial (by rw [hj]; trivial)) hji
    | fail hfailed =>
      rw [setOf, hfailed]
      exact hlast
    | _ => exact hlast

theorem Consistent.step (h : Consistent log s) (hs : (protocol kids).Step s ev s') :
    Consistent (log ++ [ev]) s' := by
  have hguarded := h.guarded.step disciplined hs
  obtain ⟨i, a, t, m, stage, stage', jwks, jwks', now, rfl, hnow, hgoes, hcall⟩ :=
    callStep_of_step hs
  have hrecorded := h.recorded
  rw [hgoes.shared] at hrecorded
  constructor
  · exact hguarded
  · rw [hgoes.shared']
    exact hrecorded.step hcall
  · exact h.clock_step hgoes hnow
  · exact h.ready_step hgoes hnow hcall
  · exact h.apart_step hgoes hnow hcall
  · exact h.own_step hgoes hcall
  · exact h.fetching_step hgoes hcall

end Step

def initial (now : 𝕜) : System 𝕜 ι := ⟨fun _ => .fastPath, none, ⟨{}, now⟩⟩

theorem consistent_of_run {now : 𝕜} {s : System 𝕜 ι}
    (h : Run (protocol kids).Step (initial now) log s) :
    Consistent log s := by
  induction h with
  | nil =>
    refine ⟨fun i hi =>
      absurd hi id, ⟨rfl, rfl, rfl⟩, by simp [startsOf], ?_, List.Pairwise.nil, ?_, ?_⟩
    all_goals
      intro i hi
      cases hi
  | snoc _ hs ih => exact ih.step hs

/-- What the refresh protocol keeps, in a state reached after the given steps. -/
structure Protected (kids : ι → Text) (log : List (RefreshEvent 𝕜 ι)) (s : System 𝕜 ι) : Prop where
  apart : Apart (startsOf log)
  single : ∀ i j, s.stage i = .fetch → s.stage j = .fetch → i = j
  returned : ∀ i a s' key, (protocol kids).Step s (.task i a) s' →
    s'.stage i = .returned (.ok key) → key = (lastKeys log).lookup (kids i)
  failed : ∀ i a t s', (protocol kids).Step s (.task i (a, t)) s' →
    (a = .cancel ∨ ∃ response e, a = .respond response ∧ refreshedKeys response = .error e) →
      s'.shared.jwks = s.shared.jwks
  unchanged : ∀ i, s.stage i = .fetch → ∃ before t during,
    log = before ++ .task i (.startFetch, t) :: during ∧ s.shared.jwks.keys = lastKeys before ∧
      s.shared.jwks.fetchedAt = (lastSet before).map Prod.snd
  stale : ∀ i a t s' key since, (protocol kids).Step s (.task i (a, t)) s' →
    s'.stage i = .returned (.ok (some key)) → s.shared.jwks.fetchedAt = some since →
      (JWKS_TTL : 𝕜) ≤ t - since →
      (∀ response u, .task i (.respond response, u) ∈ log →
        ∀ keys, refreshedKeys response ≠ .ok keys) →
        ∃ u ∈ startsOf log, u ≤ t ∧ t - u < JWKS_MIN_REFRESH_INTERVAL
  fast : ∀ i t since key, s.stage i = .fastPath → s.shared.now ≤ t →
    s.shared.jwks.fetchedAt = some since → t - since < JWKS_TTL →
      s.shared.jwks.keys.lookup (kids i) = some key →
        ∃ s', (protocol kids).Step s (.task i (.readFresh, t)) s' ∧
          s'.stage i = .returned (.ok (some key)) ∧ s'.gate = s.gate ∧
            s'.shared.jwks = s.shared.jwks

omit [IsStrictOrderedRing 𝕜] in
theorem Consistent.returned {s s' : System 𝕜 ι} {i : ι} {a : Action × 𝕜} {key : Option DecodingKey}
    (h : Consistent log s) (hs : (protocol kids).Step s (.task i a) s')
    (hkey : s'.stage i = .returned (.ok key)) : key = (lastKeys log).lookup (kids i) := by
  obtain ⟨i', a', t, m, stage, stage', jwks, jwks', now, hev, -, hgoes, hcall⟩ :=
    callStep_of_step hs
  cases hev
  rw [hgoes.stage'] at hkey
  subst hkey
  rw [← h.recorded.keys, hgoes.shared]
  cases hcall with
  | hit hfresh => exact (freshKey_eq hfresh).1.symm
  | settle hsettled => exact (settled_eq hsettled).1
  | readAgain => rfl

omit [IsStrictOrderedRing 𝕜] in
theorem jwks_of_failed {s s' : System 𝕜 ι} {i : ι} {a : Action} {t : 𝕜}
    (hs : (protocol kids).Step s (.task i (a, t)) s')
    (hfailed : a = .cancel ∨ ∃ response e, a = .respond response ∧
      refreshedKeys response = .error e) :
    s'.shared.jwks = s.shared.jwks := by
  obtain ⟨i', a', t', m, stage, stage', jwks, jwks', now, hev, -, hgoes, hcall⟩ :=
    callStep_of_step hs
  cases hev
  rw [hgoes.shared', hgoes.shared]
  obtain rfl | ⟨response, e, rfl, he⟩ := hfailed
  · cases hcall
    rfl
  · cases hcall with
    | install hkeys =>
      rw [he] at hkeys
      cases hkeys
    | fail => rfl

omit [IsStrictOrderedRing 𝕜] in
/-- An old key is handed out only during a cooldown, or after a refresh of one's own. -/
theorem Consistent.stale {s s' : System 𝕜 ι} {i : ι} {a : Action} {t since : 𝕜} {key : DecodingKey}
    (h : Consistent log s) (hs : (protocol kids).Step s (.task i (a, t)) s')
    (hkey : s'.stage i = .returned (.ok (some key))) (hsince : s.shared.jwks.fetchedAt = some since)
    (hold : (JWKS_TTL : 𝕜) ≤ t - since)
    (hown : ∀ response u, .task i (.respond response, u) ∈ log →
      ∀ keys, refreshedKeys response ≠ .ok keys) :
    ∃ u ∈ startsOf log, u ≤ t ∧ t - u < JWKS_MIN_REFRESH_INTERVAL := by
  obtain ⟨i', a', t', m, stage, stage', jwks, jwks', now, hev, hnow, hgoes, hcall⟩ :=
    callStep_of_step hs
  cases hev
  rw [hgoes.stage'] at hkey
  generalize some key = found at hkey
  subst hkey
  have hattempt := h.recorded.attempt
  have hclock := h.clock
  rw [hgoes.shared] at hsince hattempt hclock
  have hnotFresh : ¬ within t JWKS_TTL jwks.fetchedAt := by
    rw [Bool.not_eq_true, not_within]
    intro u hu
    rw [hsince, Option.some.injEq] at hu
    exact hu ▸ hold
  cases hcall with
  | hit hfresh => exact absurd (freshKey_eq hfresh).2 hnotFresh
  | settle hsettled =>
    have hrecent := (settled_eq hsettled).2.resolve_left hnotFresh
    rw [hattempt, within, Option.any_eq_true] at hrecent
    obtain ⟨u, hu, hlt⟩ := hrecent
    have hmem := List.mem_of_getLast? hu
    exact ⟨u, hmem, (hclock u hmem).trans hnow, of_decide_eq_true hlt⟩
  | readAgain =>
    obtain ⟨response, keys, u, hmem, hkeys⟩ := h.own i hgoes.stage
    exact absurd hkeys (hown response u hmem keys)

omit [IsStrictOrderedRing 𝕜] in
/-- A fresh key is found at once, whoever holds the gate. -/
theorem fast_step {s : System 𝕜 ι} {i : ι} {t since : 𝕜} {key : DecodingKey}
    (hstage : s.stage i = .fastPath)
    (hnow : s.shared.now ≤ t) (hsince : s.shared.jwks.fetchedAt = some since)
    (hfresh : t - since < JWKS_TTL)
    (hkey : s.shared.jwks.keys.lookup (kids i) = some key) :
    ∃ s', (protocol kids).Step s (.task i (.readFresh, t)) s' ∧
      s'.stage i = .returned (.ok (some key)) ∧ s'.gate = s.gate ∧
      s'.shared.jwks = s.shared.jwks := by
  have hfound : freshKey (kids i) t s.shared.jwks = some key := by
    rw [freshKey, hsince, hkey]
    simp [within, hfresh]
  refine ⟨⟨Function.update s.stage i (.returned (.ok (some key))), s.gate, s.shared.jwks, t⟩,
    ?_, ?_, rfl, rfl⟩
  · simp [Protocol.Step, Protocol.step, protocol, hnow.not_gt, hstage, decodingKeyFor, hfound]
  · exact Function.update_self ..

theorem refresh_protected (kids : ι → Text) (now : 𝕜) (log : List (RefreshEvent 𝕜 ι))
    (s : System 𝕜 ι) (h : Run (protocol kids).Step (initial now) log s) : Protected kids log s := by
  have hinv := consistent_of_run h
  refine ⟨hinv.apart, fun i j hi hj => hinv.guarded.unique ?_ ?_, fun i a s' key hs hkey =>
    hinv.returned hs hkey, fun i a t s' hs hfailed => jwks_of_failed hs hfailed, fun i hi => ?_,
    fun i a t s' key since hs hkey hsince hold hown => hinv.stale hs hkey hsince hold hown,
    fun i t since key hstage hnow hsince hfresh hkey => fast_step hstage hnow hsince hfresh hkey⟩
  · rw [hi]
    trivial
  · rw [hj]
    trivial
  · obtain ⟨before, t, during, hlog, hlast⟩ := hinv.fetching i hi
    rw [hinv.recorded.keys, hinv.recorded.fetchedAt, lastKeys, hlast]
    exact ⟨before, t, during, hlog, rfl, rfl⟩

end Ordered

end Run

def sampleKey : DecodingKey := ⟨[1]⟩

def sampleKids : Bool → Text
  | true => "k".toList
  | false => "x".toList

def sampleResponse : Except String JwksResponse :=
  .ok ⟨200, .ok [⟨some "k".toList, some sampleKey⟩]⟩

/-- One call fetches its key while the other waits, and the other then finds
that its own key does not exist. -/
def sampleLog : List (RefreshEvent ℤ Bool) :=
  [.task true (.readFresh, 0), .task true (.acquire, 0), .task true (.reread, 0),
    .task true (.startFetch, 0), .task false (.readFresh, 1),
    .task true (.respond sampleResponse, 2), .task true (.readAgain, 2), .task false (.acquire, 3),
      .task false (.reread, 3)]

theorem refresh_protected_sample : ∃ s, Run (protocol sampleKids).Step (initial 0) sampleLog s ∧
    s.stage true = .returned (.ok (some sampleKey)) ∧ s.stage false = .returned (.ok none) ∧
      Protected sampleKids sampleLog s := by
  have hafter : ((protocol sampleKids).after (initial (0 : ℤ)) sampleLog).any (fun s =>
      decide (s.stage true = .returned (.ok (some sampleKey)) ∧
        s.stage false = .returned (.ok none))) := by
    decide +kernel
  obtain ⟨s, hs, hdone⟩ := (Option.any_eq_true _ _).mp hafter
  obtain ⟨htrue, hfalse⟩ := of_decide_eq_true hdone
  have hrun := run_of_after hs
  exact ⟨s, hrun, htrue, hfalse, refresh_protected sampleKids 0 sampleLog s hrun⟩

end CardDavMcp.JwksRefresh
