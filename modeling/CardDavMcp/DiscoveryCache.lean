import CardDavMcp.CallRuns

namespace CardDavMcp.DiscoveryCache

open Library.Utf8Text Library.XmlTree Library.Table Library.BoundedTable Library.Interaction
  Library.Runs ToolError DavError DavClient BearerConfinement ContactTools ReadTools
  UpcomingBirthdays ServiceCalls CallDiscipline CallRuns

/-- The effects that write the entry of a key. -/
def Touches (key : Key) : Effect → Prop
  | .discoveryInsert k _ | .discoveryRemove k => k = key
  | .send _ | .discoveryLookup _ | .rateLimitCheck _ _ _ | .dropToken _ | .fillBytes _ => False

variable {ι : Type} [DecidableEq ι] {svc : CardDavMcpService} {chrono : ι → Chrono}
  {calls : ι → ServiceCall} {now : Nat} {a b log : List (Act World ι Effect Reply)}
  {ev : Act World ι Effect Reply}

/-- An insertion that stores this entry. -/
def Stores (ev : Act World ι Effect Reply) (key : Key) (entry : CachedDiscovery) : Prop :=
  ev.effect = .discoveryInsert key entry.discovery ∧ ev.after.now = entry.cachedAt

theorem inserts_discoveryInsert (order : IterOrder Key CachedDiscovery) (now : Nat) (key : Key)
    (discovery : DavDiscovery) (cache : Discoveries) :
    Inserts DISCOVERY_CAP CachedDiscovery.cachedAt
      (fun entry => decide (now - entry.cachedAt < DISCOVERY_TTL)) key ⟨discovery, now⟩ cache
      (discoveryInsert order now key discovery cache) := inserts_insertCapped (by decide)

/-- What the cache holds after an effect was put there by it, or was there
before. -/
theorem Answers.entry {w w' : World} {e : Effect} {r : Reply e} (h : Answers w e r w') {key : Key}
    {entry : CachedDiscovery} (hentry : w'.discoveries.lookup key = some entry) :
    (e = .discoveryInsert key entry.discovery ∧ w'.now = entry.cachedAt) ∨
      (¬ Touches key e ∧ w.discoveries.lookup key = some entry) := by
  cases h with
  | lookup k ht => exact .inr ⟨id, hentry⟩
  | outside e reply he ht =>
    refine .inr ⟨?_, hentry⟩
    cases e with
    | discoveryInsert | discoveryRemove => exact he.elim
    | _ => exact id
  | remove k ht =>
    refine .inr ?_
    by_cases hk : key = k
    · subst hk
      simp at hentry
    · rw [AList.lookup_erase_ne hk] at hentry
      exact ⟨Ne.symm hk, hentry⟩
  | insert order k discovery ht =>
    obtain ⟨rfl, rfl⟩ | ⟨hk, hold⟩ := (inserts_discoveryInsert _ _ _ _ _).lookup hentry
    · exact .inl ⟨rfl, rfl⟩
    · exact .inr ⟨Ne.symm hk, hold⟩

/-- Each entry of the cache goes back to its insertion in the run, and nobody
has written it since. -/
theorem exists_insertion {s : World × (ι → Prog Effect Reply (Except ErrorData ToolResult))}
    (h : Run (poolStep Answers) (⟨∅, now⟩, pool svc chrono calls) log s) {key : Key}
    {entry : CachedDiscovery} (hentry : s.1.discoveries.lookup key = some entry) :
    ∃ a ev b, log = a ++ ev :: b ∧ Stores ev key entry ∧ ∀ x ∈ b, ¬ Touches key x.effect := by
  refine (h.provenance (fun s key entry => s.1.discoveries.lookup key = some entry) Stores
    (fun x key => Touches key x.effect) (fun s x t key entry hs hentry => ?_) hentry).resolve_left
    (by simp)
  obtain ⟨-, hafter, hanswer, -⟩ := hs
  rw [Stores, hafter]
  exact Answers.entry hanswer hentry

/-- The cache answers with an entry that is not yet an hour old. -/
theorem Answers.fresh {w w' : World} {key : Key} {reply : Option DavDiscovery}
    (h : Answers w (.discoveryLookup key) reply w') {discovery : DavDiscovery}
    (hreply : reply = some discovery) : ∃ entry, w.discoveries.lookup key = some entry ∧
      entry.discovery = discovery ∧ w'.now < entry.cachedAt + DISCOVERY_TTL := by
  cases h with
  | outside _ _ he => exact he.elim
  | lookup _ ht =>
    rw [DavClient.discoveryLookup] at hreply
    cases hentry : w.discoveries.lookup key with
    | none => simp [hentry] at hreply
    | some entry =>
      simp only [hentry] at hreply
      split_ifs at hreply with hfresh
      refine ⟨entry, rfl, Option.some.inj hreply, ?_⟩
      dsimp only
      omega

/-- A discovery that a call found in the cache, the call whose bearer it was
fetched with, and the run up to the insertion. -/
structure FetchedWith (svc : CardDavMcpService) (calls : ι → ServiceCall) (token : Text)
    (discovery : DavDiscovery) (before : List (Act World ι Effect Reply))
    (ins : Act World ι Effect Reply) : Prop where
  own : (calls ins.call).ctx.token = some token
  inserted : ins.effect = .discoveryInsert (svc.carddav.hashToken token) discovery
  /-- The server told so itself, in two answers to this bearer. -/
  discovered : Discovered svc.carddav token (traceOf ins.call before) discovery

/-- What the cache answers to a call was fetched with a bearer of the same hash
less than an hour ago, and since then nobody has replaced or removed it. -/
theorem cached_discovery_fetched
    {s : World × (ι → Prog Effect Reply (Except ErrorData ToolResult))}
    (h : Run (poolStep Answers) (⟨∅, now⟩, pool svc chrono calls) (a ++ ev :: b) s) {key : Key}
    {discovery : DavDiscovery} (hev : ev.event = ⟨.discoveryLookup key, some discovery⟩) :
    ∃ token token' a₁ ins a₂, (calls ev.call).ctx.token = some token ∧
      key = svc.carddav.hashToken token ∧ a = a₁ ++ ins :: a₂ ∧
      FetchedWith svc calls token' discovery a₁ ins ∧
      svc.carddav.hashToken token' = svc.carddav.hashToken token ∧
      (∀ x ∈ a₂, ¬ Touches key x.effect) ∧ ev.after.now < ins.after.now + DISCOVERY_TTL := by
  have hsound := disciplined h
  have hguar := Sound.guar_of hsound
  obtain ⟨s₁, s₂, hbefore, hstep, -⟩ := h.split
  obtain ⟨call, effect, reply, before, after⟩ := ev
  cases hev
  obtain ⟨-, token, htoken, rfl⟩ := hguar
  obtain ⟨-, rfl, hanswer, -⟩ := hstep
  obtain ⟨entry, hentry, rfl, hfresh⟩ := Answers.fresh hanswer rfl
  obtain ⟨a₁, ins, a₂, rfl, ⟨hins, hstored⟩, huntouched⟩ := exists_insertion hbefore hentry
  rw [List.append_assoc] at hsound
  have hguar' := Sound.guar_of hsound
  rw [hins] at hguar'
  obtain ⟨-, token', htoken', hkey, hdiscovered⟩ := hguar'
  refine ⟨token, token', a₁, ins, a₂, htoken, rfl, rfl, ⟨htoken', ?_, hdiscovered⟩, hkey.symm,
    huntouched, ?_⟩
  · rw [hins, hkey]
  · rw [hstored]
    exact hfresh

def hrefDoc (name path : String) : Content :=
  .element (dav "response") (.element (dav name)
    (.element (dav "href") (.chars (.text path.toList) .nil) .nil) .nil) .nil

/-- The plain service, at a server that tells the principal `/p/` and then the
home set `/h/`. -/
def discoveringService : CardDavMcpService :=
  { plainService with
    carddav := { plainService.carddav with
      xml := ⟨fun body => document (if body = [1] then hrefDoc "current-user-principal" "/p/"
        else hrefDoc "addressbook-home-set" "/h/"), fun _ => none⟩ } }

def discoveringServer (w : World) : (e : Effect) → Reply e × World
  | .send request =>
    (.ok { status := 207, chunks := [.ok (if request.url = discoveringService.carddav.discoveryUrl
      then [1] else [2])] }, w)
  | .discoveryLookup key => (DavClient.discoveryLookup w.now key w.discoveries, w)
  | .discoveryInsert key discovery =>
    ((), ⟨DavClient.discoveryInsert .asStored w.now key discovery w.discoveries, w.now⟩)
  | .discoveryRemove key => ((), ⟨w.discoveries.erase key, w.now⟩)
  | e => (sampleReply e, w)

theorem answers_discoveringServer (w : World) (e : Effect) :
    Answers w e (discoveringServer w e).1 (discoveringServer w e).2 := by
  cases e with
  | discoveryLookup key => exact .lookup key le_rfl
  | discoveryInsert key discovery => exact .insert .asStored key discovery le_rfl
  | discoveryRemove key => exact .remove key le_rfl
  | _ => exact .outside _ _ trivial le_rfl

/-- Two calls with one bearer, the second after the first. -/
abbrev samplePool : Bool → Prog Effect Reply (Except ErrorData ToolResult) :=
  pool discoveringService (fun _ => sampleChrono ()) fun _ => ⟨sampleContext, .whoami⟩

def playFirst : List (Act World Bool Effect Reply) × World × Except ErrorData ToolResult :=
  playedAlone discoveringServer false ⟨∅, 0⟩ (samplePool false)

def playSecond : List (Act World Bool Effect Reply) × World × Except ErrorData ToolResult :=
  playedAlone discoveringServer true playFirst.2.1 (samplePool true)

theorem sample_run :
    ∃ s, Run (poolStep Answers) (⟨∅, 0⟩, samplePool) (playFirst.1 ++ playSecond.1) s :=
  ⟨_, (run_playedAlone answers_discoveringServer false ⟨∅, 0⟩ samplePool).append
    (run_playedAlone answers_discoveringServer true playFirst.2.1 _)⟩

def hitOf : (e : Effect) × Reply e → Option DavDiscovery
  | ⟨.discoveryLookup _, found⟩ => found
  | _ => none

theorem hitOf_some {x : (e : Effect) × Reply e} {discovery : DavDiscovery}
    (h : hitOf x = some discovery) : ∃ key, x = ⟨.discoveryLookup key, some discovery⟩ := by
  obtain ⟨e, r⟩ := x
  cases e with
  | discoveryLookup key =>
    obtain rfl : r = some discovery := h
    exact ⟨key, rfl⟩
  | _ => cases h

theorem cached_discovery_fetched_sample : ∃ token a₁ ins a₂ b,
    playFirst.1 ++ playSecond.1 = a₁ ++ ins :: (a₂ ++ b) ∧
    FetchedWith discoveringService (fun _ : Bool => ⟨sampleContext, .whoami⟩) token
      ⟨"/p/".toList, "/h/".toList⟩ a₁ ins := by
  have hhits : (playFirst.1 ++ playSecond.1).filterMap (fun ev => hitOf ev.event) =
      [⟨"/p/".toList, "/h/".toList⟩] := by
    rfl
  have hmem : (⟨"/p/".toList, "/h/".toList⟩ : DavDiscovery) ∈
      (playFirst.1 ++ playSecond.1).filterMap (fun ev => hitOf ev.event) := by
    rw [hhits, List.mem_singleton]
  obtain ⟨ev, hev, hhit⟩ := List.mem_filterMap.mp hmem
  obtain ⟨key, hevent⟩ := hitOf_some hhit
  obtain ⟨a, b, hlog⟩ := List.append_of_mem hev
  obtain ⟨s, hrun⟩ := sample_run
  rw [hlog] at hrun
  obtain ⟨_, token, a₁, ins, a₂, -, -, rfl, hfetched, -⟩ := cached_discovery_fetched hrun hevent
  exact ⟨token, a₁, ins, a₂, ev :: b, by rw [hlog]; simp, hfetched⟩

end CardDavMcp.DiscoveryCache
