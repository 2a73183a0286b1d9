import CardDavMcp.CallDiscipline

namespace CardDavMcp.CallRuns

open Library.Utf8Text Library.Interaction Library.Runs ToolError DavClient ContactTools ReadTools
  UpcomingBirthdays ServiceCalls CallDiscipline

section Pool

variable {W ι : Type} [DecidableEq ι] {svc : CardDavMcpService} {chrono : ι → Chrono}
  {calls : ι → ServiceCall} {world : W → (e : Effect) → Reply e → W → Prop} {start : W}
  {log a b : List (Act W ι Effect Reply)} {ev x : Act W ι Effect Reply}
  {s : W × (ι → Prog Effect Reply (Except ErrorData ToolResult))}

/-- The calls of the tools at the start. -/
def pool (svc : CardDavMcpService) (chrono : ι → Chrono) (calls : ι → ServiceCall) :
    ι → Prog Effect Reply (Except ErrorData ToolResult) :=
  fun i => ((calls i).run svc (chrono i)).run

abbrev Disciplined (svc : CardDavMcpService) (calls : ι → ServiceCall)
    (log : List (Act W ι Effect Reply))
    (s : W × (ι → Prog Effect Reply (Except ErrorData ToolResult))) : Prop :=
  Sound (fun i => contract svc (calls i)) (fun i => Ends svc (calls i)) (fun _ => True) log s

theorem disciplined (h : Run (poolStep world) (start, pool svc chrono calls) log s) :
    Disciplined svc calls log s :=
  pool_sound (fun _ _ _ _ _ _ _ _ _ => ⟨trivial, trivial⟩) trivial
    (fun i => ends_run (chrono i) (calls i)) h

theorem Sound.guar_of (h : Disciplined svc calls (a ++ ev :: b) s) :
    (contract svc (calls ev.call)).guar (traceOf ev.call a) ev.effect := (h.acts a ev b rfl).1

theorem traceOf_split (a b : List (Act W ι Effect Reply)) (ev : Act W ι Effect Reply) :
    traceOf ev.call (a ++ ev :: b) = traceOf ev.call a ++ ev.event :: traceOf ev.call b := by
  rw [List.append_cons, traceOf_append, traceOf_append, traceOf_self, List.append_assoc,
    List.singleton_append]

/-- Once the bearer was rejected, the call only asks to forget it. -/
theorem effect_of_ousted {call : ServiceCall} {tr : Trace Effect Reply} {e : Effect}
    (hguar : (contract svc call).guar tr e) (hphase : phaseOf tr = .ousted) :
    ∃ token, call.ctx.token = some token ∧
      (e = .discoveryRemove (svc.carddav.hashToken token) ∨ e = .dropToken token) := by
  cases e with
  | rateLimitCheck => rw [hguar.1] at hphase; cases hphase
  | send | discoveryLookup | discoveryInsert => rw [hguar.1] at hphase; cases hphase
  | fillBytes => rw [hguar] at hphase; cases hphase
  | discoveryRemove key =>
    obtain ⟨-, token, htoken, rfl⟩ := hguar
    exact ⟨token, htoken, .inl rfl⟩
  | dropToken token => exact ⟨token, hguar.2, .inr rfl⟩

/-- The server rejected the bearer of this request. -/
def Rejection (ev : Act W ι Effect Reply) : Prop :=
  ∃ request reply, ev.event = ⟨.send request, reply⟩ ∧ CardDavClient.Rejects reply

/-- The limiter refused this charge. -/
def Refusal (ev : Act W ι Effect Reply) : Prop :=
  ∃ bearerHash sub category e, ev.event = ⟨.rateLimitCheck bearerHash sub category, .error e⟩

theorem Rejection.ousted (h : Disciplined svc calls (a ++ ev :: b) s) (hev : Rejection ev)
    (rest : List (Act W ι Effect Reply)) :
    phaseOf (traceOf ev.call (a ++ ev :: rest)) = .ousted := by
  obtain ⟨request, reply, hevent, hrejects⟩ := hev
  have hguar := Sound.guar_of h
  have heffect : ev.effect = .send request := congrArg Sigma.fst hevent
  rw [heffect] at hguar
  rw [traceOf_split, phaseOf_append, hguar.1, List.foldl_cons, hevent, next_live_send,
    if_pos hrejects, foldl_ousted]

theorem Refusal.refused (h : Disciplined svc calls (a ++ ev :: b) s) (hev : Refusal ev)
    (rest : List (Act W ι Effect Reply)) :
    phaseOf (traceOf ev.call (a ++ ev :: rest)) = .refused := by
  obtain ⟨bearerHash, sub, category, e, hevent⟩ := hev
  have hguar := Sound.guar_of h
  have heffect : ev.effect = .rateLimitCheck bearerHash sub category := congrArg Sigma.fst hevent
  rw [heffect] at hguar
  have hstays (tr : Trace Effect Reply) : tr.foldl Phase.next .refused = .refused := by
    induction tr with
    | nil => rfl
    | cons x tr ih => rwa [List.foldl_cons, next_refused]
  rw [traceOf_split, hguar.1, hevent]
  exact hstays _

/-- The bearer is forgotten only after it was rejected. -/
theorem ousted_of_mem {i : ι} {e : Effect} {r : Reply e} (h : Disciplined svc calls (a ++ b) s)
    (hmem : ⟨e, r⟩ ∈ traceOf i a)
    (he : (∃ key, e = .discoveryRemove key) ∨ ∃ token, e = .dropToken token) :
    phaseOf (traceOf i a) = .ousted := by
  obtain ⟨x, hx, rfl, hevent⟩ := exists_of_traceOf hmem
  obtain ⟨a₁, a₂, rfl⟩ := List.append_of_mem hx
  rw [List.append_assoc] at h
  have hguar := Sound.guar_of h
  have heffect : x.effect = e := (congrArg Sigma.fst hevent).symm
  have hphase : phaseOf (traceOf x.call a₁) = .ousted := by
    rw [heffect] at hguar
    obtain ⟨key, rfl⟩ | ⟨token, rfl⟩ := he
    · exact hguar.1
    · exact hguar.1
  rw [traceOf_split, phaseOf_append, hphase, foldl_ousted]

/-- A call whose bearer was rejected sends nothing more, and when it returns it
has made both caches forget the bearer and says that the session has expired. -/
theorem rejected_bearer_forgotten
    (h : Run (poolStep world) (start, pool svc chrono calls) (a ++ ev :: b) s)
    (hev : Rejection ev) :
    ∃ token, (calls ev.call).ctx.token = some token ∧
      (∀ x ∈ b, x.call = ev.call →
        x.effect = .discoveryRemove (svc.carddav.hashToken token) ∨ x.effect = .dropToken token) ∧
      ∀ result, s.2 ev.call = .done result →
        result = .error ⟨AUTH_EXPIRED_CODE, SESSION_EXPIRED⟩ ∧
        (∃ x ∈ b, x.call = ev.call ∧
          x.effect = .discoveryRemove (svc.carddav.hashToken token)) ∧
        ∃ x ∈ b, x.call = ev.call ∧ x.effect = .dropToken token := by
  have hsound := disciplined h
  have hguar := Sound.guar_of hsound
  obtain ⟨request, reply, hevent, -⟩ := id hev
  have heffect : ev.effect = .send request := congrArg Sigma.fst hevent
  rw [heffect] at hguar
  obtain ⟨hlive, -, token, htoken, -⟩ := hguar
  refine ⟨token, htoken, fun x hx hcall => ?_, fun result hdone => ?_⟩
  · obtain ⟨b₁, b₂, rfl⟩ := List.append_of_mem hx
    have hphase := hev.ousted hsound b₁
    rw [← List.cons_append, ← List.append_assoc] at hsound
    have hx := Sound.guar_of hsound
    rw [hcall] at hx
    obtain ⟨token', htoken', hforget⟩ := effect_of_ousted hx hphase
    obtain rfl : token = token' := Option.some.inj (htoken.symm.trans htoken')
    exact hforget
  · have hends := hsound.returned hdone
    cases result with
    | ok r => exact absurd hends (by rw [Ends, hev.ousted hsound b]; simp)
    | error e =>
      rw [Ends, hev.ousted hsound b] at hends
      obtain ⟨rfl, token', htoken', hremove, hdrop⟩ := hends
      obtain rfl : token = token' := Option.some.inj (htoken.symm.trans htoken')
      have hlater {e : Effect} {r : Reply e}
          (hmem : ⟨e, r⟩ ∈ traceOf ev.call (a ++ ev :: b))
          (he : (∃ key, e = .discoveryRemove key) ∨ ∃ token, e = .dropToken token) :
          ∃ x ∈ b, x.call = ev.call ∧ x.effect = e := by
        rw [traceOf_split, List.mem_append, List.mem_cons] at hmem
        obtain hmem | heq | hmem := hmem
        · have := ousted_of_mem hsound hmem he
          rw [hlive] at this
          cases this
        · have heq := (congrArg Sigma.fst heq).trans heffect
          rcases he with ⟨_, rfl⟩ | ⟨_, rfl⟩ <;> cases heq
        · obtain ⟨x, hx, hcall, hevent⟩ := exists_of_traceOf hmem
          exact ⟨x, hx, hcall, (congrArg Sigma.fst hevent).symm⟩
      exact ⟨rfl, hlater hremove (.inl ⟨_, rfl⟩), hlater hdrop (.inr ⟨_, rfl⟩)⟩

theorem refused_of_phase {tr : Trace Effect Reply} (h : phaseOf tr = .refused) :
    ∃ bearerHash sub category e, ⟨.rateLimitCheck bearerHash sub category, .error e⟩ ∈ tr := by
  induction tr using List.reverseRecOn with
  | nil => simp at h
  | append_singleton tr x ih =>
    rw [phaseOf_snoc] at h
    obtain ⟨e, r⟩ := x
    cases hphase : phaseOf tr with
    | fresh =>
      rw [hphase] at h
      cases e with
      | rateLimitCheck bearerHash sub category =>
        cases r with
        | ok u => simp [Phase.next] at h
        | error e => exact ⟨bearerHash, sub, category, e, by simp⟩
      | _ => simp [Phase.next] at h
    | refused =>
      obtain ⟨bearerHash, sub, category, e, hmem⟩ := ih hphase
      exact ⟨bearerHash, sub, category, e, List.mem_append_left _ hmem⟩
    | live =>
      rw [hphase] at h
      cases e with
      | send request =>
        rw [next_live_send] at h
        split_ifs at h
      | _ => simp [Phase.next] at h
    | ousted => simp [hphase] at h

/-- A call that got on was charged, and the charge was its own. -/
theorem exists_charge {i : ι} (h : Disciplined svc calls (a ++ b) s)
    (hphase : phaseOf (traceOf i a) = .live ∨ phaseOf (traceOf i a) = .ousted) :
    ∃ check ∈ a, check.call = i ∧ OwnCheck svc (calls i) check.effect ∧ ¬ Refusal check := by
  obtain ⟨bearerHash, sub, category, hmem⟩ := charged_of_phase hphase
  obtain ⟨check, hcheck, rfl, hevent⟩ := exists_of_traceOf hmem
  obtain ⟨a₁, a₂, rfl⟩ := List.append_of_mem hcheck
  rw [List.append_assoc] at h
  have hguar := Sound.guar_of h
  have heffect : check.effect = .rateLimitCheck bearerHash sub category :=
    (congrArg Sigma.fst hevent).symm
  refine ⟨check, hcheck, rfl, ?_, ?_⟩
  · rw [heffect] at hguar ⊢
    exact hguar.2
  · rintro ⟨_, _, _, e, he⟩
    rw [← hevent] at he
    cases he

/-- A server that rejects every bearer, with room in the limiter and nothing
cached. -/
def turnedAway : ∀ e : Effect, Reply e
  | .send _ => .ok { status := 401 }
  | e => sampleReply e

def sampleChrono : Unit → Chrono := fun _ => UpcomingBirthdays.sampleChrono
def sampleCalls : Unit → ServiceCall := fun _ => ⟨sampleContext, .whoami⟩

abbrev samplePool : Unit → Prog Effect Reply (Except ErrorData ToolResult) :=
  pool plainService sampleChrono sampleCalls

def samplePlay : List (Act Unit Unit Effect Reply) × Unit × Except ErrorData ToolResult :=
  playedAlone (fun _ e => (turnedAway e, ())) () () (samplePool ())

def sampleLog : List (Act Unit Unit Effect Reply) := samplePlay.1
def sampleResult : Except ErrorData ToolResult := samplePlay.2.2

def sampleEnd : Unit × (Unit → Prog Effect Reply (Except ErrorData ToolResult)) :=
  ((), Function.update samplePool () (.done sampleResult))

theorem sample_run :
    Run (poolStep fun _ _ _ _ => True) ((), samplePool) sampleLog sampleEnd :=
  run_playedAlone (fun _ _ => trivial) () () samplePool

theorem sample_done (i : Unit) : sampleEnd.2 i = .done sampleResult := rfl

theorem sample_rejection : ∃ a ev b, sampleLog = a ++ ev :: b ∧ Rejection ev := by
  have hphase : phaseOf (traceOf () sampleLog) = .ousted := rfl
  obtain ⟨request, reply, hmem, hrejects⟩ := rejected_of_ousted hphase
  obtain ⟨ev, hev, -, hevent⟩ := exists_of_traceOf hmem
  obtain ⟨a, b, hlog⟩ := List.append_of_mem hev
  exact ⟨a, ev, b, hlog, request, reply, hevent.symm, hrejects⟩

theorem rejected_bearer_forgotten_sample : ∃ a ev b, sampleLog = a ++ ev :: b ∧ Rejection ev ∧
    sampleResult = .error ⟨AUTH_EXPIRED_CODE, SESSION_EXPIRED⟩ ∧
    ∃ x ∈ b, x.effect = .dropToken "t".toList := by
  obtain ⟨a, ev, b, hlog, hev⟩ := sample_rejection
  have hrun := sample_run
  rw [hlog] at hrun
  obtain ⟨token, htoken, -, hreturned⟩ := rejected_bearer_forgotten hrun hev
  obtain ⟨hresult, -, x, hx, -, hdrop⟩ := hreturned _ (sample_done _)
  obtain rfl : "t".toList = token := Option.some.inj htoken
  exact ⟨a, ev, b, hlog, hev, hresult, x, hx, hdrop⟩

/-- What a call returns tells what became of it. -/
structure Tells (svc : CardDavMcpService) (calls : ι → ServiceCall)
    (log : List (Act W ι Effect Reply)) (i : ι) (result : Except ErrorData ToolResult) : Prop where
  rejected : (∃ e, result = .error e ∧ e.code = AUTH_EXPIRED_CODE) ↔
    ∃ ev ∈ log, ev.call = i ∧ Rejection ev
  refused : (∃ e, result = .error e ∧ e.code = RATE_LIMITED_CODE) ↔
    ∃ ev ∈ log, ev.call = i ∧ Refusal ev
  /-- A success was charged for. -/
  charged : ∀ a, result = .ok a → ∃ ev ∈ log, ev.call = i ∧
    OwnCheck svc (calls i) ev.effect ∧ ¬ Refusal ev

theorem result_tells (h : Run (poolStep world) (start, pool svc chrono calls) log s) {i : ι}
    {result : Except ErrorData ToolResult} (hdone : s.2 i = .done result) :
    Tells svc calls log i result := by
  have hsound := disciplined h
  have hends := hsound.returned hdone
  have hrejection (hphase : phaseOf (traceOf i log) = .ousted) :
      ∃ ev ∈ log, ev.call = i ∧ Rejection ev := by
    obtain ⟨request, reply, hmem, hrejects⟩ := rejected_of_ousted hphase
    obtain ⟨ev, hev, hcall, hevent⟩ := exists_of_traceOf hmem
    exact ⟨ev, hev, hcall, request, reply, hevent.symm, hrejects⟩
  have hrefusal (hphase : phaseOf (traceOf i log) = .refused) :
      ∃ ev ∈ log, ev.call = i ∧ Refusal ev := by
    obtain ⟨bearerHash, sub, category, e, hmem⟩ := refused_of_phase hphase
    obtain ⟨ev, hev, hcall, hevent⟩ := exists_of_traceOf hmem
    exact ⟨ev, hev, hcall, bearerHash, sub, category, e, hevent.symm⟩
  have housted {ev : Act W ι Effect Reply} (hev : ev ∈ log) (hrej : Rejection ev) :
      phaseOf (traceOf ev.call log) = .ousted := by
    obtain ⟨a, b, rfl⟩ := List.append_of_mem hev
    exact hrej.ousted hsound b
  have hrefused {ev : Act W ι Effect Reply} (hev : ev ∈ log) (href : Refusal ev) :
      phaseOf (traceOf ev.call log) = .refused := by
    obtain ⟨a, b, rfl⟩ := List.append_of_mem hev
    exact href.refused hsound b
  refine ⟨⟨?_, ?_⟩, ⟨?_, ?_⟩, ?_⟩
  · rintro ⟨e, rfl, hcode⟩
    rw [Ends] at hends
    cases hphase : phaseOf (traceOf i log) with
    | fresh | live =>
      rw [hphase] at hends
      exact absurd hcode hends.code_ne.1
    | refused =>
      rw [hphase] at hends
      subst hends
      exact absurd hcode (by decide)
    | ousted => exact hrejection hphase
  · rintro ⟨ev, hev, rfl, hrej⟩
    cases result with
    | ok a => exact absurd hends (by rw [Ends, housted hev hrej]; simp)
    | error e =>
      rw [Ends, housted hev hrej] at hends
      exact ⟨e, rfl, by rw [hends.1]⟩
  · rintro ⟨e, rfl, hcode⟩
    rw [Ends] at hends
    cases hphase : phaseOf (traceOf i log) with
    | fresh | live =>
      rw [hphase] at hends
      exact absurd hcode hends.code_ne.2
    | refused => exact hrefusal hphase
    | ousted =>
      rw [hphase] at hends
      rw [hends.1] at hcode
      exact absurd hcode (by decide)
  · rintro ⟨ev, hev, rfl, href⟩
    cases result with
    | ok a => exact absurd hends (by rw [Ends, hrefused hev href]; simp)
    | error e =>
      rw [Ends, hrefused hev href] at hends
      exact ⟨e, rfl, by rw [hends]; rfl⟩
  · rintro r rfl
    rw [← List.append_nil log] at hsound
    exact exists_charge hsound (.inl hends)

theorem result_tells_sample :
    Tells plainService sampleCalls sampleLog () sampleResult ∧ ∃ ev ∈ sampleLog, Rejection ev := by
  obtain ⟨a, ev, b, hlog, hev⟩ := sample_rejection
  exact ⟨result_tells sample_run (sample_done ()), ev, by simp [hlog], hev⟩

/-- The first effect of a call is its own charge; any other comes after it was
allowed. -/
def ChargedFirst (svc : CardDavMcpService) (calls : ι → ServiceCall)
    (before : List (Act W ι Effect Reply)) (ev : Act W ι Effect Reply) : Prop :=
  (traceOf ev.call before = [] ∧ OwnCheck svc (calls ev.call) ev.effect) ∨
    ∃ check ∈ before, check.call = ev.call ∧ OwnCheck svc (calls ev.call) check.effect ∧
      ¬ Refusal check ∧ ∀ bearerHash sub category,
        ev.effect ≠ .rateLimitCheck bearerHash sub category

theorem charged_first
    (h : Run (poolStep world) (start, pool svc chrono calls) (a ++ ev :: b) s) :
    ChargedFirst svc calls a ev := by
  have hsound := disciplined h
  have hguar := Sound.guar_of hsound
  have hcharged (hphase : phaseOf (traceOf ev.call a) = .live ∨
      phaseOf (traceOf ev.call a) = .ousted)
      (hother : ∀ bearerHash sub category, ev.effect ≠ .rateLimitCheck bearerHash sub category) :
      ∃ check ∈ a, check.call = ev.call ∧ OwnCheck svc (calls ev.call) check.effect ∧
        ¬ Refusal check ∧ ∀ bearerHash sub category,
          ev.effect ≠ .rateLimitCheck bearerHash sub category := by
    obtain ⟨check, hmem, hcall, hown, hrefusal⟩ := exists_charge hsound hphase
    exact ⟨check, hmem, hcall, hown, hrefusal, hother⟩
  rw [ChargedFirst]
  cases he : ev.effect with
  | rateLimitCheck bearerHash sub category =>
    rw [he] at hguar
    exact .inl hguar
  | send | discoveryLookup | discoveryInsert =>
    rw [he] at hguar hcharged
    exact .inr (hcharged (.inl hguar.1) (by simp))
  | fillBytes =>
    rw [he] at hguar hcharged
    exact .inr (hcharged (.inl hguar) (by simp))
  | discoveryRemove | dropToken =>
    rw [he] at hguar hcharged
    exact .inr (hcharged (.inr hguar.1) (by simp))

/-- What a call does in any run: it is charged once and first, and then only
for itself. -/
structure OwnBusiness (svc : CardDavMcpService) (calls : ι → ServiceCall)
    (before : List (Act W ι Effect Reply)) (ev : Act W ι Effect Reply) : Prop where
  charged : ChargedFirst svc calls before ev
  /-- Every request carries the bearer of the call in its one authorization header. -/
  bears : ∀ request, ev.effect = .send request →
    ∃ token, (calls ev.call).ctx.token = some token ∧ Bears token request
  /-- A tool that is annotated as read-only asks for listings only. -/
  readOnly : ∀ request, ev.effect = .send request → (calls ev.call).request.readOnlyHint →
    request.method = .propfind ∨ request.method = .report
  /-- It touches no entry of the discovery cache but its bearer's. -/
  keys : ∀ key, (ev.effect = .discoveryLookup key ∨ (∃ d, ev.effect = .discoveryInsert key d) ∨
    ev.effect = .discoveryRemove key) → OwnKey svc (calls ev.call) key

theorem methodsOf_readOnly {request : ToolRequest} (h : request.readOnlyHint) {m : Method}
    (hm : m ∈ methodsOf request) : m = .propfind ∨ m = .report := by
  cases request <;> simp_all [methodsOf, ToolRequest.readOnlyHint]

theorem calls_mind_own_business
    (h : Run (poolStep world) (start, pool svc chrono calls) (a ++ ev :: b) s) :
    OwnBusiness svc calls a ev := by
  have hguar := Sound.guar_of (disciplined h)
  refine ⟨charged_first h, fun request he => ?_, fun request he hhint => ?_, fun key he => ?_⟩
  · rw [he] at hguar
    exact hguar.2.2
  · rw [he] at hguar
    exact methodsOf_readOnly hhint hguar.2.1
  · obtain he | ⟨d, he⟩ | he := he
    · rw [he] at hguar
      exact hguar.2
    · rw [he] at hguar
      obtain ⟨-, token, htoken, hkey, -⟩ := hguar
      exact ⟨token, htoken, hkey⟩
    · rw [he] at hguar
      exact hguar.2

theorem calls_mind_own_business_sample : ∃ a ev b, sampleLog = a ++ ev :: b ∧ Rejection ev ∧
    OwnBusiness plainService sampleCalls a ev := by
  obtain ⟨a, ev, b, hlog, hev⟩ := sample_rejection
  have hrun := sample_run
  rw [hlog] at hrun
  exact ⟨a, ev, b, hlog, hev, calls_mind_own_business hrun⟩

end Pool

end CardDavMcp.CallRuns
