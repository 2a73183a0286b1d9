import CardDavMcp.CallRuns
import CardDavMcp.WriteContract

namespace CardDavMcp.ServerLoad

open Library.Utf8Text Library.Interaction Library.Runs ToolError RateLimit DavClient ContactTools
  ReadTools UpcomingBirthdays ServiceCalls CallDiscipline CallRuns
open WriteContract (IsWrite NoWrite mem_sendsOf event_send)

/-- The key under which a call is charged. -/
def chargedAs (svc : CardDavMcpService) (ctx : RequestContext) : Identity → Option Text
  | .bearer => ctx.token.map svc.tokenHash
  | .sub => ctx.identity.map LogtoOidc.AuthenticatedIdentity.userId

/-- The key that a charge names. -/
def named (bearerHash : Text) (sub : Option Text) : Identity → Option Text
  | .bearer => some bearerHash
  | .sub => sub

/-- A charge to this key that the limiter allowed. -/
def admits (id : Identity) (key : Text) (category : Category) : (e : Effect) × Reply e → Bool
  | ⟨.rateLimitCheck bearerHash sub category', .ok ()⟩ =>
    named bearerHash sub id = some key ∧ category' = category
  | _ => false

/-- A request that changes a card. -/
def writes : Effect → Bool
  | .send request => request.method = .put ∨ request.method = .delete
  | _ => false

theorem exists_of_writes {e : Effect} (h : writes e) : ∃ request, e = .send request ∧
    IsWrite request := by
  cases e with
  | send request =>
    rw [writes, decide_eq_true_eq] at h
    exact ⟨request, rfl, h⟩
  | _ => cases h

/-- A call writes once at most. -/
def once : Contract Effect Reply where
  guar tr e := ∀ request, e = .send request → IsWrite request → NoWrite tr
  rely _ _ := True

theorem always_once (svc : CardDavMcpService) (chrono : Chrono) (call : ServiceCall) :
    Always once (fun _ _ => True) [] (call.run svc chrono).run := by
  have hwrite {α : Type} {p : Tool α} {k : α → Tool ToolResult} {tool : WriteContract.ToolCall}
      (h : Always (WriteContract.contract svc tool) WriteContract.Settled [] p.run)
      (hk : ∀ tr a, Always once (fun _ _ => True) tr (k a).run) :
      Always once (fun _ _ => True) [] (p >>= k).run := by
    have hp : Always once WriteContract.Settled [] p.run :=
      h.weaken (fun tr e hguar request he _ => (hguar request he).noWrite) fun _ _ _ => trivial
    refine always_tryBind.mpr (hp.mono fun tr result _ => ?_)
    cases result with
    | ok a => exact hk tr a
    | error e => trivial
  have hreads (hread : ∀ m ∈ methodsOf call.request, m ≠ .put ∧ m ≠ .delete) :
      Always once (fun _ _ => True) [] (call.run svc chrono).run :=
    always_of_methods chrono call fun tr e hmethods request he hput =>
      absurd hput (not_or.mpr (hread _ (hmethods request he)))
  obtain ⟨ctx, request⟩ := call
  cases request with
  | createContact params => exact hwrite WriteContract.always_create fun _ _ => trivial
  | updateContact params => exact hwrite WriteContract.always_update fun _ _ => trivial
  | deleteContact params => exact hwrite WriteContract.always_delete fun _ _ => trivial
  | _ => exact hreads (by simp [methodsOf])

theorem category_of_write {request : ToolRequest} {m : Method} (h : m ∈ methodsOf request)
    (hm : m = .put ∨ m = .delete) : request.category = .write := by
  cases request with
  | createContact | updateContact | deleteContact => rfl
  | _ => rcases hm with rfl | rfl <;> simp [methodsOf] at h

section Pool

variable {W ι : Type} [DecidableEq ι] {svc : CardDavMcpService} {chrono : ι → Chrono}
  {calls : ι → ServiceCall} {world : W → (e : Effect) → Reply e → W → Prop} {start : W}
  {log a b rest : List (Act W ι Effect Reply)} {ev x : Act W ι Effect Reply}
  {s : W × (ι → Prog Effect Reply (Except ErrorData ToolResult))} {id : Identity} {key : Text}
  {category : Category}

omit [DecidableEq ι] in
theorem admits_of_own (hown : OwnCheck svc (calls ev.call) ev.effect) (hallowed : ¬ Refusal ev)
    (hkey : chargedAs svc (calls ev.call).ctx id = some key) :
    admits id key (calls ev.call).request.category ev.event := by
  obtain ⟨token, identity, htoken, hidentity, he⟩ := hown
  have hnamed : named (svc.tokenHash token) (some identity.userId) id = some key := by
    cases id with
    | bearer => rwa [chargedAs, htoken] at hkey
    | sub => rwa [chargedAs, hidentity] at hkey
  clear htoken hidentity hkey
  generalize (calls ev.call).request.category = category at he ⊢
  obtain ⟨call, effect, reply, before, after⟩ := ev
  obtain rfl := he
  cases reply with
  | error e => exact absurd ⟨_, _, _, e, rfl⟩ hallowed
  | ok u => exact decide_eq_true ⟨hnamed, rfl⟩

/-- A charge is the first thing that a call does. -/
theorem charge_first (h : Run (poolStep world) (start, pool svc chrono calls) (a ++ ev :: b) s)
    (hev : OwnCheck svc (calls ev.call) ev.effect) : ∀ x ∈ a, x.call ≠ ev.call := by
  intro x hx hcall
  obtain ⟨_, _, -, -, he⟩ := hev
  obtain ⟨hnil, -⟩ | ⟨_, -, -, -, -, hother⟩ := charged_first h
  · have hevent : x.event ∈ traceOf ev.call a := hcall ▸ mem_traceOf hx
    rw [hnil] at hevent
    cases hevent
  · exact absurd he (hother _ _ _)

/-- Before a request comes a charge of its call that was allowed. -/
theorem charge_of_send (h : Run (poolStep world) (start, pool svc chrono calls) log s)
    (hev : ev ∈ log) {request : DavRequest} (he : ev.effect = .send request) :
    ∃ check ∈ log, check.call = ev.call ∧ OwnCheck svc (calls check.call) check.effect ∧
      ¬ Refusal check := by
  obtain ⟨a, b, rfl⟩ := List.append_of_mem hev
  obtain ⟨-, _, _, -, -, hcheck⟩ | ⟨check, hmem, hcall, hown, hallowed, -⟩ := charged_first h
  · rw [he] at hcheck
    cases hcheck
  · exact ⟨check, List.mem_append_left _ hmem, hcall, hcall ▸ hown, hallowed⟩

/-- A call under this key that begins in a stretch of a run and sends a request
to the server. -/
structure Reaches (svc : CardDavMcpService) (calls : ι → ServiceCall) (id : Identity) (key : Text)
    (category : Category) (a b rest : List (Act W ι Effect Reply)) (i : ι) : Prop where
  charged : chargedAs svc (calls i).ctx id = some key
  category : (calls i).request.category = category
  begins : (∀ x ∈ a, x.call ≠ i) ∧ ∃ x ∈ b, x.call = i
  sends : ∃ x ∈ a ++ b ++ rest, x.call = i ∧ ∃ request, x.effect = .send request

theorem Reaches.admitted
    (h : Run (poolStep world) (start, pool svc chrono calls) (a ++ b ++ rest) s) {i : ι}
    (hi : Reaches svc calls id key category a b rest i) :
    ∃ ev ∈ b, ev.call = i ∧ admits id key category ev.event := by
  obtain ⟨hkey, rfl, ⟨hfirst, y, hy, hycall⟩, x, hx, rfl, request, hsend⟩ := hi
  obtain ⟨check, hcheck, hcall, hown, hallowed⟩ := charge_of_send h hx hsend
  have hb : check ∈ b := by
    rw [List.mem_append, List.mem_append] at hcheck
    obtain (ha | hb) | hrest := hcheck
    · exact absurd hcall (hfirst check ha)
    · exact hb
    · -- the call began in the stretch, and with its charge
      obtain ⟨r, r', rfl⟩ := List.append_of_mem hrest
      rw [← List.append_assoc] at h
      exact absurd (hycall.trans hcall.symm) (charge_first h hown y (by simp [hy]))
  refine ⟨check, hb, hcall, ?_⟩
  rw [← hcall] at hkey ⊢
  exact admits_of_own hown hallowed hkey

/-- Whatever the limiter lets through, the calls of a subject or of a bearer that
begin in a stretch of a run and reach the server are no more than the charges
that were allowed to it there. -/
theorem server_load_bounded
    (h : Run (poolStep world) (start, pool svc chrono calls) (a ++ b ++ rest) s) {is : Finset ι}
    (his : ∀ i ∈ is, Reaches svc calls id key category a b rest i) :
    is.card ≤ b.countP fun ev => admits id key category ev.event :=
  card_le_countP fun i hi => (his i hi).admitted h

theorem write_once (h : Run (poolStep world) (start, pool svc chrono calls) log s) :
    log.Pairwise fun x y => writes x.effect → writes y.effect → x.call ≠ y.call := by
  have hsound : Sound (fun _ => once) (fun _ _ _ => True) (fun _ => True) log s :=
    pool_sound (fun _ _ _ _ _ _ _ _ _ => ⟨trivial, trivial⟩) trivial
      (fun i => always_once svc (chrono i) (calls i)) h
  refine pairwise_of_split fun before y after hlog x hx hwx hwy hcall => ?_
  obtain ⟨request, he, hwrite⟩ := exists_of_writes hwx
  obtain ⟨request', he', hwrite'⟩ := exists_of_writes hwy
  obtain ⟨reply, hevent⟩ := event_send he
  have hquiet := (hsound.acts before y after hlog).1 request' he' hwrite'
  exact hquiet _ (hcall ▸ mem_sendsOf hx hevent) hwrite

/-- A request of this key's that changes a card. -/
def writesFor (svc : CardDavMcpService) (calls : ι → ServiceCall) (id : Identity) (key : Text)
    (ev : Act W ι Effect Reply) : Bool :=
  writes ev.effect ∧ chargedAs svc (calls ev.call).ctx id = some key

theorem writes_le (h : Run (poolStep world) (start, pool svc chrono calls) log s)
    (id : Identity) (key : Text) : log.countP (writesFor svc calls id key) ≤
      log.countP fun ev => admits id key .write ev.event := by
  have hnodup : ((log.filter (writesFor svc calls id key)).map Act.call).Nodup := by
    rw [List.Nodup, List.pairwise_map]
    refine (write_once h).filter _ |>.imp_of_mem fun hx hy hne => ?_
    have hx := (of_decide_eq_true (List.mem_filter.mp hx).2).1
    have hy := (of_decide_eq_true (List.mem_filter.mp hy).2).1
    exact hne hx hy
  rw [List.countP_eq_length_filter, ← List.length_map Act.call,
    ← List.toFinset_card_of_nodup hnodup]
  refine card_le_countP fun i hi => ?_
  obtain ⟨ev, hev, rfl⟩ := List.mem_map.mp (List.mem_toFinset.mp hi)
  obtain ⟨hmem, hwrites⟩ := List.mem_filter.mp hev
  obtain ⟨hwrite, hkey⟩ := of_decide_eq_true hwrites
  obtain ⟨request, he, hmethod⟩ := exists_of_writes hwrite
  obtain ⟨check, hcheck, hcall, hown, hallowed⟩ := charge_of_send h hmem he
  refine ⟨check, hcheck, hcall, ?_⟩
  have hguar : request.method ∈ methodsOf (calls ev.call).request := by
    obtain ⟨before, after, rfl⟩ := List.append_of_mem hmem
    have hguar := Sound.guar_of (disciplined h)
    rw [he] at hguar
    exact hguar.2.1
  rw [← hcall] at hkey hguar
  rw [← category_of_write hguar hmethod]
  exact admits_of_own hown hallowed hkey

/-- No call writes twice, and the cards of the server are changed no more often
on behalf of a subject or of a bearer than the limiter has allowed to it. -/
theorem writes_bounded (h : Run (poolStep world) (start, pool svc chrono calls) log s) :
    (log.Pairwise fun x y => writes x.effect → writes y.effect → x.call ≠ y.call) ∧
    ∀ id key, log.countP (writesFor svc calls id key) ≤
      log.countP fun ev => admits id key .write ev.event :=
  ⟨write_once h, writes_le h⟩

end Pool

theorem sample_reaches :
    Reaches plainService sampleCalls .sub "u".toList .read [] sampleLog [] () := by
  obtain ⟨a, ev, b, hlog, request, reply, hevent, -⟩ := sample_rejection
  have hmem : ev ∈ sampleLog := by simp [hlog]
  exact ⟨rfl, rfl, ⟨by simp, ev, hmem, rfl⟩, ev, by simpa using hmem, rfl, request,
    congrArg Sigma.fst hevent⟩

theorem server_load_bounded_sample : ({()} : Finset Unit).card ≤
    sampleLog.countP fun ev => admits .sub "u".toList .read ev.event := by
  have hrun := sample_run
  rw [← List.append_nil sampleLog] at hrun
  exact server_load_bounded (a := []) hrun fun _ _ => sample_reaches

/-- A server that does what it is asked. -/
def obliging : ∀ e : Effect, Reply e
  | .send _ => .ok { status := 204 }
  | e => sampleReply e

abbrev deletions : Unit → Prog Effect Reply (Except ErrorData ToolResult) :=
  pool plainService sampleChrono fun _ =>
    ⟨sampleContext, .deleteContact ⟨"/b/u-1.vcf".toList, none⟩⟩

def deletion : List (Act Unit Unit Effect Reply) × Unit × Except ErrorData ToolResult :=
  playedAlone (fun _ e => (obliging e, ())) () () (deletions ())

theorem deletion_run : ∃ s, Run (poolStep fun _ _ _ _ => True) ((), deletions) deletion.1 s :=
  ⟨_, run_playedAlone (fun _ _ => trivial) () () deletions⟩

/-- One card is deleted, for one charge. -/
theorem writes_bounded_sample :
    1 ≤ deletion.1.countP fun ev => admits .sub "u".toList .write ev.event := by
  obtain ⟨s, hrun⟩ := deletion_run
  exact (writes_bounded hrun).2 .sub "u".toList

end CardDavMcp.ServerLoad
