import CardDavMcp.WriteContract

namespace CardDavMcp.LostUpdates

open Library.Utf8Text Library.Interaction Library.Runs ToolError Urls DavClient
    ContactTools DavServer
  WriteContract

section Run

variable {ρ ι : Type} [DecidableEq ρ] [DecidableEq ι] (locate : Url → ρ)

/-- The server answers requests, one at a time. Nothing else touches it. -/
inductive Answers : Server ρ → (e : Effect) → Reply e → Server ρ → Prop
  | send {s s' : Server ρ} {request : DavRequest} {reply : Except String RawResponse}
      (h : ServerStep locate s request reply s') : Answers s (.send request) reply s'
  | other {s : Server ρ} (e : Effect) (reply : Reply e) (he : ∀ request, e ≠ .send request) :
      Answers s e reply s

/-- A step that reads a version of a resource. -/
def Reads (ev : Act (Server ρ) ι Effect Reply) (r : ρ) (v : Version) : Prop :=
  ∃ request response, ev.event = ⟨.send request, .ok response⟩ ∧ request.method = .get ∧
    locate request.url = r ∧ response.status = 200 ∧ ev.before.files r = some v

variable {locate} {svc : CardDavMcpService} {calls : ι → ToolCall} {start : Server ρ}
  {log a b : List (Act (Server ρ) ι Effect Reply)} {ev : Act (Server ρ) ι Effect Reply}
  {pool : ι → Prog Effect Reply (Except ErrorData ToolResult)}
  {s : Server ρ × (ι → Prog Effect Reply (Except ErrorData ToolResult))} {r : ρ}

omit [DecidableEq ι] in
theorem Answers.unchanged {s s' : Server ρ} {e : Effect} {reply : Reply e}
    (h : Answers locate s e reply s')
    (he : ∀ request, e = .send request → ¬ IsWrite request) : s' = s := by
  cases h with
  | other => rfl
  | send h =>
    have hnot := he _ rfl
    cases h with
    | lost | read | refuse => rfl
    | put _ _ hput => exact absurd (.inl hput) hnot
    | delete _ _ hdelete => exact absurd (.inr hdelete) hnot

/-- What steps keep holds from one step of a run to a later one. -/
theorem stable_between (P : Server ρ → Prop) {ev' : Act (Server ρ) ι Effect Reply}
    {c : List (Act (Server ρ) ι Effect Reply)}
    (hP : ∀ s e reply s', P s → Answers locate s e reply s' → P s')
    (h : Run (poolStep (Answers locate)) (start, pool) (a ++ ev :: (b ++ ev' :: c)) s)
    (hev : P ev.after) : P ev'.before := by
  obtain ⟨t, t', -, ⟨-, hafter, -⟩, hrest⟩ := h.split
  obtain ⟨u, u', hbetween, ⟨hbefore, -⟩, -⟩ := hrest.split
  rw [hbefore]
  rw [hafter] at hev
  clear hbefore hrest h
  induction hbetween with
  | nil => exact hev
  | snoc _ hstep ih =>
    obtain ⟨-, -, hanswer, -⟩ := hstep
    exact hP _ _ _ _ ih hanswer

/-- Around its write, a call changes nothing else. -/
theorem write_alone (hkept : Kept svc calls (a ++ ev :: b) s)
    (h : Run (poolStep (Answers locate)) (start, pool) (a ++ ev :: b) s) {request : DavRequest}
    {reply : Except String RawResponse} (he : ev.event = ⟨.send request, reply⟩)
    (hwrite : IsWrite request) : ∀ e ∈ a ++ b, e.call = ev.call → e.after = e.before := by
  intro e hmem hcall
  have hsub : a ++ b ⊆ a ++ ev :: b := List.append_subset.mpr
    ⟨List.subset_append_left .., List.subset_append_of_subset_right _ (List.subset_cons_self ..)⟩
  apply (answered h (hsub hmem)).unchanged
  intro request' he' hwrite'
  obtain hmem | hmem := List.mem_append.mp hmem
  · obtain ⟨reply', hevent'⟩ := event_send he'
    have hsends := mem_sendsOf hmem hevent'
    rw [hcall] at hsends
    exact (permitted hkept (congrArg Sigma.fst he)).noWrite _ hsends hwrite'
  · exact not_sent_after hkept he hwrite hmem hcall he'

theorem Answers.named {s s' : Server ρ} {e : Effect} {reply : Reply e} {v : Version}
    (h : Answers locate s e reply s') (hv : Named s r v) : Named s' r v := by
  cases h with
  | send h => exact hv.step h
  | other => exact hv

theorem Answers.retired {s s' : Server ρ} {e : Effect} {reply : Reply e} {v : Version}
    (h : Answers locate s e reply s') (hv : Retired s r v) : Retired s' r v := by
  cases h with
  | send h => exact hv.step h
  | other => exact hv

theorem Answers.retires {s s' : Server ρ} {e : Effect} {reply : Reply e} {v : Version}
    (h : Answers locate s e reply s') (hv : s.files r = some v) (hgone : s'.files r ≠ some v) :
    Retired s' r v := by
  cases h with
  | send h => exact h.retires hv hgone
  | other => exact absurd hv hgone

/-- A version is overwritten or removed only once. -/
theorem retired_once {ev' : Act (Server ρ) ι Effect Reply}
    {c : List (Act (Server ρ) ι Effect Reply)}
    {v v' : Version}
    (h : Run (poolStep (Answers locate)) (start, pool) (a ++ ev :: (b ++ ev' :: c)) s)
    (hv : ev.before.files r = some v) (hgone : ev.after.files r ≠ some v)
    (hv' : ev'.before.files r = some v') : v'.etag ≠ v.etag := by
  have hretired : Retired ev'.before r v :=
    stable_between (fun s => Retired s r v) (fun _ _ _ _ hv hstep => hstep.retired hv) h
      ((answered h (by simp)).retires hv hgone)
  exact hretired.2 v' hv'

/-- What a read found still is what its tag names at a later step. -/
theorem read_still_names {ev' : Act (Server ρ) ι Effect Reply}
    {c : List (Act (Server ρ) ι Effect Reply)}
    {v v' : Version}
    (h : Run (poolStep (Answers locate)) (start, pool) (a ++ ev :: (b ++ ev' :: c)) s)
    (hread : Reads locate ev r v) (hv' : ev'.before.files r = some v') (htag : v'.etag = v.etag) :
    v' = v := by
  obtain ⟨_, _, -, -, -, -, hv⟩ := hread
  have hnamed : Named ev'.before r v :=
    stable_between (fun s => Named s r v) (fun _ _ _ _ hv hstep => hstep.named hv) h
      ((answered h (by simp)).named (.of_current hv))
  exact hnamed.2 v' hv' htag

theorem precondition_ifMatch {request : DavRequest} {value : Text} {tag : Option Text}
    (h : precondition request tag) (hheader : request.header "if-match" = some value) :
    ifMatch value tag := by
  rw [precondition, hheader, Bool.and_eq_true] at h
  exact h.1

theorem precondition_ifNoneMatch {request : DavRequest} {value : Text} {tag : Option Text}
    (h : precondition request tag) (hheader : request.header "if-none-match" = some value) :
    ifNoneMatch value tag := by
  rw [precondition, hheader, Bool.and_eq_true] at h
  exact h.2

theorem ifNoneMatch_star {tag : Text} : ifNoneMatch ['*'] (some tag) = false := by
  have htrim : trim ['*'] = ['*'] := by decide
  simp [ifNoneMatch, htrim]

/-- The read of an update, and the tag it found. -/
theorem read_found {i : ι} {get : DavRequest} {response : RawResponse}
    (h : Run (poolStep (Answers locate)) (start, pool) log s)
    (hmem : (get, .ok response) ∈ sendsOf (traceOf i a)) (hsub : a ⊆ log) (hget : get.method = .get)
    (hstatus : response.status = 200) :
    ∃ ev ∈ a, ev.call = i ∧ ∃ v, Reads locate ev (locate get.url) v ∧
    readEtag response = some v.etag ∧ isEntityTag v.etag := by
  obtain ⟨ev, hev, hcall, hevent⟩ := exists_of_sendsOf hmem
  refine ⟨ev, hev, hcall, ?_⟩
  have hanswer := answered h (hsub hev)
  obtain ⟨call, effect, reply, before, after⟩ := ev
  cases hevent
  cases hanswer with
  | other _ _ he => exact absurd rfl (he get)
  | send hstep =>
    obtain ⟨-, hserves⟩ := hstep.of_get hget
    obtain ⟨v, hv, hetag, -⟩ := hserves response rfl hstatus
    obtain ⟨-, htag, hvisible⟩ := before.current _ _ hv
    refine ⟨v, ⟨get, response, rfl, hget, rfl, hstatus, hv⟩, ?_, htag⟩
    rw [readEtag, hetag, Option.bind_some, headerToStr_bytes hvisible]

/-- A call changed one resource, after the steps given, and nothing else. -/
def Wrote (log past : List (Act (Server ρ) ι Effect Reply)) (i : ι) (r : ρ)
    (old new : Option Version) : Prop :=
  ∃ ev rest, log = past ++ ev :: rest ∧ ev.call = i ∧ ev.before.files r = old ∧
    ev.after.files r = new ∧ new ≠ old ∧ (∀ r' ≠ r, ev.after.files r' = ev.before.files r') ∧
    ∀ e ∈ past ++ rest, e.call = i → e.after = e.before

/-- What led to the success of a call. -/
theorem write_of_ok (hkept : Kept svc calls log s)
    (h : Run (poolStep (Answers locate)) (start, pool) log s) {i : ι} {result : ToolResult}
    (hok : s.2 i = .done (.ok result)) :
    ∃ past ev rest request reply, log = past ++ ev :: rest ∧ ev.call = i ∧
      ev.event = ⟨.send request, reply⟩ ∧ IsWrite request ∧ Confirmed reply ∧
      ServerStep locate ev.before request reply ev.after ∧
      Permitted svc (calls i) (sendsOf (traceOf i past)) request ∧
      ∀ e ∈ past ++ rest, e.call = i → e.after = e.before := by
  obtain ⟨request, reply, hmem, hwrite, hreply⟩ := hkept.returned hok
  obtain ⟨ev, hev, rfl, hevent⟩ := exists_of_sendsOf hmem
  obtain ⟨past, rest, rfl⟩ := List.append_of_mem hev
  have hanswer := answered h hev
  have hpermitted := permitted hkept (congrArg Sigma.fst hevent)
  have halone := write_alone hkept h hevent hwrite
  refine ⟨past, ev, rest, request, reply, rfl, rfl, hevent, hwrite, hreply, ?_, hpermitted, halone⟩
  obtain ⟨call, effect, reply', before, after⟩ := ev
  cases hevent
  cases hanswer with
  | other _ _ he => exact absurd rfl (he request)
  | send hstep => exact hstep

theorem created (hkept : Kept svc calls log s)
    (h : Run (poolStep (Answers locate)) (start, pool) log s)
    {i : ι} {ctx : RequestContext} {params : CreateContactParams}
    (hcall : calls i = .create ctx params)
    {result : ToolResult} (hok : s.2 i = .done (.ok result)) :
    ∃ past r new, Wrote log past i r none (some new) := by
  obtain ⟨past, ev, rest, request, reply, hlog, hi, -, -, hreply, hstep, hpermitted, halone⟩ :=
    write_of_ok hkept h hok
  rw [hcall] at hpermitted
  obtain ⟨-, hput, hheader⟩ := hpermitted
  obtain ⟨hpre, new, hnew, -⟩ := hstep.of_put hput hreply
  refine ⟨past, locate request.url, new, ev, rest, hlog, hi, ?_, hnew, Option.some_ne_none new,
    fun r' hr => hstep.frame hr, halone⟩
  cases hold : ev.before.files (locate request.url) with
  | none => rfl
  | some v =>
    rw [hold] at hpre
    have hnone := precondition_ifNoneMatch hpre hheader
    rw [Option.map_some, ifNoneMatch_star] at hnone
    cases hnone

theorem deleted_tag (hkept : Kept svc calls log s)
    (h : Run (poolStep (Answers locate)) (start, pool) log s)
    {i : ι} {ctx : RequestContext} {params : DeleteContactParams}
    (hcall : calls i = .delete ctx params)
    {tag : Text} (hetag : params.etag = some tag) (htag : isEntityTag tag) {result : ToolResult}
    (hok : s.2 i = .done (.ok result)) :
    ∃ past url old, svc.carddav.resolveHref params.contactHref = .ok url ∧ old.etag = tag ∧
      Wrote log past i (locate url) (some old) none := by
  obtain ⟨past, ev, rest, request, reply, hlog, hi, -, -, hreply, hstep, hpermitted, halone⟩ :=
    write_of_ok hkept h hok
  rw [hcall] at hpermitted
  obtain ⟨hresolve, -, hdelete, hheader⟩ := hpermitted
  obtain ⟨old, hold, hpre, hgone⟩ := hstep.of_delete hdelete hreply
  rw [hetag] at hheader
  have hv := ifMatch_single htag (precondition_ifMatch hpre hheader)
  exact ⟨past, request.url, old, hresolve, hv, ev, rest, hlog, hi, hold, hgone,
    (Option.some_ne_none old).symm, fun r' hr => hstep.frame hr, halone⟩

omit [DecidableEq ρ] [DecidableEq ι] in
theorem Reads.unique {r' : ρ} {v v' : Version} (h : Reads locate ev r v)
    (h' : Reads locate ev r' v') :
    r' = r ∧ v' = v := by
  obtain ⟨request, response, he, -, rfl, -, hv⟩ := h
  obtain ⟨request', response', he', -, rfl, -, hv'⟩ := h'
  rw [he'] at he
  cases he
  rw [hv, Option.some.injEq] at hv'
  exact ⟨rfl, hv'.symm⟩

omit [DecidableEq ρ] in
theorem sent_once {i : ι} {x : Sent} (h : sendsOf (traceOf i log) = [x])
    {e e' : Act (Server ρ) ι Effect Reply} {request request' : DavRequest} (he : e ∈ log)
    (he' : e' ∈ log)
    (hi : e.call = i) (hi' : e'.call = i) (hsend : e.effect = .send request)
    (hsend' : e'.effect = .send request') : e' = e := by
  obtain ⟨reply, hevent⟩ := event_send hsend
  obtain ⟨reply', hevent'⟩ := event_send hsend'
  obtain ⟨a, b, rfl⟩ := List.append_of_mem he
  subst hi
  have hself : sendsOf (traceOf e.call [e]) = [(request, reply)] := by
    rw [traceOf_self, hevent]
    rfl
  have hnone (c : List (Act (Server ρ) ι Effect Reply)) (hc : sendsOf (traceOf e.call c) = []) :
      e' ∉ c := by
    intro hmem
    have hsends := mem_sendsOf hmem hevent'
    rw [hi', hc] at hsends
    cases hsends
  rw [List.append_cons, traceOf_append, traceOf_append, sendsOf_append, sendsOf_append, hself] at h
  have hlength := congrArg List.length h
  simp only [List.length_append, List.length_singleton] at hlength
  have ha : e' ∉ a := hnone a (List.length_eq_zero_iff.mp (by omega))
  have hb : e' ∉ b := hnone b (List.length_eq_zero_iff.mp (by omega))
  simpa [ha, hb] using he'

/-- Whatever a call reads is this version. -/
def ReadsOnly (locate : Url → ρ) (log : List (Act (Server ρ) ι Effect Reply)) (i : ι) (r : ρ)
    (v : Version) : Prop :=
  ∀ get ∈ log, get.call = i → ∀ r' v', Reads locate get r' v' → r' = r ∧ v' = v

omit [DecidableEq ρ] in
/-- An update sends one read before its write, and no read after it. -/
theorem reads_only (hkept : Kept svc calls (a ++ ev :: b) s) {request : DavRequest} {x : Sent}
    {reply : Except String RawResponse} (he : ev.event = ⟨.send request, reply⟩)
    (hwrite : IsWrite request) (hsends : sendsOf (traceOf ev.call a) = [x])
    {gev : Act (Server ρ) ι Effect Reply} (hgev : gev ∈ a) (hgcall : gev.call = ev.call)
    {v : Version} (hread : Reads locate gev r v) : ReadsOnly locate (a ++ ev :: b) ev.call r v := by
  intro e hmem hcall r' v' hread'
  have ⟨get, _, hget, _⟩ := hread
  have ⟨get', _, hget', hmethod, _⟩ := hread'
  obtain hmem | hmem := List.mem_append.mp hmem
  · obtain rfl :=
      sent_once hsends hgev hmem hgcall hcall (congrArg Sigma.fst hget) (congrArg Sigma.fst hget')
    exact hread.unique hread'
  obtain rfl | hmem := List.mem_cons.mp hmem
  · rw [he] at hget'
    cases hget'
    simp [IsWrite, hmethod] at hwrite
  · exact absurd (congrArg Sigma.fst hget') (not_sent_after hkept he hwrite hmem hcall)

/-- What a successful update did: under a tag, it replaced the version that has
the tag; without one, the version that it read before. -/
theorem updated (hkept : Kept svc calls log s)
    (h : Run (poolStep (Answers locate)) (start, pool) log s)
    {i : ι} {ctx : RequestContext} {params : UpdateContactParams}
    (hcall : calls i = .update ctx params)
    {result : ToolResult} (hok : s.2 i = .done (.ok result)) :
    ∃ past url old new, svc.carddav.resolveHref params.contactHref = .ok url ∧
      Wrote log past i (locate url) (some old) (some new) ∧
      (params.etag = none → ReadsOnly locate log i (locate url) old ∧
        ∃ get ∈ past, get.call = i ∧ Reads locate get (locate url) old) ∧
      ∀ tag, params.etag = some tag → isEntityTag tag → old.etag = tag := by
  obtain ⟨past, ev, rest, request, reply, rfl, rfl, hevent, hwrite, hreply, hstep,
    hpermitted, halone⟩ :=
    write_of_ok hkept h hok
  rw [hcall] at hpermitted
  obtain ⟨hresolve, ⟨-, hget⟩ | ⟨get, response, hsends, hget, hurl, hstatus, hput, hheader, -⟩⟩ :=
    hpermitted
  · simp [IsWrite, hget] at hwrite
  obtain ⟨hpre, new, hnew, -, hfresh⟩ := hstep.of_put hput hreply
  have hmatch := precondition_ifMatch hpre hheader
  cases hold : ev.before.files (locate request.url) with
  | none =>
    rw [hold] at hmatch
    cases hmatch
  | some old =>
    rw [hold] at hmatch
    have hne : some new ≠ some old := by
      rintro ⟨⟩
      exact hfresh (ev.before.current _ _ hold).1
    refine ⟨past, request.url, old, new, hresolve,
      ⟨ev, rest, rfl, rfl, hold, hnew, hne, fun r' hr => hstep.frame hr, halone⟩, fun hnone => ?_,
      fun tag hsome htag => ?_⟩
    · obtain ⟨gev, hmem, hgcall, v, hread, htag, hentity⟩ := read_found h
        (by rw [hsends]; exact List.mem_singleton_self _)
          (List.subset_append_left past _) hget hstatus
      rw [hnone, htag] at hmatch
      rw [hurl] at hread
      have hsame := ifMatch_single hentity hmatch
      obtain ⟨past₁, past₂, rfl⟩ := List.append_of_mem hmem
      have hrun := h
      rw [List.append_assoc, List.cons_append] at hrun
      obtain rfl := read_still_names hrun hread hold hsame
      exact ⟨reads_only hkept hevent hwrite hsends hmem hgcall hread, gev, hmem, hgcall, hread⟩
    · rw [hsome] at hmatch
      exact ifMatch_single htag hmatch

/-- An update that is meant for the version with this tag, by its caller's word:
the tag that it gives, or without one the tag that the call itself has read. A
`*` and a list of tags name no one version. -/
def MeantFor (svc : CardDavMcpService) (locate : Url → ρ) (calls : ι → ToolCall)
    (log : List (Act (Server ρ) ι Effect Reply)) (i : ι) (r : ρ) (tag : Text) : Prop :=
  ∃ ctx params, calls i = .update ctx params ∧
    ((params.etag = none ∧ ∃ get ∈ log, get.call = i ∧ ∃ v, Reads locate get r v ∧ v.etag = tag) ∨
      (params.etag = some tag ∧ isEntityTag tag ∧
        ∃ url, svc.carddav.resolveHref params.contactHref = .ok url ∧ locate url = r))

theorem replaced (hkept : Kept svc calls log s)
    (h : Run (poolStep (Answers locate)) (start, pool) log s)
    {i : ι} {tag : Text} (hmeant : MeantFor svc locate calls log i r tag) {result : ToolResult}
    (hok : s.2 i = .done (.ok result)) :
    ∃ past old new, Wrote log past i r (some old) (some new) ∧ old.etag = tag := by
  obtain ⟨ctx, params, hcall, hmeant⟩ := hmeant
  obtain ⟨past, url, old, new, hresolve, hwrote, hnone, hsome⟩ := updated hkept h hcall hok
  obtain ⟨hetag, get, hmem, hgcall, v, hread, rfl⟩ | ⟨hetag, htag, url', hresolve', rfl⟩ := hmeant
  · obtain ⟨rfl, rfl⟩ := (hnone hetag).1 get hmem hgcall r v hread
    exact ⟨past, v, new, hwrote, rfl⟩
  · rw [hresolve, Except.ok.injEq] at hresolve'
    subst hresolve'
    exact ⟨past, old, new, hwrote, hsome tag hetag htag⟩

theorem replaced_once (hkept : Kept svc calls log s)
    (h : Run (poolStep (Answers locate)) (start, pool) log s) {i j : ι} {tag : Text}
    (hmeant : MeantFor svc locate calls log i r tag)
    (hmeant' : MeantFor svc locate calls log j r tag)
    {result result' : ToolResult} (hok : s.2 i = .done (.ok result))
    (hok' : s.2 j = .done (.ok result')) :
    i = j := by
  obtain ⟨past, old, new, ⟨ev, rest, rfl, rfl, hold, hnew, hne, -⟩, htag⟩ :=
    replaced hkept h hmeant hok
  obtain ⟨past', old', new', ⟨ev', rest', hlog', rfl, hold', hnew', hne', -⟩, htag'⟩ :=
    replaced hkept h hmeant' hok'
  have hmem : ev' ∈ past ++ ev :: rest := by simp [hlog']
  -- The later of the two writes would find the tag that the earlier one retired.
  obtain hmem | hmem := List.mem_append.mp hmem
  · obtain ⟨past₁, past₂, rfl⟩ := List.append_of_mem hmem
    rw [List.append_assoc, List.cons_append] at h
    rw [← hnew'] at hne'
    exact absurd (htag.trans htag'.symm) (retired_once h hold' hne' hold)
  obtain rfl | hmem := List.mem_cons.mp hmem
  · rfl
  · obtain ⟨rest₁, rest₂, rfl⟩ := List.append_of_mem hmem
    rw [← hnew] at hne
    exact absurd (htag'.trans htag.symm) (retired_once h hold hne hold')

/-- Whose version a write may overwrite: the version that the same call has
read, or one that its caller's own header selects. A `*` selects any version,
and a list of tags each that it names. -/
def Seen (locate : Url → ρ) (calls : ι → ToolCall) (past : List (Act (Server ρ) ι Effect Reply))
    (i : ι) (r : ρ) (v : Version) : Prop :=
  ∃ ctx params, calls i = .update ctx params ∧
    ((params.etag = none ∧ ∃ get ∈ past, get.call = i ∧ Reads locate get r v) ∨
      ∃ value, params.etag = some value ∧ ifMatch value (some v.etag))

/-- A put that meets its precondition over a version has seen this version. -/
theorem seen_of_precondition (hkept : Kept svc calls (a ++ ev :: b) s)
    (h : Run (poolStep (Answers locate)) (start, pool) (a ++ ev :: b) s) {request : DavRequest}
    (he : ev.effect = .send request) (hput : request.method = .put) {v : Version}
    (hv : ev.before.files (locate request.url) = some v)
    (hpre : precondition request (some v.etag)) :
    Seen locate calls a ev.call (locate request.url) v := by
  have hpermitted := permitted hkept he
  cases hcall : calls ev.call with
  | create ctx params =>
    rw [hcall] at hpermitted
    have hnone := precondition_ifNoneMatch hpre hpermitted.2.2
    rw [ifNoneMatch_star] at hnone
    cases hnone
  | delete ctx params =>
    rw [hcall] at hpermitted
    have := hpermitted.2.2.1
    simp [hput] at this
  | update ctx params =>
    rw [hcall] at hpermitted
    obtain ⟨-, ⟨-, hget⟩ | ⟨get, response, hsends, hget, hurl, hstatus, -, hheader, -⟩⟩ :=
      hpermitted
    · simp [hput] at hget
    refine ⟨ctx, params, hcall, ?_⟩
    have hmatch := precondition_ifMatch hpre hheader
    cases hetag : params.etag with
    | some value =>
      rw [hetag] at hmatch
      exact .inr ⟨value, rfl, hmatch⟩
    | none =>
      obtain ⟨gev, hmem, hgcall, v', hread, htag, hentity⟩ :=
        read_found h (by rw [hsends]; exact List.mem_singleton_self _)
          (List.subset_append_left a _) hget hstatus
      rw [hetag, htag] at hmatch
      rw [hurl] at hread
      have hsame := ifMatch_single hentity hmatch
      refine .inl ⟨rfl, gev, hmem, hgcall, ?_⟩
      obtain ⟨a₁, a₂, rfl⟩ := List.append_of_mem hmem
      rw [List.append_assoc, List.cons_append] at h
      rwa [read_still_names h hread hv hsame]

/-- Only versions that their writer has seen are overwritten. -/
theorem seen_of_overwrite (hkept : Kept svc calls (a ++ ev :: b) s)
    (h : Run (poolStep (Answers locate)) (start, pool) (a ++ ev :: b) s) {old new : Version}
    (hold : ev.before.files r = some old) (hnew : ev.after.files r = some new) (hne : new ≠ old) :
    Seen locate calls a ev.call r old := by
  have hanswer := answered h (List.mem_append_right a List.mem_cons_self)
  obtain ⟨call, effect, reply, before, after⟩ := ev
  cases hanswer with
  | other =>
    rw [hold, Option.some.injEq] at hnew
    exact absurd hnew.symm hne
  | send hstep =>
    obtain ⟨hput, rfl, hpre⟩ := hstep.of_overwrite hold hnew hne
    exact seen_of_precondition hkept h rfl hput hold hpre

/-- A call that reports a refusal left everything as it was. -/
theorem unchanged_of_refusal (hkept : Kept svc calls log s)
    (h : Run (poolStep (Answers locate)) (start, pool) log s) {i : ι} {e : ErrorData}
    (hfailed : s.2 i = .done (.error e)) (hrefusal : Refusal e) :
    ∀ ev ∈ log, ev.call = i → ev.after = ev.before := by
  rintro ev hmem rfl
  have hdenied := hkept.returned hfailed hrefusal
  have hanswer := answered h hmem
  obtain ⟨call, effect, reply, before, after⟩ := ev
  cases hanswer with
  | other => rfl
  | @send _ request _ hstep =>
    by_cases hwrite : IsWrite request
    · exact hstep.of_denied (hdenied _ (mem_sendsOf hmem rfl) hwrite)
    · apply Answers.unchanged (Answers.send hstep)
      rintro _ ⟨⟩
      exact hwrite

/-- No update is lost in a run of the calls. -/
structure NoLostUpdate (svc : CardDavMcpService) (locate : Url → ρ) (calls : ι → ToolCall)
    (log : List (Act (Server ρ) ι Effect Reply))
    (s : Server ρ × (ι → Prog Effect Reply (Except ErrorData ToolResult))) : Prop where
  created : ∀ i ctx params result, calls i = .create ctx params → s.2 i = .done (.ok result) →
    ∃ past r new, Wrote log past i r none (some new)
  updated : ∀ i ctx params result, calls i = .update ctx params → s.2 i = .done (.ok result) →
    ∃ past url old new, svc.carddav.resolveHref params.contactHref = .ok url ∧
      Wrote log past i (locate url) (some old) (some new) ∧
      (params.etag = none → ReadsOnly locate log i (locate url) old ∧
        ∃ get ∈ past, get.call = i ∧ Reads locate get (locate url) old) ∧
      ∀ tag, params.etag = some tag → isEntityTag tag → old.etag = tag
  deleted : ∀ i ctx params result tag, calls i = .delete ctx params → params.etag = some tag →
    isEntityTag tag → s.2 i = .done (.ok result) →
      ∃ past url old, svc.carddav.resolveHref params.contactHref = .ok url ∧ old.etag = tag ∧
        Wrote log past i (locate url) (some old) none
  once : ∀ i j r tag result result', MeantFor svc locate calls log i r tag →
    MeantFor svc locate calls log j r tag → s.2 i = .done (.ok result) →
      s.2 j = .done (.ok result') → i = j
  seen : ∀ past ev rest r old new, log = past ++ ev :: rest → ev.before.files r = some old →
    ev.after.files r = some new → new ≠ old → Seen locate calls past ev.call r old
  refused : ∀ i e, s.2 i = .done (.error e) → Refusal e →
    ∀ ev ∈ log, ev.call = i → ev.after = ev.before

theorem no_lost_update (svc : CardDavMcpService) (locate : Url → ρ) (calls : ι → ToolCall)
    (start : Server ρ) (log : List (Act (Server ρ) ι Effect Reply))
    (s : Server ρ × (ι → Prog Effect Reply (Except ErrorData ToolResult)))
    (h : Run (poolStep (Answers locate)) (start, fun i => ((calls i).run svc).run) log s) :
    NoLostUpdate svc locate calls log s := by
  have hkept := pool_keeps_contract h
  refine ⟨fun i ctx params result hcall hok => created hkept h hcall hok,
    fun i ctx params result hcall hok => updated hkept h hcall hok,
    fun i ctx params result tag hcall hetag htag hok => deleted_tag hkept h hcall hetag htag hok,
    fun i j r tag result result' hmeant hmeant' hok hok' =>
      replaced_once hkept h hmeant hmeant' hok hok', ?_,
    fun i e hfailed hrefusal => unchanged_of_refusal hkept h hfailed hrefusal⟩
  rintro past ev rest r old new rfl hold hnew hne
  exact seen_of_overwrite hkept h hold hnew hne

end Run

section Sample

def sampleContext : RequestContext :=
  ⟨some "t".toList, some { userId := "u".toList, email := none, name := none, exp := none }⟩

/-- Two callers update the same contact, neither of them with a tag. -/
def sampleCalls (_ : Bool) : ToolCall :=
  .update sampleContext { contactHref := "/a.vcf".toList, contact := { fullName := "New".toList } }

def sampleVersion : Version := ⟨"\"v1\"".toList, utf8 "UID:u-1\r\n".toList⟩

def sampleCard : Text :=
  "BEGIN:VCARD\r\nVERSION:4.0\r\nUID:u-1\r\nFN:New\r\nN:;;;;\r\nEND:VCARD\r\n".toList

def sampleServer : Server Text where
  files r := if r = "/a.vcf".toList then some sampleVersion else none
  issued _ := [sampleVersion.etag]
  current r v h := by
    split_ifs at h
    obtain rfl := Option.some.inj h
    decide

def sampleUpdated : Server Text :=
  sampleServer.put "/a.vcf".toList ⟨"\"v2\"".toList, utf8 sampleCard⟩ (by decide) (by decide)

def sampleGet : DavRequest :=
  CardDavClient.bearerAuth "t".toList (CardDavClient.getRequest (plainUrl "/a.vcf".toList))

def samplePut : DavRequest :=
  CardDavClient.bearerAuth "t".toList
    (CardDavClient.putRequest (plainUrl "/a.vcf".toList)
      ("if-match", sampleVersion.etag) sampleCard)

def sampleFound : RawResponse :=
  { status := 200, etag := some (headerBytes sampleVersion.etag),
    chunks := [.ok sampleVersion.body] }

def sampleLimit (i : Bool) : Act (Server Text) Bool Effect Reply :=
  ⟨i, .rateLimitCheck "t".toList (some "u".toList) .write, .ok (), sampleServer, sampleServer⟩

/-- Both calls read the contact, then one replaces it and the other is refused. -/
def sampleLog : List (Act (Server Text) Bool Effect Reply) :=
  [sampleLimit true, sampleLimit false,
    ⟨true, .send sampleGet, .ok sampleFound, sampleServer, sampleServer⟩,
    ⟨false, .send sampleGet, .ok sampleFound, sampleServer, sampleServer⟩,
    ⟨true, .send samplePut, .ok { status := 204, chunks := [] }, sampleServer, sampleUpdated⟩,
    ⟨false, .send samplePut, .ok { status := 412, chunks := [] }, sampleUpdated, sampleUpdated⟩]

theorem sample_linked : Linked (Answers Url.path) sampleServer sampleLog := by
  have hlimit :
    Answers Url.path sampleServer (.rateLimitCheck "t".toList (some "u".toList) .write) (.ok ())
      sampleServer := .other _ _ fun _ => Effect.noConfusion
  have hget : Answers Url.path sampleServer (.send sampleGet) (.ok sampleFound) sampleServer :=
    .send (.read _ (.inl rfl) fun _ _ =>
      ⟨sampleVersion, rfl, rfl, .inr ⟨[sampleVersion.body], rfl, rfl⟩⟩)
  have hput : Answers Url.path sampleServer (.send samplePut) (.ok { status := 204, chunks := [] })
      sampleUpdated :=
    .send (.put _ _ rfl (by decide +kernel) rfl (by decide) _ _ (by simp [Denied]))
  have hrefused :
    Answers Url.path sampleUpdated (.send samplePut) (.ok { status := 412, chunks := [] })
      sampleUpdated := .send (.refuse _ (.inl rfl) (by simp [Confirmed]))
  exact ⟨rfl, hlimit, rfl, hlimit, rfl, hget, rfl, hget, rfl, hput, rfl, hrefused, trivial⟩

theorem no_lost_update_sample : ∃ s, Run (poolStep (Answers Url.path))
      (sampleServer, fun i => ((sampleCalls i).run plainService).run) sampleLog s ∧
    result (s.2 true) = some (.ok (.written ⟨"/a.vcf".toList, none, "u-1".toList⟩)) ∧
    result (s.2 false) = some (.error (DavError.mapCarddavErr .conflict)) ∧
    NoLostUpdate plainService Url.path sampleCalls sampleLog s := by
  have hpool : (poolAfter (fun i => ((sampleCalls i).run plainService).run) sampleLog).any
    (fun pool =>
      decide (result (pool true) = some (.ok (.written ⟨"/a.vcf".toList, none, "u-1".toList⟩)) ∧
        result (pool false) = some (.error (DavError.mapCarddavErr .conflict)))) := by
    decide +kernel
  obtain ⟨pool, hpool, hdone⟩ := (Option.any_eq_true _ _).mp hpool
  obtain ⟨htrue, hfalse⟩ := of_decide_eq_true hdone
  obtain ⟨server, hrun⟩ := run_of_replay sample_linked hpool
  exact ⟨_, hrun, htrue, hfalse,
    no_lost_update plainService Url.path sampleCalls sampleServer sampleLog _ hrun⟩

end Sample

end CardDavMcp.LostUpdates
