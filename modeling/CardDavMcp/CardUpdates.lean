import CardDavMcp.VcardRoundTrip
import CardDavMcp.WriteContract

namespace CardDavMcp.CardUpdates

open Library.Utf8Text Library.Interaction Library.Runs ToolError Contact Vcard Urls
    DavError DavClient ContactTools DavServer ResponseLimits WriteContract

theorem fromUtf8_utf8 (c : CardDavClient) (text : Text) : c.fromUtf8 (utf8 text) = .ok text := by
  have hbytes : (⟨(utf8 text).toArray⟩ : ByteArray) = (String.ofList text).toByteArray := rfl
  rw [CardDavClient.fromUtf8, hbytes, String.fromUTF8?, dif_pos (String.isValidUTF8 _)]
  exact congrArg Except.ok (String.toList_ofList ..)

/-- The body of a response holds a text, unless the connection breaks. -/
def Delivers (text : Text) (response : RawResponse) : Prop :=
  (∃ e, .error e ∈ response.chunks) ∨
    ∃ chunks : List Bytes, response.chunks = chunks.map .ok ∧ chunks.flatten = utf8 text

/-- What is read from a response is what it delivers. -/
theorem readCard_delivers {c : CardDavClient} {response : RawResponse} {text text' : Text}
    (hdelivers : Delivers text response) (hread : readCard c response = .ok text') :
    text' = text := by
  rw [readCard] at hread
  cases hbody : readLimited response c.maxResponseBytes with
  | error e => simp [hbody, bind, Except.bind] at hread
  | ok body =>
    simp only [hbody, bind, Except.bind] at hread
    obtain ⟨-, rest, hrest, -, rfl⟩ := readLimited_eq_ok.mp hbody
    obtain ⟨e, he⟩ | ⟨chunks, hchunks, hflat⟩ := hdelivers
    · rw [hrest] at he
      simp at he
    · have hsame : rest = chunks := by
        rw [hrest] at hchunks
        exact List.map_injective_iff.mpr (fun _ _ => Except.ok.inj) hchunks
      rw [hsame, hflat, fromUtf8_utf8] at hread
      exact (Except.ok.inj hread).symm

section Store

variable {ρ ι : Type} [DecidableEq ρ] [DecidableEq ι] (locate : Url → ρ)

/-- The stored cards. -/
abbrev Cards (ρ : Type) := ρ → Option Text

/-- A request is answered from the stored cards. A card that is put may be
stored, whatever the answer says. -/
inductive Stores : Cards ρ → (e : Effect) → Reply e → Cards ρ → Prop
  | get {cards : Cards ρ} {request : DavRequest} {response : RawResponse} {text : Text}
      (hget : request.method = .get) (hcard : cards (locate request.url) = some text)
      (hdelivers : Delivers text response) : Stores cards (.send request) (.ok response) cards
  | put {cards : Cards ρ} {request : DavRequest} (reply : Except String RawResponse)
      (hput : request.method = .put) :
      Stores cards (.send request) reply
        (Function.update cards (locate request.url) (some request.body))
  | same {cards : Cards ρ} (e : Effect) (reply : Reply e)
      (h : ∀ request response, asSent ⟨e, reply⟩ = some (request, .ok response) →
        request.method = .get → response.status ≠ 200) : Stores cards e reply cards

/-- The updates of a run: the context and the parameters of each call. -/
abbrev Updates (ι : Type) := ι → RequestContext × UpdateContactParams

def callOf (updates : Updates ι) (i : ι) : ToolCall := .update (updates i).1 (updates i).2

abbrev Log (ρ ι : Type) := List (Act (Cards ρ) ι Effect Reply)
abbrev State (ρ ι : Type) := Cards ρ × (ι → Prog Effect Reply (Except ErrorData ToolResult))

/-- A run of update calls over some stored cards. -/
def UpdateRun (svc : CardDavMcpService) (updates : Updates ι) (start : Cards ρ) (log : Log ρ ι)
    (s : State ρ ι) : Prop :=
  Run (poolStep (Stores locate)) (start, fun i => ((callOf updates i).run svc).run) log s

/-- A step that puts a card. -/
def Puts (ev : Act (Cards ρ) ι Effect Reply) (request : DavRequest) : Prop :=
  (∃ reply, ev.event = ⟨.send request, reply⟩) ∧ request.method = .put

variable {locate} {svc : CardDavMcpService} {updates : Updates ι} {start : Cards ρ}
    {log a b : Log ρ ι}
  {ev : Act (Cards ρ) ι Effect Reply} {s : State ρ ι}

omit [DecidableEq ι] in
theorem stored_of_read {get : DavRequest} {response : RawResponse} {text : Text}
    (h : Stores locate ev.before ev.effect ev.reply ev.after)
    (he : ev.event = ⟨.send get, .ok response⟩)
    (hget : get.method = .get) (hstatus : response.status = 200)
    (hread : readCard svc.carddav response = .ok text) :
    ev.before (locate get.url) = some text := by
  obtain ⟨call, effect, reply, before, after⟩ := ev
  cases he
  change Stores locate before (.send get) (.ok response) after at h
  cases h with
  | get _ hcard hdelivers =>
    exact hcard.trans (congrArg some (readCard_delivers hdelivers hread).symm)
  | put _ hput => simp [hget] at hput
  | same _ _ hsame => exact absurd hstatus (hsame get response rfl hget)

/-- A step in which a call reads a card. -/
structure ReadsCard (locate : Url → ρ) (ev : Act (Cards ρ) ι Effect Reply) (i : ι) (url : Url)
    (text : Text) : Prop where
  call : ev.call = i
  sent : ∃ get reply, ev.event = ⟨.send get, reply⟩ ∧ get.method = .get ∧ get.url = url
  stored : ev.before (locate url) = some text

/-- What a call puts is built from a card that it has read. -/
theorem put_from_read (h : UpdateRun locate svc updates start (a ++ ev :: b) s)
    {request : DavRequest} (hput : Puts ev request) :
    svc.carddav.resolveHref (updates ev.call).2.contactHref = .ok request.url ∧
      ∃ gev ∈ a, ∃ text uid, ReadsCard locate gev ev.call request.url text ∧
        keptUid text (updates ev.call).2.contact = .ok uid ∧
        buildVcard (updates ev.call).2.contact uid = .ok request.body := by
  have hkept : Kept svc (callOf updates) (a ++ ev :: b) s := pool_keeps_contract h
  obtain ⟨⟨reply, hevent⟩, hmethod⟩ := hput
  obtain ⟨hresolve, ⟨-, hget⟩ |
    ⟨get, response, hsends, hget, hurl, hstatus, -, -, text, uid, hread, huid, hbuild⟩⟩ :=
    permitted hkept (congrArg Sigma.fst hevent)
  · simp [hmethod] at hget
  refine ⟨hresolve, ?_⟩
  have hmem : (get, .ok response) ∈ sendsOf (traceOf ev.call a) := by
    rw [hsends]
    exact List.mem_singleton_self _
  obtain ⟨gev, hgev, hcall, hgevent⟩ := exists_of_sendsOf hmem
  have hstored :=
    stored_of_read (answered h (List.mem_append_left _ hgev)) hgevent hget hstatus hread
  rw [hurl] at hstored
  exact ⟨gev, hgev, text, uid, ⟨hcall, ⟨get, _, hgevent, hget, hurl⟩, hstored⟩, huid, hbuild⟩

theorem keptUid_ok {stored uid : Text} {contact : ContactInput}
    (h : keptUid stored contact = .ok uid) :
    (parseVcard stored).uid = some uid ∧ ∀ asked, contact.uid = some asked → asked = uid := by
  rw [keptUid] at h
  cases hstored : (parseVcard stored).uid with
  | none =>
    rw [hstored] at h
    cases h
  | some existing =>
    rw [hstored] at h
    dsimp only at h
    split_ifs at h with hasked
    obtain rfl := Except.ok.inj h
    refine ⟨rfl, fun asked ha => ?_⟩
    simpa [ha] using hasked

/-- The UID on each stored card. -/
def uids (cards : Cards ρ) (r : ρ) : Option (Option Text) :=
  (cards r).map fun text => (parseVcard text).uid

omit [DecidableEq ρ] [DecidableEq ι] in
theorem Puts.unique {request request' : DavRequest} (h : Puts ev request) (h' : Puts ev request') :
    request = request' := by
  obtain ⟨⟨reply, he⟩, -⟩ := h
  obtain ⟨⟨reply', he'⟩, -⟩ := h'
  rw [he] at he'
  cases he'
  rfl

omit [DecidableEq ι] in
/-- A step stores a card or leaves all cards alone. -/
theorem stored_cases (h : Stores locate ev.before ev.effect ev.reply ev.after) :
    ev.after = ev.before ∨ ∃ request, Puts ev request ∧
      ev.after = Function.update ev.before (locate request.url) (some request.body) := by
  obtain ⟨call, effect, reply, before, after⟩ := ev
  change Stores locate before effect reply after at h
  cases h with
  | get => exact .inl rfl
  | put reply hput => exact .inr ⟨_, ⟨⟨reply, rfl⟩, hput⟩, rfl⟩
  | same => exact .inl rfl

/-- No step of an update changes the UID of a card. -/
theorem uids_of_run (h : UpdateRun locate svc updates start log s) :
    uids s.1 = uids start ∧ ∀ ev ∈ log, uids ev.before = uids start := by
  induction h with
  | nil => exact ⟨rfl, by simp⟩
  | @snoc log s t ev hrun hs ih =>
    obtain ⟨hstart, hlog⟩ := ih
    have hrun' : UpdateRun locate svc updates start (log ++ [ev]) t := .snoc hrun hs
    obtain ⟨hbefore, hafter, -, -⟩ := hs
    refine ⟨?_, fun ev' hmem => ?_⟩
    · rw [← hafter]
      obtain hsame | ⟨request, hput, hafter⟩ :=
        stored_cases (answered hrun' (List.mem_append_right log (List.mem_singleton_self ev)))
      · rw [hsame, hbefore, hstart]
      · obtain ⟨-, gev, hgev, text, uid, ⟨-, -, hstored⟩, hkept, hbuild⟩ := put_from_read hrun' hput
        have hread := congrFun (hlog gev hgev) (locate request.url)
        rw [uids, hstored, Option.map_some, (keptUid_ok hkept).1] at hread
        rw [hafter, ← hstart, ← hbefore]
        funext r
        by_cases hr : r = locate request.url
        · subst hr
          rw [uids, Function.update_self, Option.map_some,
            (VcardRoundTrip.text_round_trip hbuild).1, hread, ← hstart, ← hbefore]
        · rw [uids, Function.update_of_ne hr, uids]
    · obtain hmem | hmem := List.mem_append.mp hmem
      · exact hlog ev' hmem
      · obtain rfl := List.mem_singleton.mp hmem
        rw [hbefore, hstart]

/-- A card is put only for the UID that the stored card has had all along. -/
theorem put_keeps_uid (h : UpdateRun locate svc updates start log s) (hev : ev ∈ log)
    {request : DavRequest} (hput : Puts ev request) :
    svc.carddav.resolveHref (updates ev.call).2.contactHref = .ok request.url ∧
      ∃ uid, uids start (locate request.url) = some (some uid) ∧
        (∀ asked, (updates ev.call).2.contact.uid = some asked → asked = uid) ∧
        buildVcard (updates ev.call).2.contact uid = .ok request.body := by
  obtain ⟨a, b, rfl⟩ := List.append_of_mem hev
  obtain ⟨hresolve, gev, hgev, text, uid, ⟨-, -, hstored⟩, hkept, hbuild⟩ := put_from_read h hput
  have hread := congrFun ((uids_of_run h).2 gev (List.mem_append_left _ hgev)) (locate request.url)
  rw [uids, hstored, Option.map_some, (keptUid_ok hkept).1] at hread
  exact ⟨hresolve, uid, hread.symm, (keptUid_ok hkept).2, hbuild⟩

/-- A call that succeeds has put a card. -/
theorem puts_of_ok (h : UpdateRun locate svc updates start log s) {i : ι} {result : ToolResult}
    (hok : s.2 i = .done (.ok result)) : ∃ ev ∈ log, ev.call = i ∧ ∃ request, Puts ev request := by
  have hkept : Kept svc (callOf updates) log s := pool_keeps_contract h
  obtain ⟨request, reply, hmem, hwrite, -⟩ := hkept.returned hok
  obtain ⟨ev, hev, rfl, hevent⟩ := exists_of_sendsOf hmem
  refine ⟨ev, hev, rfl, request, ⟨reply, hevent⟩, ?_⟩
  obtain ⟨a, b, rfl⟩ := List.append_of_mem hev
  obtain ⟨-, ⟨-, hget⟩ | ⟨_, _, -, -, -, -, hput, -⟩⟩ := permitted hkept (congrArg Sigma.fst hevent)
  · change request.method = .get at hget
    simp [IsWrite, hget] at hwrite
  · exact hput

/-- An update that cannot keep the UID of the card it is for. -/
def Unfit (contact : ContactInput) (uid : Option Text) : Prop :=
  ∀ u, uid = some u → validateUid u ≠ .ok () ∨ ∃ asked, contact.uid = some asked ∧ asked ≠ u

/-- What a run of updates does to the UID and the content of cards. -/
structure UidStable (svc : CardDavMcpService) (locate : Url → ρ) (updates : Updates ι)
    (start : Cards ρ) (log : Log ρ ι) (s : State ρ ι) : Prop where
  stored : ∀ r, uids s.1 r = uids start r
  put : ∀ ev ∈ log, ∀ request, Puts ev request →
    ∃ text uid, start (locate request.url) = some text ∧
    (parseVcard text).uid = some uid ∧ (parseVcard request.body).uid = some uid
  refused : ∀ i url text, svc.carddav.resolveHref (updates i).2.contactHref = .ok url →
    start (locate url) = some text → Unfit (updates i).2.contact (parseVcard text).uid →
      (∀ ev ∈ log, ev.call = i → ∀ request, ¬ Puts ev request) ∧
        ∀ result, s.2 i ≠ .done (.ok result)
  same : ∀ ev ∈ log, ∀ ev' ∈ log, ∀ request request', Puts ev request → Puts ev' request' →
    locate request'.url = locate request.url →
      (updates ev'.call).2.contact = (updates ev.call).2.contact → request'.body = request.body ∧
        (ev'.before (locate request.url) = some request.body → ev'.after = ev'.before)

theorem uid_stable (svc : CardDavMcpService) (locate : Url → ρ) (updates : Updates ι)
    (start : Cards ρ)
    (log : Log ρ ι) (s : State ρ ι) (h : UpdateRun locate svc updates start log s) :
    UidStable svc locate updates start log s := by
  constructor
  · exact fun r => congrFun (uids_of_run h).1 r
  · intro ev hev request hput
    obtain ⟨-, uid, huid, -, hbuild⟩ := put_keeps_uid h hev hput
    obtain ⟨text, htext, huid⟩ := Option.map_eq_some_iff.mp huid
    exact ⟨text, uid, htext, huid, (VcardRoundTrip.text_round_trip hbuild).1⟩
  · intro i url text hresolve htext hunfit
    have hnone : ∀ ev ∈ log, ev.call = i → ∀ request, ¬ Puts ev request := by
      rintro ev hev rfl request hput
      obtain ⟨hresolve', uid, huid, hasked, hbuild⟩ := put_keeps_uid h hev hput
      rw [hresolve, Except.ok.injEq] at hresolve'
      subst hresolve'
      rw [uids, htext, Option.map_some, Option.some.injEq] at huid
      obtain hinvalid | ⟨asked, hask, hne⟩ := hunfit uid huid
      · exact hinvalid (buildVcard_ok hbuild).1
      · exact hne (hasked asked hask)
    refine ⟨hnone, fun result hok => ?_⟩
    obtain ⟨ev, hev, hcall, request, hput⟩ := puts_of_ok h hok
    exact hnone ev hev hcall request hput
  · intro ev hev ev' hev' request request' hput hput' hlocate hcontact
    obtain ⟨-, uid, huid, -, hbuild⟩ := put_keeps_uid h hev hput
    obtain ⟨-, uid', huid', -, hbuild'⟩ := put_keeps_uid h hev' hput'
    rw [hlocate, huid, Option.some.injEq, Option.some.injEq] at huid'
    rw [hcontact, ← huid', hbuild, Except.ok.injEq] at hbuild'
    refine ⟨hbuild'.symm, fun hbefore => ?_⟩
    obtain hsame | ⟨request'', hput'', hafter⟩ := stored_cases (answered h hev')
    · exact hsame
    · obtain rfl := hput'.unique hput''
      rw [hafter, hlocate, ← hbuild', ← hbefore, Function.update_eq_self]

end Store

def sampleCard : Text :=
  "BEGIN:VCARD\r\nUID:u-1\r\nFN:Old\r\nBDAY:1984-03-17\r\nEND:VCARD\r\n".toList

def samplePut : Text :=
  "BEGIN:VCARD\r\nVERSION:4.0\r\nUID:u-1\r\nFN:New\r\nN:;;;;\r\nEND:VCARD\r\n".toList

def samplePath : Text := "/a.vcf".toList

/-- Two updates with the same parameters. -/
def sampleUpdates (_ : Bool) : RequestContext × UpdateContactParams :=
  (⟨some "t".toList, some { userId := "u".toList, email := none, name := none, exp := none }⟩,
    { contactHref := samplePath, contact := { fullName := "New".toList } })

def holding (card : Text) : Cards Text := Function.update (fun _ => none) samplePath (some card)

theorem holding_self (card : Text) : holding card samplePath = some card := Function.update_self ..

/-- The steps of one of the updates: it reads a card and puts a new one. -/
def sampleSteps (call : Bool) (card : Text) : Log Text Bool :=
  [⟨call, .rateLimitCheck "t".toList (some "u".toList) .write, .ok (), holding card, holding card⟩,
    ⟨call, .send (CardDavClient.bearerAuth "t".toList
      (CardDavClient.getRequest (plainUrl samplePath))),
      .ok { status := 200, chunks := [.ok (utf8 card)] }, holding card, holding card⟩,
    ⟨call, .send (CardDavClient.bearerAuth "t".toList
        (CardDavClient.putRequest (plainUrl samplePath) ("if-match", ['*']) samplePut)),
      .ok { status := 204, chunks := [] }, holding card, holding samplePut⟩]

theorem sampleSteps_linked (call : Bool) (card : Text) {log : Log Text Bool}
    (hrest : Linked (Stores Url.path) (holding samplePut) log) :
    Linked (Stores Url.path) (holding card) (sampleSteps call card ++ log) := by
  have hlimit : Stores Url.path (holding card)
      (.rateLimitCheck "t".toList (some "u".toList) .write) (.ok ()) (holding card) :=
    .same _ _ (fun _ _ h => by cases h)
  have hput : holding samplePut = Function.update (holding card) samplePath (some samplePut) :=
    (Function.update_idem ..).symm
  refine ⟨rfl, hlimit, rfl, .get rfl (holding_self card) ?_, rfl, ?_, hrest⟩
  · exact .inr ⟨[utf8 card], rfl, List.append_nil _⟩
  · exact hput ▸ .put (.ok { status := 204, chunks := [] }) rfl

def sampleLog : Log Text Bool := sampleSteps false sampleCard ++ sampleSteps true samplePut

theorem sample_runs : ∃ s : State Text Bool,
    UpdateRun Url.path plainService sampleUpdates (holding sampleCard) sampleLog s ∧
      ∀ i, result (s.2 i) = some (.ok (.written ⟨samplePath, none, "u-1".toList⟩)) := by
  have hlinked : Linked (Stores Url.path) (holding sampleCard) sampleLog :=
    sampleSteps_linked false sampleCard (sampleSteps_linked true samplePut trivial)
  have hpool : (poolAfter (fun i => ((callOf sampleUpdates i).run plainService).run) sampleLog).any
      (fun pool => decide (∀ i, result (pool i) =
        some (.ok (.written ⟨samplePath, none, "u-1".toList⟩)))) := by
    decide +kernel
  obtain ⟨pool, hpool, hdone⟩ := (Option.any_eq_true _ _).mp hpool
  obtain ⟨cards, hrun⟩ := run_of_replay hlinked hpool
  exact ⟨_, hrun, of_decide_eq_true hdone⟩

/-- Both updates succeed, and the card keeps its UID. -/
theorem uid_stable_sample : ∃ s : State Text Bool,
    (∀ i, result (s.2 i) = some (.ok (.written ⟨samplePath, none, "u-1".toList⟩))) ∧
      uids s.1 samplePath = some (some "u-1".toList) ∧
      UidStable plainService Url.path sampleUpdates (holding sampleCard) sampleLog s := by
  obtain ⟨s, hrun, hdone⟩ := sample_runs
  have hstable :=
    uid_stable plainService Url.path sampleUpdates (holding sampleCard) sampleLog s hrun
  exact ⟨s, hdone, (hstable.stored samplePath).trans (by decide +kernel), hstable⟩

end CardDavMcp.CardUpdates
