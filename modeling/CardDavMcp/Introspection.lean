import CardDavMcp.VerifiedBearers

namespace CardDavMcp.Introspection

open Library.Utf8Text Library.Table Library.BoundedTable Library.Interaction Library.Runs
open LogtoOidc (LogtoAccessTokenClaims)
open LastUsed UpcomingBirthdays McpRoutes RequestDiscipline ServedRequests ServerWorld
  VerifiedBearers

section Recorded

variable {W ι Ip : Type}

/-- The hash of the bearer whose use a step records. -/
def recordedOf (ev : Act W ι (Effect Ip) Reply) : Option Text :=
  match ev.effect with
  | .record tokenHash _ => some tokenHash
  | _ => none

def recorded (log : List (Act W ι (Effect Ip) Reply)) : List Text := log.filterMap recordedOf

variable {ev : Act W ι (Effect Ip) Reply} {log : List (Act W ι (Effect Ip) Reply)}

theorem recordedOf_record {tokenHash : Text} {ip : Option Ip}
    (h : ev.effect = .record tokenHash ip) : recordedOf ev = some tokenHash := by
  rw [recordedOf, h]

theorem recordedOf_other (h : ∀ tokenHash ip, ev.effect ≠ .record tokenHash ip) :
    recordedOf ev = none := by
  rw [recordedOf]
  cases he : ev.effect with
  | record tokenHash ip => exact absurd he (h tokenHash ip)
  | _ => rfl

theorem recorded_snoc : recorded (log ++ [ev]) = recorded log ++ (recordedOf ev).toList := by
  rw [recorded, List.filterMap_append]
  cases h : recordedOf ev with
  | none => exact congrArg (recorded log ++ ·) (List.filterMap_cons_none h)
  | some tokenHash => exact congrArg (recorded log ++ ·) (List.filterMap_cons_some h)

/-- No bearer is held but those that were recorded, and all of them are if they
are few. -/
structure Holds (log : List (Act W ι (Effect Ip) Reply)) (map : LastUsedTracker Ip) : Prop where
  only : ∀ tokenHash ∈ map, tokenHash ∈ recorded log
  all : (recorded log).toFinset.card ≤ MAX_ENTRIES → ∀ tokenHash ∈ recorded log, tokenHash ∈ map

theorem Holds.record {map map' : LastUsedTracker Ip} {tokenHash : Text}
    {use : LastUsedRecord Ip} (h : Holds log map) (hev : recordedOf ev = some tokenHash)
    (hins : Inserts MAX_ENTRIES LastUsedRecord.usedAt (fun _ => true) tokenHash use map map') :
    Holds (log ++ [ev]) map' := by
  have hrecorded : recorded (log ++ [ev]) = recorded log ++ [tokenHash] := by
    rw [recorded_snoc, hev]
    rfl
  have hsub : recorded log ⊆ recorded (log ++ [ev]) := by
    rw [hrecorded]
    exact List.subset_append_left _ _
  constructor
  · intro k hk
    obtain ⟨e, he⟩ := Option.isSome_iff_exists.mp (AList.lookup_isSome.mpr hk)
    obtain ⟨rfl, -⟩ | ⟨-, hold⟩ := hins.lookup he
    · simp [hrecorded]
    · exact hsub (h.only k (AList.lookup_isSome.mp (by rw [hold]; rfl)))
  · intro hfew k hk
    rw [← AList.lookup_isSome]
    by_cases hne : k = tokenHash
    · rw [hne, hins.stored]
      rfl
    · have hold : k ∈ recorded log := by simpa [hrecorded, hne] using hk
      have hfew' : (recorded log).toFinset.card ≤ MAX_ENTRIES :=
        (Finset.card_le_card fun k hk =>
          List.mem_toFinset.mpr (hsub (List.mem_toFinset.mp hk))).trans hfew
      obtain ⟨e, he⟩ := Option.isSome_iff_exists.mp (AList.lookup_isSome.mpr (h.all hfew' k hold))
      have hroom (hnew : map.lookup tokenHash = none) : len map < MAX_ENTRIES :=
        len_lt_of_new (fun k hk => hsub (h.only k hk)) hfew (by simp [hrecorded]) hnew
      rw [hins.kept (len_le_of_few h.only hfew') hroom hne he rfl]
      rfl

theorem Holds.other {map : LastUsedTracker Ip} (h : Holds log map) (hev : recordedOf ev = none) :
    Holds (log ++ [ev]) map := by
  have hrecorded : recorded (log ++ [ev]) = recorded log := by
    rw [recorded_snoc, hev, Option.toList_none, List.append_nil]
  exact ⟨hrecorded ▸ h.only, hrecorded ▸ h.all⟩

end Recorded

section Run

variable {𝕜 ι Ip α : Type} [Field 𝕜] [LinearOrder 𝕜] [IsStrictOrderedRing 𝕜] [FloorRing 𝕜]
  [DecidableEq ι] {server : Server Ip} {chrono : ι → Chrono} {requests : ι → Request}
  {start : World 𝕜 Ip} {log : List (Act (World 𝕜 Ip) ι (Effect Ip) Reply)}

omit [IsStrictOrderedRing 𝕜] in
theorem holds_of_run {calls : ι → Prog (Effect Ip) Reply α}
    {s : World 𝕜 Ip × (ι → Prog (Effect Ip) Reply α)} (hempty : start.lastUsed = ∅)
    (h : Run (poolStep (Answers server)) (start, calls) log s) : Holds log s.1.lastUsed := by
  induction h with
  | nil =>
    rw [hempty]
    exact ⟨fun k hk => absurd hk (AList.notMem_empty k), fun _ k hk => absurd hk List.not_mem_nil⟩
  | snoc _ hs ih =>
    obtain ⟨-, -, hw, -⟩ := hs
    obtain ⟨tokenHash, ip, usedAt, he, hins⟩ | ⟨hother, hsame⟩ := hw.recorded
    · exact ih.record (recordedOf_record he) hins
    · rw [hsame]
      exact ih.other (recordedOf_other hother)

omit [IsStrictOrderedRing 𝕜] in
/-- What is held of a bearer is its last use. -/
theorem recorded_of_run {calls : ι → Prog (Effect Ip) Reply α}
    {s : World 𝕜 Ip × (ι → Prog (Effect Ip) Reply α)} (hempty : start.lastUsed = ∅)
    (h : Run (poolStep (Answers server)) (start, calls) log s) {tokenHash : Text}
    {use : LastUsedRecord Ip} (huse : s.1.lastUsed.lookup tokenHash = some use) :
    ∃ a rec b, log = a ++ rec :: b ∧ rec.effect = .record tokenHash use.ip ∧
      rec.after.lastUsed.lookup tokenHash = some use ∧ ∀ x ∈ b, recordedOf x ≠ some tokenHash := by
  obtain ⟨hstart, -⟩ | ⟨a, rec, b, rfl, ⟨he, hafter⟩, hb⟩ := h.provenance
    (fun s tokenHash use => s.1.lastUsed.lookup tokenHash = some use)
    (fun ev tokenHash use => ev.effect = .record tokenHash use.ip ∧
      ev.after.lastUsed.lookup tokenHash = some use)
    (fun ev tokenHash => recordedOf ev = some tokenHash)
    (fun s ev t k v hs hv => by
      obtain ⟨-, hafter, hw, -⟩ := hs
      rw [hafter]
      obtain ⟨tokenHash, ip, usedAt, he, hins⟩ | ⟨hother, hsame⟩ := hw.recorded
      · obtain ⟨rfl, rfl⟩ | ⟨hne, hold⟩ := hins.lookup hv
        · exact .inl ⟨he, hv⟩
        · refine .inr ⟨fun hk => hne ?_, hold⟩
          rw [recordedOf_record he] at hk
          exact (Option.some.inj hk).symm
      · refine .inr ⟨fun hk => ?_, hsame ▸ hv⟩
        rw [recordedOf_other hother] at hk
        cases hk) huse
  · rw [hempty] at hstart
    simp at hstart
  · exact ⟨a, rec, b, rfl, he, hafter, hb⟩

/-- What is told of the last use of a bearer: the latest that was recorded, by a
request with a bearer of this hash. If nothing is told, there was none, or more
bearers were in use than are held. -/
def LastUse (server : Server Ip) (requests : ι → Request)
    (before : List (Act (World 𝕜 Ip) ι (Effect Ip) Reply)) (tokenHash : Text) :
    Option (LastUsedRecord Ip) → Prop
  | some use => ∃ a rec b token identity, before = a ++ rec :: b ∧
      rec.effect = .record tokenHash use.ip ∧
      rec.after.lastUsed.lookup tokenHash = some use ∧
      (∀ x ∈ b, recordedOf x ≠ some tokenHash) ∧
      Authenticated server (requests rec.call) (traceOf rec.call a) token identity ∧
      tokenHash = server.auth.tokenHash token ∧ (requests rec.call).path ≠ INTROSPECT ∧
      use.ip = (server.auth.recordingOf (requests rec.call).toHttpRequest token).clientIp
  | none => tokenHash ∈ recorded before → MAX_ENTRIES < (recorded before).toFinset.card

omit [IsStrictOrderedRing 𝕜] in
theorem lastUse_of_run {before rest : List (Act (World 𝕜 Ip) ι (Effect Ip) Reply)}
    {s t : World 𝕜 Ip × (ι → Prog (Effect Ip) Reply (Answer Ip))} (hempty : start.lastUsed = ∅)
    (h : Run (poolStep (Answers server)) (start, pool server chrono requests) before t)
    (hsound : Disciplined server requests (before ++ rest) s) (tokenHash : Text) :
    LastUse server requests before tokenHash (LastUsed.get tokenHash t.1.lastUsed) := by
  cases huse : LastUsed.get tokenHash t.1.lastUsed with
  | some use =>
    obtain ⟨a, rec, b, rfl, he, hafter, hb⟩ := recorded_of_run hempty h huse
    rw [List.append_assoc, List.cons_append] at hsound
    have hguar := guar_of hsound
    rw [he] at hguar
    obtain ⟨-, hpath, token, identity, hauth, hhash, hip⟩ := hguar
    exact ⟨a, rec, b, token, identity, rfl, he, hafter, hb, hauth, hhash, hpath, hip⟩
  | none =>
    intro hmem
    by_contra hfew
    have hheld := (holds_of_run hempty h).all (Nat.not_lt.mp hfew) tokenHash hmem
    exact AList.lookup_eq_none.mp huse hheld

/-- What an introspection tells at the time of its lookup. -/
structure Introspected (server : Server Ip) (requests : ι → Request)
    (before : List (Act (World 𝕜 Ip) ι (Effect Ip) Reply)) (i : ι) (token : Text)
    (claims : LogtoAccessTokenClaims) (body : TokenIntrospectResponse Ip) : Prop where
  bearer : bearerOf (requests i) = some token
  vouched : Vouched server requests before i token claims
  claims : body = ⟨claims.sub, claims.email <|> claims.username, claims.name, some claims.exp,
    server.auth.tokenHash token, body.lastUsed⟩
  lastUse : LastUse server requests before body.tokenHash body.lastUsed

/-- Whatever the interleaving, an introspection tells what its own bearer claims
and the last use of it that was not an introspection. -/
theorem introspection_exact (hempty : start.validations = ∅) (hunused : start.lastUsed = ∅)
    {s : World 𝕜 Ip × (ι → Prog (Effect Ip) Reply (Answer Ip))}
    (h : Run (poolStep (Answers server)) (start, pool server chrono requests) log s) {i : ι}
    {body : TokenIntrospectResponse Ip} (hdone : s.2 i = .done (.introspection body)) :
    ∃ before look rest token claims, log = before ++ look :: rest ∧ look.call = i ∧
      look.effect = .lastUsed body.tokenHash ∧
      Introspected server requests before i token claims body ∧
      ∀ x ∈ log, x.call = i → recordedOf x = none := by
  have hsound := disciplined h
  obtain ⟨hpath, token, identity, hpassed, hlook, hbody⟩ := hsound.returned hdone
  obtain ⟨look, hmem, rfl, hevent⟩ := exists_of_traceOf hlook
  have hsilent : ∀ x ∈ log, x.call = look.call → recordedOf x = none := by
    intro x hx hcall
    obtain ⟨a, b, rfl⟩ := List.append_of_mem hx
    apply recordedOf_other
    intro tokenHash ip he
    have hguar := guar_of hsound
    rw [he] at hguar
    exact hguar.2.1 (hcall ▸ hpath)
  obtain ⟨before, rest, rfl⟩ := List.append_of_mem hmem
  obtain ⟨t, t', hbefore, ⟨-, -, hw, -⟩, -⟩ := h.split
  have hguar := guar_of hsound
  obtain ⟨call, effect, reply, w, w'⟩ := look
  obtain ⟨rfl, hreply⟩ := Sigma.mk.inj hevent
  obtain rfl := eq_of_heq hreply
  obtain ⟨-, token', identity', hpassed', -⟩ := hguar
  obtain ⟨rfl, rfl⟩ := authenticated_same hpassed'.toAuthenticated hpassed.toAuthenticated
  obtain ⟨claims, rfl, hvouched⟩ :=
    vouched_of_authenticated hempty hbefore hpassed'.toAuthenticated
  have hhash : body.tokenHash = server.auth.tokenHash token := by rw [hbody]
  refine ⟨before, _, rest, token, claims, rfl, rfl, by rw [hhash], ?_, hsilent⟩
  refine ⟨hpassed.bearer, hvouched, hbody, ?_⟩
  have hused : body.lastUsed = LastUsed.get (server.auth.tokenHash token) t.1.lastUsed := hw.used
  rw [hhash, hused]
  exact lastUse_of_run hunused hbefore hsound _

end Run

/-- A message, and an introspection with the same bearer. -/
def sampleRequests : Bool → Request
  | false => sampleRequest
  | true =>
    { path := "/token/introspect".toList
      headers := sampleRequest.headers
      method := .get
      body := [] }

/-- Both look the bearer up before either has verified it. -/
def sampleTurns : List Bool := true :: (List.replicate 5 false ++ List.replicate 5 true)

def samplePlay :
    List (Act (World ℚ (List Nat)) Bool (Effect (List Nat)) Reply) × World ℚ (List Nat) ×
      (Bool → Prog (Effect (List Nat)) Reply (Answer (List Nat))) :=
  played sampleServer sampleTurns sampleStart
    (pool plainServer (fun _ => UpcomingBirthdays.sampleChrono) sampleRequests)

def sampleBody : TokenIntrospectResponse (List Nat) where
  userId := "u".toList
  email := none
  name := none
  exp := some 100
  tokenHash := plainServer.auth.tokenHash "jwt".toList
  lastUsed := some ⟨0, none⟩

theorem introspection_exact_sample : ∃ before look rest token claims,
    samplePlay.1 = before ++ look :: rest ∧ look.call = true ∧
    look.effect = .lastUsed sampleBody.tokenHash ∧
    Introspected plainServer sampleRequests before true token claims sampleBody ∧
    ∀ x ∈ samplePlay.1, x.call = true → recordedOf x = none :=
  introspection_exact rfl rfl (run_played answers_sampleServer sampleTurns sampleStart _) rfl

end CardDavMcp.Introspection
