import CardDavMcp.VerifiedBearers

namespace CardDavMcp.SessionLoad

open Library.Utf8Text Library.Interaction Library.Runs UpcomingBirthdays McpRoutes
  RequestDiscipline ServedRequests
open VerifiedBearers (authenticated_same)

variable {W ι Ip : Type} [DecidableEq ι] {server : Server Ip} {chrono : ι → Chrono}
  {requests : ι → Request} {world : W → (e : Effect Ip) → Reply e → W → Prop} {start : W}
  {a b rest : List (Act W ι (Effect Ip) Reply)}
  {s : W × (ι → Prog (Effect Ip) Reply (Answer Ip))} {subject : Text} {i : ι}

/-- A request of a subject that opens a session in a stretch of a run. -/
structure Opens (server : Server Ip) (requests : ι → Request) (subject : Text)
    (a b : List (Act W ι (Effect Ip) Reply)) (i : ι) : Prop where
  fresh : isFreshMcpSessionRequest (requests i)
  starts : ∀ x ∈ a, x.call ≠ i
  served : ∃ before x after token identity, a ++ b = before ++ x :: after ∧ x.call = i ∧
    Serves x.effect ∧ Authenticated server (requests i) (traceOf i before) token identity ∧
    identity.userId = subject

/-- A charge of a subject for a session that the limiter allowed. -/
def admits (subject : Text) : (e : Effect Ip) × Reply e → Bool
  | ⟨.initializeCheck _ sub, .ok ()⟩ => sub = some subject
  | _ => false

/-- Behind a session that is opened stands a charge that was allowed. -/
theorem Opens.admitted
    (h : Run (poolStep world) (start, pool server chrono requests) (a ++ b ++ rest) s)
    (hi : Opens server requests subject a b i) :
    ∃ ev ∈ b, ev.call = i ∧ admits subject ev.event := by
  obtain ⟨hfresh, hstarts, before, x, after, token, identity, hsplit, rfl, hserves, hauth,
    hsubject⟩ := hi
  have hsound := disciplined h
  rw [hsplit, List.append_assoc, List.cons_append] at hsound
  obtain ⟨token', identity', hpassed⟩ := passed_of_serves hsound hserves
  have hauth' := hpassed.toAuthenticated
  rw [← List.append_nil before] at hauth'
  obtain ⟨rfl, rfl⟩ := authenticated_same hauth hauth'
  obtain ⟨charge, hcharge, hcall, hevent⟩ := exists_of_traceOf (hpassed.charged hfresh)
  have hmem : charge ∈ a ++ b := by
    rw [hsplit]
    exact List.mem_append_left _ hcharge
  have hb : charge ∈ b := (List.mem_append.mp hmem).resolve_left fun ha => hstarts charge ha hcall
  refine ⟨charge, hb, hcall, ?_⟩
  rw [← hevent, ← hsubject]
  exact decide_eq_true rfl

/-- Whatever the limiter lets through, the requests of a subject that open a
session in a stretch of a run are no more than the charges that were allowed to
it there, however many bearers it has. -/
theorem session_load_bounded
    (h : Run (poolStep world) (start, pool server chrono requests) (a ++ b ++ rest) s)
    {is : Finset ι} (his : ∀ i ∈ is, Opens server requests subject a b i) :
    is.card ≤ b.countP fun ev => admits subject ev.event :=
  card_le_countP fun i hi => (his i hi).admitted h

theorem sample_opens :
    ∃ subject, Opens plainServer (fun _ => sampleRequest) subject [] samplePlay.1 () := by
  have hmcp : samplePlay.1.any (fun ev => isMcp ev.effect) := rfl
  obtain ⟨x, hx, he⟩ := List.any_eq_true.mp hmcp
  obtain ⟨before, after, hlog⟩ := List.append_of_mem hx
  obtain ⟨message, heffect⟩ := exists_mcp he
  have hserves : Serves x.effect := by
    rw [heffect]
    trivial
  have hrun := sample_run
  rw [hlog] at hrun
  obtain ⟨token, identity, hpassed⟩ := passed_of_serves (disciplined hrun) hserves
  exact ⟨identity.userId, rfl, fun x hx => absurd hx List.not_mem_nil, before, x, after, token,
    identity, hlog, rfl, hserves, hpassed.toAuthenticated, rfl⟩

theorem session_load_bounded_sample : ∃ subject,
    Opens plainServer (fun _ => sampleRequest) subject [] samplePlay.1 () ∧
    ({()} : Finset Unit).card ≤ samplePlay.1.countP fun ev => admits subject ev.event := by
  obtain ⟨subject, hopens⟩ := sample_opens
  have hrun := sample_run
  rw [← List.append_nil samplePlay.1] at hrun
  exact ⟨subject, hopens, session_load_bounded (a := []) hrun fun _ _ => hopens⟩

end CardDavMcp.SessionLoad
