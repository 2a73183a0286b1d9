import CardDavMcp.ServedRequests

namespace CardDavMcp.ServerWorld

open Library.Utf8Text Library.Table Library.BoundedTable Library.Interaction Library.Runs LastUsed
  McpRoutes RequestDiscipline ServedRequests
open RateLimit (RejectedBy)

variable {𝕜 Ip : Type} [Field 𝕜] [LinearOrder 𝕜] [IsStrictOrderedRing 𝕜] [FloorRing 𝕜]

/-- What the requests share: the validated tokens and the wall clock, and the last
uses. -/
structure World (𝕜 Ip : Type) where
  validations : LogtoOidc.Cache 𝕜
  now : 𝕜
  lastUsed : LastUsedTracker Ip

/-- Each access to the shared state is atomic. What the issuer, rmcp, the two
limiters and the server of the cards say is left open. -/
inductive Answers (server : Server Ip) : World 𝕜 Ip → (e : Effect Ip) → Reply e → World 𝕜 Ip → Prop
  | oidc {w : World 𝕜 Ip} {e : LogtoOidc.Effect} {r : LogtoOidc.Reply e}
      {v : ValidationCache.World 𝕜} (h : ValidationCache.Answers ⟨w.validations, w.now⟩ e r v) :
      Answers server w (.oidc e) r { w with validations := v.cache, now := v.now }
  | dropToken {w : World 𝕜 Ip} {t : 𝕜} (token : Text) (ht : w.now ≤ t) :
      Answers server w (.tool (.dropToken token)) ()
        { w with validations := w.validations.erase (server.logto.hashToken token), now := t }
  | record {w : World 𝕜 Ip} (order : IterOrder Text (LastUsedRecord Ip)) (usedAt : Nat)
      (tokenHash : Text) (ip : Option Ip) : Answers server w (.record tokenHash ip) ()
        { w with lastUsed := LastUsed.record order usedAt tokenHash ip w.lastUsed }
  | lastUsed {w : World 𝕜 Ip} (tokenHash : Text) :
      Answers server w (.lastUsed tokenHash) (LastUsed.get tokenHash w.lastUsed) w
  | initializeCheck {w : World 𝕜 Ip} (bearerHash : Text) (sub : Option Text)
      (reply : Except RejectedBy Unit) :
      Answers server w (.initializeCheck bearerHash sub) reply w
  | mcp {w : World 𝕜 Ip} (request : Request) (reply : McpReply) :
      Answers server w (.mcp request) reply w
  | tool {w : World 𝕜 Ip} (e : DavClient.Effect) (reply : DavClient.Reply e)
      (he : ∀ token, e ≠ .dropToken token) : Answers server w (.tool e) reply w

/-- The effects that write the cached validation of a key. -/
def Touches (server : Server Ip) (key : LogtoOidc.Key) : Effect Ip → Prop
  | .oidc e => ValidationCache.Touches key e
  | .tool (.dropToken token) => server.logto.hashToken token = key
  | _ => False

section Answers

variable {server : Server Ip} {w w' : World 𝕜 Ip} {e : Effect Ip} {r : Reply e}
  {key : LogtoOidc.Key} {entry : LogtoOidc.CacheEntry 𝕜}

omit [IsStrictOrderedRing 𝕜] in
theorem Answers.now_le (h : Answers server w e r w') : w.now ≤ w'.now := by
  cases h with
  | oidc h => exact h.now_le
  | dropToken token ht => exact ht
  | _ => exact le_rfl

omit [IsStrictOrderedRing 𝕜] in
theorem Answers.looked_up {r : Reply (.oidc (.cacheLookup key) : Effect Ip)}
    (h : Answers server w (.oidc (.cacheLookup key)) r w') :
    r = LogtoOidc.cacheLookup w'.now key w.validations ∧ w.now ≤ w'.now := by
  cases h with
  | oidc h => exact ⟨h.lookup_eq, h.now_le⟩

omit [IsStrictOrderedRing 𝕜] in
/-- A cached validation is either the one just inserted or was there before,
untouched. -/
theorem Answers.stored (h : Answers server w e r w')
    (hentry : w'.validations.lookup key = some entry) :
    (∃ identity exp, e = .oidc (.cacheInsert key identity exp) ∧
      entry = ⟨identity, w'.now + LogtoOidc.cacheTtl w'.now exp⟩) ∨
    (¬ Touches server key e ∧ w.validations.lookup key = some entry) := by
  cases h with
  | oidc h =>
    obtain ⟨identity, exp, rfl, hval⟩ | hold := h.stored hentry
    · exact .inl ⟨identity, exp, rfl, hval⟩
    · exact .inr hold
  | dropToken token ht =>
    by_cases hkey : server.logto.hashToken token = key
    · subst hkey
      simp at hentry
    · rw [AList.lookup_erase_ne (Ne.symm hkey)] at hentry
      exact .inr ⟨hkey, hentry⟩
  | tool e _ he =>
    cases e with
    | dropToken token => exact absurd rfl (he token)
    | _ => exact .inr ⟨id, hentry⟩
  | _ => exact .inr ⟨id, hentry⟩

omit [IsStrictOrderedRing 𝕜] in
theorem Answers.used {tokenHash : Text} {r : Reply (.lastUsed tokenHash : Effect Ip)}
    (h : Answers server w (.lastUsed tokenHash) r w') : r = LastUsed.get tokenHash w.lastUsed := by
  cases h
  rfl

omit [IsStrictOrderedRing 𝕜] in
/-- Only a record writes the last uses. -/
theorem Answers.recorded (h : Answers server w e r w') :
    (∃ tokenHash ip usedAt, e = .record tokenHash ip ∧
      Inserts MAX_ENTRIES LastUsedRecord.usedAt (fun _ => true) tokenHash ⟨usedAt, ip⟩ w.lastUsed
        w'.lastUsed) ∨
    (∀ tokenHash ip, e ≠ .record tokenHash ip) ∧ w'.lastUsed = w.lastUsed := by
  cases h with
  | record order usedAt tokenHash ip =>
    refine .inl ⟨tokenHash, ip, usedAt, rfl, ?_⟩
    rw [record_eq]
    exact inserts_insertCapped (by decide)
  | _ => exact .inr ⟨by simp, rfl⟩

end Answers

section Run

variable {ι α : Type} [DecidableEq ι] {server : Server Ip} {start : World 𝕜 Ip}
  {calls : ι → Prog (Effect Ip) Reply α} {log : List (Act (World 𝕜 Ip) ι (Effect Ip) Reply)}
  {s : World 𝕜 Ip × (ι → Prog (Effect Ip) Reply α)}

omit [IsStrictOrderedRing 𝕜] in
theorem now_le_of_run (h : Run (poolStep (Answers server)) (start, calls) log s) :
    start.now ≤ s.1.now := by
  induction h with
  | nil => exact le_rfl
  | snoc _ hs ih => exact ih.trans hs.2.2.1.now_le

omit [IsStrictOrderedRing 𝕜] in
/-- A cached validation is what the last step that wrote its key inserted. -/
theorem inserted_of_run (hempty : start.validations = ∅)
    (h : Run (poolStep (Answers server)) (start, calls) log s) {key : LogtoOidc.Key}
    {entry : LogtoOidc.CacheEntry 𝕜} (hentry : s.1.validations.lookup key = some entry) :
    ∃ a ins b identity exp, log = a ++ ins :: b ∧
      ins.effect = .oidc (.cacheInsert key identity exp) ∧
      entry = ⟨identity, ins.after.now + LogtoOidc.cacheTtl ins.after.now exp⟩ ∧
      ins.after.now ≤ s.1.now ∧ ∀ x ∈ b, ¬ Touches server key x.effect := by
  obtain ⟨hstart, -⟩ | ⟨a, ins, b, rfl, ⟨identity, exp, he, hval⟩, hb⟩ := h.provenance
    (fun s key entry => s.1.validations.lookup key = some entry)
    (fun ev key entry => ∃ identity exp, ev.effect = .oidc (.cacheInsert key identity exp) ∧
      entry = ⟨identity, ev.after.now + LogtoOidc.cacheTtl ev.after.now exp⟩)
    (fun ev key => Touches server key ev.effect)
    (fun s ev t key entry hs hentry => by
      obtain ⟨-, hafter, hw, -⟩ := hs
      rw [hafter]
      exact hw.stored hentry) hentry
  · rw [hempty] at hstart
    simp at hstart
  · obtain ⟨t, t', -, ⟨-, hafter, -⟩, hrest⟩ := h.split
    refine ⟨a, ins, b, identity, exp, rfl, he, hval, ?_, hb⟩
    rw [hafter]
    exact now_le_of_run hrest

end Run

end CardDavMcp.ServerWorld
