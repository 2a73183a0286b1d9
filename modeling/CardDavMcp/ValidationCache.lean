import CardDavMcp.Library.BoundedTable
import CardDavMcp.LogtoOidc
import Mathlib.Tactic.Linarith
import Mathlib.Data.Rat.Floor

namespace CardDavMcp.ValidationCache

open Library.Utf8Text Library.Table Library.BoundedTable Library.Interaction Library.Runs LogtoOidc

/-- The two operations on cached validations. -/
inductive Call
  | validate (token : Text)
  | drop (token : Text)
deriving DecidableEq, Repr

def program (c : LogtoValidationClient) :
    Call → Prog Effect Reply (Except ValidationError (Option AuthenticatedIdentity))
  | .validate token => c.validateToken token
  | .drop token => do
    c.dropToken token
    return .ok none

def NoHit (tr : Trace Effect Reply) : Prop := ∀ key hit, ⟨.cacheLookup key, some hit⟩ ∉ tr

/-- A validation touches only the entry of its own token, stores only what it
has decoded, and does nothing more once the cache has answered. -/
def contract (c : LogtoValidationClient) : Call → Contract Effect Reply
  | .validate token =>
    { guar := fun tr e => NoHit tr ∧
        match e with
        | .cacheLookup key => key = c.hashToken token
        | .cacheInsert key identity exp => key = c.hashToken token ∧
            ∃ claims decodingKey v, identity = identityOf claims ∧ exp = some claims.exp ∧
              ⟨.decode token decodingKey v, some claims⟩ ∈ tr
        | .cacheRemove _ => False
        | .decodingKeyFor _ | .decode _ _ _ => True
      rely := fun _ _ => True }
  | .drop token =>
    { guar := fun _ e => e = .cacheRemove (c.hashToken token)
      rely := fun _ _ => True }

/-- A hit is what the call returns. -/
def Returned (tr : Trace Effect Reply)
    (result : Except ValidationError (Option AuthenticatedIdentity)) : Prop :=
  ∀ key hit, ⟨.cacheLookup key, some hit⟩ ∈ tr → result = .ok (some hit)

theorem NoHit.returned {tr : Trace Effect Reply} (h : NoHit tr)
    (result : Except ValidationError (Option AuthenticatedIdentity)) : Returned tr result :=
  fun key hit hmem => absurd hmem (h key hit)

theorem program_always (c : LogtoValidationClient) (call : Call) :
    Always (contract c call) Returned [] (program c call) := by
  cases call with
  | drop token =>
    refine ⟨rfl, fun _ _ => NoHit.returned (by simp [NoHit]) _⟩
  | validate token =>
    refine ⟨⟨by simp [NoHit], rfl⟩, fun hit _ => ?_⟩
    cases hit with
    | some hit =>
      intro key hit' h
      obtain ⟨-, rfl⟩ : key = c.hashToken token ∧ hit' = hit := by simpa using h
      rfl
    | none =>
      simp only [bind, Prog.bind]
      cases c.decodeHeader token with
      | none => exact NoHit.returned (by simp [NoHit]) _
      | some header =>
        obtain ⟨alg, kid⟩ := header
        cases kid with
        | none => exact NoHit.returned (by simp [NoHit]) _
        | some kid =>
          refine ⟨⟨by simp [NoHit], trivial⟩, fun found _ => ?_⟩
          obtain e | found := found
          · exact NoHit.returned (by simp [NoHit]) _
          obtain _ | decodingKey := found
          · exact NoHit.returned (by simp [NoHit]) _
          simp only [Prog.bind]
          split_ifs with halg
          · exact NoHit.returned (by simp [NoHit]) _
          refine ⟨⟨by simp [NoHit], trivial⟩, fun decoded _ => ?_⟩
          obtain _ | claims := decoded
          · exact NoHit.returned (by simp [NoHit]) _
          simp only [Prog.bind]
          split_ifs with haud
          · exact NoHit.returned (by simp [NoHit]) _
          refine ⟨⟨by simp [NoHit], rfl, claims, decodingKey, c.validation alg, rfl, rfl, by simp⟩,
            fun _ _ => ?_⟩
          exact NoHit.returned (by simp [NoHit]) _

/-- The effects that write the entry of a key. -/
def Touches (key : Key) : Effect → Prop
  | .cacheInsert k _ _ | .cacheRemove k => k = key
  | .cacheLookup _ | .decodingKeyFor _ | .decode _ _ _ => False

section Calls

variable {W ι : Type} [DecidableEq ι] {c : LogtoValidationClient} {calls : ι → Call}
  {a b : List (Act W ι Effect Reply)} {ev : Act W ι Effect Reply} {token : Text}
  {s : W × (ι → Prog Effect Reply (Except ValidationError (Option AuthenticatedIdentity)))}

/-- Every call of a run keeps its contract. -/
abbrev Kept (c : LogtoValidationClient) (calls : ι → Call) :=
  Sound (W := W) (fun i => contract c (calls i)) (fun _ => Returned) (fun _ => True)

/-- A full verification of a token counts at the insertion that ends it. -/
def Verifies (c : LogtoValidationClient) (calls : ι → Call) (ev : Act W ι Effect Reply)
    (token : Text) (claims : LogtoAccessTokenClaims) : Prop :=
  calls ev.call = .validate token ∧
    ev.effect = .cacheInsert (c.hashToken token) (identityOf claims) (some claims.exp)

/-- Behind every insertion for a token's key stands a decoding of that token. -/
theorem insert_verifies (h : Kept c calls (a ++ ev :: b) s) (hinj : Function.Injective c.hashToken)
    {identity : AuthenticatedIdentity} {exp : Option Int}
    (he : ev.effect = .cacheInsert (c.hashToken token) identity exp) :
    ∃ claims decodingKey v, Verifies c calls ev token claims ∧ identity = identityOf claims ∧
      exp = some claims.exp ∧
      ⟨.decode token decodingKey v, some claims⟩ ∈ traceOf ev.call a := by
  have hguar := (h.acts a ev b rfl).1
  rw [he] at hguar
  cases hcall : calls ev.call with
  | drop token' => simp [contract, hcall] at hguar
  | validate token' =>
    simp only [contract, hcall] at hguar
    obtain ⟨-, hkey, claims, decodingKey, v, rfl, rfl, hmem⟩ := hguar
    obtain rfl := hinj hkey
    exact ⟨claims, decodingKey, v, ⟨hcall, he⟩, rfl, rfl, hmem⟩

theorem lookup_own_key (h : Kept c calls (a ++ ev :: b) s) (hcall : calls ev.call = .validate token)
    {key : Key} (he : ev.effect = .cacheLookup key) : key = c.hashToken token := by
  have hguar := (h.acts a ev b rfl).1
  simp only [contract, hcall, he] at hguar
  exact hguar.2

/-- Every step of a drop writes the entry of its token. -/
theorem drop_touches (h : Kept c calls (a ++ ev :: b) s) (hcall : calls ev.call = .drop token) :
    Touches (c.hashToken token) ev.effect := by
  have hguar := (h.acts a ev b rfl).1
  simp only [contract, hcall] at hguar
  rw [hguar]
  rfl

/-- Once the cache has answered, the call has returned what it said. -/
theorem hit_is_returned {log : List (Act W ι Effect Reply)} {i : ι} {key : Key}
    {hit : AuthenticatedIdentity} (h : Kept c calls log s) (hcall : calls i = .validate token)
    (hhit : ⟨.cacheLookup key, some hit⟩ ∈ traceOf i log) : s.2 i = .done (.ok (some hit)) := by
  have hi := h.calls i
  cases hp : s.2 i with
  | done result => rw [h.returned hp key hit hhit]
  | act e k =>
    rw [hp] at hi
    have hguar := hi.1
    simp only [contract, hcall] at hguar
    exact absurd hhit (hguar.1 key hit)

theorem pool_keeps_contract {world : W → (e : Effect) → Reply e → W → Prop} {w : W}
    {log : List (Act W ι Effect Reply)}
    (h : Run (poolStep world) (w, fun i => program c (calls i)) log s) : Kept c calls log s := by
  refine pool_sound ?_ trivial (fun i => program_always c (calls i)) h
  intro i tr w e r w' _ _ _
  refine ⟨?_, trivial⟩
  cases calls i <;> trivial

end Calls

section World

variable {𝕜 : Type} [Field 𝕜] [LinearOrder 𝕜] [IsStrictOrderedRing 𝕜] [FloorRing 𝕜]

structure World (𝕜 : Type) where
  cache : Cache 𝕜
  now : 𝕜

/-- The expiry check of the JWT library, with its default leeway of a minute. -/
def expiryPasses (now exp : Int) : Prop := ¬ exp < now - 60

/-- Each access to the cache is atomic and reads a clock that does not go
back. What the network and the JWT library say is left open. -/
inductive Answers : World 𝕜 → (e : Effect) → Reply e → World 𝕜 → Prop
  | lookup {w : World 𝕜} {t : 𝕜} (key : Key) (ht : w.now ≤ t) :
      Answers w (.cacheLookup key) (cacheLookup t key w.cache) ⟨w.cache, t⟩
  | decodingKey {w : World 𝕜} {t : 𝕜} (kid : Text) (reply : Reply (.decodingKeyFor kid))
      (ht : w.now ≤ t) : Answers w (.decodingKeyFor kid) reply ⟨w.cache, t⟩
  | decode {w : World 𝕜} {t : 𝕜} (token : Text) (key : DecodingKey) (v : Validation)
      (reply : Reply (.decode token key v)) (ht : w.now ≤ t) :
      Answers w (.decode token key v) reply ⟨w.cache, t⟩
  | insert {w : World 𝕜} {t : 𝕜} (order : IterOrder Key (CacheEntry 𝕜)) (key : Key)
      (identity : AuthenticatedIdentity) (exp : Option Int) (ht : w.now ≤ t) :
      Answers w (.cacheInsert key identity exp) () ⟨cacheInsert order t key identity exp w.cache, t⟩
  | remove {w : World 𝕜} {t : 𝕜} (key : Key) (ht : w.now ≤ t) :
      Answers w (.cacheRemove key) () ⟨w.cache.erase key, t⟩

omit [IsStrictOrderedRing 𝕜] in
/-- An insertion stores its own entry and brings in no other. -/
theorem lookup_cacheInsert {order : IterOrder Key (CacheEntry 𝕜)} {now : 𝕜} {key k : Key}
    {identity : AuthenticatedIdentity} {exp : Option Int} {cache : Cache 𝕜} {e : CacheEntry 𝕜}
    (h : (cacheInsert order now key identity exp cache).lookup k = some e) :
    (k = key ∧ e = ⟨identity, now + cacheTtl now exp⟩) ∨ (k ≠ key ∧ cache.lookup k = some e) := by
  have hinserts : Inserts CACHE_CAP CacheEntry.expiresAt (fun e => decide (e.expiresAt > now)) key
      ⟨identity, now + cacheTtl now exp⟩ cache (cacheInsert order now key identity exp cache) :=
    inserts_insertCapped (by decide)
  exact hinserts.lookup h

omit [Field 𝕜] [IsStrictOrderedRing 𝕜] [FloorRing 𝕜] in
theorem cacheLookup_eq_some {now : 𝕜} {key : Key} {cache : Cache 𝕜} {hit : AuthenticatedIdentity}
    (h : cacheLookup now key cache = some hit) :
    ∃ e, cache.lookup key = some e ∧ now < e.expiresAt ∧ e.identity = hit := by
  rw [cacheLookup] at h
  cases he : cache.lookup key with
  | none => simp [he] at h
  | some e =>
    simp only [he, Option.ite_none_right_eq_some, Option.some.injEq] at h
    exact ⟨e, rfl, h⟩

/-- An entry still alive at a later time was made less than a minute before
it, before the token's expiry, and the expiry is at most a second past. -/
theorem alive_bounds {made now : 𝕜} (exp : Int) (hle : made ≤ now)
    (halive : now < made + cacheTtl made (some exp)) :
    now < made + 60 ∧ now < exp + 1 ∧ made < exp := by
  have hminute : cacheTtl made (some exp) ≤ 60 := by
    simp [cacheTtl, MAX_CACHE_TTL]
  have hrest : cacheTtl made (some exp) ≤ ((max (exp - nowUnix made) 0 : Int) : 𝕜) :=
    min_le_left _ _
  have hpos : 0 < max (exp - nowUnix made) 0 := by
    have : (0 : 𝕜) < ((max (exp - nowUnix made) 0 : Int) : 𝕜) := by linarith
    exact_mod_cast this
  have hfloor : ⌊made⌋ < exp := by
    rw [nowUnix] at hpos
    omega
  have hmax : max (exp - nowUnix made) 0 = exp - ⌊made⌋ := by
    rw [nowUnix] at hpos ⊢
    omega
  rw [hmax, Int.cast_sub] at hrest
  have hle' : (⌊made⌋ : 𝕜) + 1 ≤ exp := by exact_mod_cast hfloor
  have hlt := Int.lt_floor_add_one made
  have hge := Int.floor_le made
  refine ⟨by linarith, by linarith, by linarith⟩

section Answers

variable {w w' : World 𝕜} {e : Effect} {r : Reply e} {key : Key} {entry : CacheEntry 𝕜}

omit [IsStrictOrderedRing 𝕜] in
theorem Answers.now_le (h : Answers w e r w') : w.now ≤ w'.now := by
  cases h <;> assumption

omit [IsStrictOrderedRing 𝕜] in
theorem Answers.lookup_eq {r : Reply (.cacheLookup key)} (h : Answers w (.cacheLookup key) r w') :
    r = cacheLookup w'.now key w.cache := by
  cases h
  rfl

omit [IsStrictOrderedRing 𝕜] in
/-- An entry is either the one just inserted or was there before, untouched. -/
theorem Answers.stored (h : Answers w e r w') (hentry : w'.cache.lookup key = some entry) :
    (∃ identity exp, e = .cacheInsert key identity exp ∧
      entry = ⟨identity, w'.now + cacheTtl w'.now exp⟩) ∨
    (¬ Touches key e ∧ w.cache.lookup key = some entry) := by
  cases h with
  | lookup | decodingKey | decode => exact .inr ⟨id, hentry⟩
  | insert order k identity exp ht =>
    obtain ⟨rfl, he⟩ | ⟨hk, he⟩ := lookup_cacheInsert hentry
    · exact .inl ⟨identity, exp, rfl, he⟩
    · exact .inr ⟨fun h => hk h.symm, he⟩
  | remove k ht =>
    by_cases hk : k = key
    · subst hk
      simp at hentry
    · rw [AList.lookup_erase_ne (Ne.symm hk)] at hentry
      exact .inr ⟨hk, hentry⟩

end Answers

section Run

variable {ι : Type} [DecidableEq ι]

/-- Every stored entry is what the last step that wrote its key inserted. -/
def Remembers (log : List (Act (World 𝕜) ι Effect Reply)) (w : World 𝕜) : Prop :=
  ∀ key entry, w.cache.lookup key = some entry → ∃ a ins b identity exp,
    log = a ++ ins :: b ∧ ins.effect = .cacheInsert key identity exp ∧
    (∀ ev ∈ b, ¬ Touches key ev.effect) ∧
    entry = ⟨identity, ins.after.now + cacheTtl ins.after.now exp⟩ ∧ ins.after.now ≤ w.now

omit [IsStrictOrderedRing 𝕜] [DecidableEq ι] in
theorem Remembers.step {log : List (Act (World 𝕜) ι Effect Reply)} {w : World 𝕜}
    {ev : Act (World 𝕜) ι Effect Reply} (h : Remembers log w)
    (hw : Answers w ev.effect ev.reply ev.after) : Remembers (log ++ [ev]) ev.after := by
  intro key entry hentry
  obtain ⟨identity, exp, he, rfl⟩ | ⟨hkeep, hold⟩ := hw.stored hentry
  · exact ⟨log, ev, [], identity, exp, rfl, he, by simp, rfl, le_rfl⟩
  · obtain ⟨a, ins, b, identity, exp, rfl, hins, hb, hval, hle⟩ := h key entry hold
    refine ⟨a, ins, b ++ [ev], identity, exp, by simp, hins, ?_, hval, hle.trans hw.now_le⟩
    intro ev' hev'
    obtain hev' | hev' := List.mem_append.mp hev'
    · exact hb ev' hev'
    · rw [List.mem_singleton.mp hev']
      exact hkeep

omit [IsStrictOrderedRing 𝕜] in
theorem Remembers.run {t₀ : 𝕜}
    {pool : ι → Prog Effect Reply (Except ValidationError (Option AuthenticatedIdentity))}
    {log : List (Act (World 𝕜) ι Effect Reply)} {s : World 𝕜 × (ι → Prog Effect Reply _)}
    (h : Run (poolStep Answers) (⟨∅, t₀⟩, pool) log s) : Remembers log s.1 := by
  apply h.invariant (fun _ => True)
  · intros
    trivial
  · intro key entry h
    simp at h
  · intro log s ev s' hinv _ ⟨_, hafter, hw, _⟩
    rw [← hafter] at hw ⊢
    exact hinv.step hw
  · trivial

/-- What an answer given at a time is worth: it comes from the latest full
verification of the token, which is less than a minute old and came before the
token's expiry, and no drop of the token lies between. -/
def FreshHit (c : LogtoValidationClient) (calls : ι → Call)
    (a : List (Act (World 𝕜) ι Effect Reply))
    (token : Text) (hit : AuthenticatedIdentity) (t : 𝕜) : Prop :=
  ∃ a' ins between claims decodingKey v, a = a' ++ ins :: between ∧
    Verifies c calls ins token claims ∧
    ⟨.decode token decodingKey v, some claims⟩ ∈ traceOf ins.call a' ∧
    hit = identityOf claims ∧
    (∀ ev ∈ between, calls ev.call ≠ .drop token ∧ ∀ claims', ¬ Verifies c calls ev token claims') ∧
    ins.after.now ≤ t ∧ t < ins.after.now + 60 ∧
    ins.after.now < (claims.exp : 𝕜) ∧ t < (claims.exp : 𝕜) + 1 ∧
    expiryPasses (nowUnix t) claims.exp

/-- Whatever the interleaving of validations and drops, every answer from the
cache is fresh. -/
theorem cache_hit_sound (c : LogtoValidationClient) (hinj : Function.Injective c.hashToken)
    (t₀ : 𝕜) (calls : ι → Call) (log : List (Act (World 𝕜) ι Effect Reply))
    (s : World 𝕜 × (ι → Prog Effect Reply (Except ValidationError (Option AuthenticatedIdentity))))
    (h : Run (poolStep Answers) (⟨∅, t₀⟩, fun i => program c (calls i)) log s)
    (a b : List (Act (World 𝕜) ι Effect Reply)) (look : Act (World 𝕜) ι Effect Reply)
    (hlog : log = a ++ look :: b) (token : Text) (hcall : calls look.call = .validate token)
    (key : Key) (hit : AuthenticatedIdentity)
    (hlook : look.event = ⟨.cacheLookup key, some hit⟩) :
    s.2 look.call = .done (.ok (some hit)) ∧ FreshHit c calls a token hit look.after.now := by
  subst hlog
  have hkept : Kept c calls (a ++ look :: b) s := pool_keeps_contract h
  obtain ⟨call, effect, reply, before, after⟩ := look
  obtain ⟨rfl, hreply⟩ := Sigma.mk.inj hlook
  obtain rfl := eq_of_heq hreply
  obtain rfl := lookup_own_key hkept hcall rfl
  refine ⟨hit_is_returned hkept hcall
    (mem_traceOf (List.mem_append_right _ List.mem_cons_self)), ?_⟩
  obtain ⟨w, w', ha, ⟨hbefore, hafter, hw, -⟩, -⟩ := h.split
  simp only at hbefore hafter hw
  subst hafter
  obtain ⟨entry, hentry, halive, rfl⟩ := cacheLookup_eq_some hw.lookup_eq.symm
  obtain ⟨a', ins, between, identity, exp, rfl, hins, hbetween, rfl, hle⟩ :=
    Remembers.run ha _ _ hentry
  simp only [List.append_assoc, List.cons_append] at hkept
  obtain ⟨claims, decodingKey, v, hver, rfl, rfl, hdec⟩ := insert_verifies hkept hinj hins
  obtain ⟨hminute, hexp, hbefore⟩ := alive_bounds claims.exp (hle.trans hw.now_le) halive
  refine ⟨a', ins, between, claims, decodingKey, v, rfl, hver, hdec, rfl, ?_,
    hle.trans hw.now_le, hminute, hbefore, hexp, ?_⟩
  · intro ev hev
    refine ⟨fun hdrop => hbetween ev hev ?_, fun claims' hver' => hbetween ev hev ?_⟩
    · obtain ⟨b₁, b₂, rfl⟩ := List.append_of_mem hev
      rw [List.append_assoc, List.cons_append, ← List.cons_append, ← List.append_assoc] at hkept
      exact drop_touches hkept hdrop
    · rw [hver'.2]
      rfl
  · have hfloor : ⌊w'.1.now⌋ < claims.exp + 1 := Int.floor_lt.mpr (by exact_mod_cast hexp)
    simp only [expiryPasses, nowUnix]
    omega

end Run

end World

section Sample

/-- A client whose hash is the token's own bytes. -/
def sampleClient : LogtoValidationClient where
  expectedAudiences := ["r".toList]
  expectedIssuer := "i".toList
  hashToken token := (String.ofList token).toByteArray.data.toList
  decodeHeader token := if token = "jwt".toList then some ⟨.RS256, some "k".toList⟩ else none

theorem sampleClient_injective : Function.Injective sampleClient.hashToken := by
  intro s t h
  have hbytes : (String.ofList s).toByteArray = (String.ofList t).toByteArray :=
    ByteArray.ext (Array.toList_inj.mp h)
  exact String.ofList_inj.mp (String.toByteArray_inj.mp hbytes)

def sampleClaims : LogtoAccessTokenClaims :=
  { sub := "u".toList, aud := .single "r".toList, exp := 100 }

def sampleKey : Key := sampleClient.hashToken "jwt".toList

def sampleCache : Cache ℚ :=
  cacheInsert .asStored 3 sampleKey (identityOf sampleClaims) (some 100) ∅

theorem sampleCache_hit :
    cacheLookup 62 sampleKey sampleCache = some (identityOf sampleClaims) := by
  have httl : cacheTtl (3 : ℚ) (some 100) = 60 := by
    simp only [cacheTtl, nowUnix, MAX_CACHE_TTL, Int.floor_ofNat]
    norm_num
  have hlive : (62 : ℚ) < 3 + 60 := by norm_num
  simpa [cacheLookup, sampleCache, cacheInsert, httl] using hlive

/-- The first call verifies the token, the second finds it in the cache. -/
def sampleLog : List (Act (World ℚ) Bool Effect Reply) :=
  [⟨false, .cacheLookup sampleKey, none, ⟨∅, 0⟩, ⟨∅, 0⟩⟩,
   ⟨false, .decodingKeyFor "k".toList, .ok (some ⟨[1]⟩), ⟨∅, 0⟩, ⟨∅, 1⟩⟩,
   ⟨false, .decode "jwt".toList ⟨[1]⟩ (sampleClient.validation .RS256), some sampleClaims,
     ⟨∅, 1⟩, ⟨∅, 2⟩⟩,
   ⟨false, .cacheInsert sampleKey (identityOf sampleClaims) (some 100), (), ⟨∅, 2⟩,
     ⟨sampleCache, 3⟩⟩]

def sampleLook : Act (World ℚ) Bool Effect Reply :=
  ⟨true, .cacheLookup sampleKey, some (identityOf sampleClaims), ⟨sampleCache, 3⟩,
    ⟨sampleCache, 62⟩⟩

def sampleStart :
    World ℚ × (Bool → Prog Effect Reply (Except ValidationError (Option AuthenticatedIdentity))) :=
  (⟨∅, 0⟩, fun _ => program sampleClient (.validate "jwt".toList))

theorem sample_run : ∃ s, Run (poolStep Answers) sampleStart (sampleLog ++ [sampleLook]) s := by
  refine ⟨_, .cons (poolStep_act rfl ?_) (.cons (poolStep_act rfl ?_) (.cons (poolStep_act rfl ?_)
    (.cons (poolStep_act rfl ?_) (.cons (poolStep_act rfl ?_) .nil))))⟩
  · exact .lookup sampleKey le_rfl
  · exact .decodingKey _ _ zero_le_one
  · exact .decode _ _ _ _ one_le_two
  · exact .insert .asStored sampleKey _ _ (by norm_num)
  · rw [← sampleCache_hit]
    exact .lookup sampleKey (by norm_num)

theorem cache_hit_sound_sample :
    ∃ s, Run (poolStep Answers) sampleStart (sampleLog ++ [sampleLook]) s ∧
    s.2 true = .done (.ok (some (identityOf sampleClaims))) ∧
    FreshHit sampleClient (fun _ => .validate "jwt".toList) sampleLog "jwt".toList
      (identityOf sampleClaims) 62 := by
  obtain ⟨s, hs⟩ := sample_run
  exact ⟨s, hs,
    cache_hit_sound sampleClient sampleClient_injective 0 _ _ s hs sampleLog [] sampleLook rfl
    _ rfl _ _ rfl⟩

end Sample

end CardDavMcp.ValidationCache
