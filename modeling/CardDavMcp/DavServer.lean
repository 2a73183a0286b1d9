import CardDavMcp.DavClient

namespace CardDavMcp.DavServer

open Library.Utf8Text Urls DavClient

def isEtagChar (c : Char) : Bool := c.toNat = 0x21 || (0x23 ≤ c.toNat && c.toNat ≠ 0x7F)

def isOpaqueTag : Text → Bool
  | '"' :: rest => rest.getLast? = some '"' && rest.dropLast.all isEtagChar
  | _ => false

/-- An entity-tag: a quoted string, perhaps marked as weak. -/
def isEntityTag : Text → Bool
  | 'W' :: '/' :: rest => isOpaqueTag rest
  | tag => isOpaqueTag tag

/-- The entity-tags in the value of a header, each with whether it is weak, read
from outside any tag or from inside one whose first characters are given. -/
def tagsFrom : Option (Bool × Text) → Text → List (Bool × Text)
  | _, [] => []
  | none, 'W' :: '/' :: '"' :: rest => tagsFrom (some (true, [])) rest
  | none, c :: rest => tagsFrom (if c = '"' then some (false, []) else none) rest
  | some (weak, body), c :: rest =>
    if c = '"' then (weak, '"' :: body ++ ['"']) :: tagsFrom none rest
    else tagsFrom (some (weak, body ++ [c])) rest

def opaqueTag : Text → Text
  | 'W' :: '/' :: rest => rest
  | tag => tag

/-- Whether a precondition `If-Match` lets a write replace the current tag. Weak
tags match nothing here, and like strong ones in `If-None-Match`. -/
def ifMatch (value : Text) : Option Text → Bool
  | none => false
  | some tag => trim value = ['*'] || (tagsFrom none value).contains (false, tag)

def ifNoneMatch (value : Text) : Option Text → Bool
  | none => true
  | some tag =>
    trim value ≠ ['*'] && !(tagsFrom none value).any (fun listed => listed.2 = opaqueTag tag)

def isVisible (tag : Text) : Bool := tag.all (fun c => 0x20 ≤ c.toNat && c.toNat < 0x7F)

def headerBytes (value : Text) : Bytes := value.map (fun c => UInt8.ofNat c.toNat)

theorem opaque_shape {tag : Text} (h : isOpaqueTag tag) :
    ∃ body, tag = '"' :: body ++ ['"'] ∧ '"' ∉ body := by
  unfold isOpaqueTag at h
  split at h
  · rename_i rest
    rw [Bool.and_eq_true, decide_eq_true_eq, List.all_eq_true] at h
    obtain ⟨hlast, hbody⟩ := h
    refine ⟨rest.dropLast, ?_, fun hmem => ?_⟩
    · rw [List.cons_append, List.dropLast_append_getLast? _ hlast]
    · have := hbody _ hmem
      simp [isEtagChar] at this
  · cases h

theorem tagsFrom_body {weak : Bool} {seen body : Text} (h : '"' ∉ body) :
    tagsFrom (some (weak, seen)) (body ++ ['"']) =
      [(weak, '"' :: (seen ++ body) ++ ['"'])] := by
  induction body generalizing seen with
  | nil => simp [tagsFrom]
  | cons c body ih =>
    rw [List.mem_cons, not_or] at h
    rw [List.cons_append, tagsFrom, if_neg (Ne.symm h.1), ih h.2]
    simp

/-- A header that is one entity-tag selects at most this tag. -/
theorem ifMatch_single {e tag : Text} (he : isEntityTag e)
    (h : ifMatch e (some tag)) : tag = e := by
  have hquote : '"' ∈ e := by
    unfold isEntityTag at he
    split at he
    all_goals
      obtain ⟨body, rfl, -⟩ := opaque_shape he
      simp
  have htrim : trim e ≠ ['*'] := by
    intro htrim
    have hmem := mem_trim (by decide) hquote
    rw [htrim] at hmem
    exact absurd hmem (by decide)
  simp only [ifMatch, htrim, decide_false, Bool.false_or, List.contains_iff_mem] at h
  unfold isEntityTag at he
  split at he
  · obtain ⟨body, rfl, hbody⟩ := opaque_shape he
    rw [List.cons_append, tagsFrom, tagsFrom_body hbody] at h
    simp at h
  · obtain ⟨body, rfl, hbody⟩ := opaque_shape he
    have hopen : tagsFrom none ('"' :: (body ++ ['"'])) =
      tagsFrom (some (false, [])) (body ++ ['"']) := rfl
    rw [List.cons_append, hopen, tagsFrom_body hbody] at h
    simpa using h

/-- A visible tag comes through a header unchanged. -/
theorem headerToStr_bytes {tag : Text} (h : isVisible tag) :
    headerToStr (headerBytes tag) = some tag := by
  rw [isVisible, List.all_eq_true] at h
  have hbyte (c : Char) (hc : c ∈ tag) : 0x20 ≤ c.toNat ∧ c.toNat < 0x7F := by simpa using h c hc
  have hnat (c : Char) (hc : c ∈ tag) : (UInt8.ofNat c.toNat).toNat = c.toNat := by
    have := hbyte c hc
    rw [UInt8.toNat_ofNat']
    omega
  have hall : (headerBytes tag).all (fun b => (32 ≤ b && b < 127) || b = 9) = true := by
    rw [headerBytes, List.all_map, List.all_eq_true]
    intro c hc
    have hrange := hbyte c hc
    rw [← hnat c hc] at hrange
    have hle : (32 : UInt8) ≤ UInt8.ofNat c.toNat := UInt8.le_iff_toNat_le.mpr hrange.1
    have hlt : UInt8.ofNat c.toNat < (127 : UInt8) := UInt8.lt_iff_toNat_lt.mpr hrange.2
    simp [hle, hlt]
  rw [headerToStr, if_pos hall, headerBytes, List.map_map]
  refine congrArg some ((List.map_congr_left fun c hc => ?_).trans (List.map_id tag))
  simp [hnat c hc]

structure Version where
  etag : Text
  body : Bytes
deriving DecidableEq, Repr

def utf8 (s : Text) : Bytes := (String.ofList s).toByteArray.data.toList

/-- A server: the current version of each resource, and the tags that it has
given out for the resource so far. -/
structure Server (ρ : Type) where
  files : ρ → Option Version
  issued : ρ → List Text
  current : ∀ r v, files r = some v → v.etag ∈ issued r ∧ isEntityTag v.etag ∧ isVisible v.etag

section Server

variable {ρ : Type} [DecidableEq ρ]

def Server.put (s : Server ρ) (r : ρ) (v : Version) (htag : isEntityTag v.etag)
    (hvisible : isVisible v.etag) : Server ρ where
  files := Function.update s.files r (some v)
  issued := Function.update s.issued r (v.etag :: s.issued r)
  current r' v' h := by
    by_cases hr : r' = r
    · subst hr
      rw [Function.update_self, Option.some.injEq] at h
      subst h
      simp [htag, hvisible]
    · rw [Function.update_of_ne hr] at h ⊢
      exact s.current r' v' h

def Server.delete (s : Server ρ) (r : ρ) : Server ρ where
  files := Function.update s.files r none
  issued := s.issued
  current r' v' h := by
    by_cases hr : r' = r
    · subst hr
      simp at h
    · rw [Function.update_of_ne hr] at h
      exact s.current r' v' h

def precondition (request : DavRequest) (tag : Option Text) : Bool :=
  ((request.header "if-match").all (fun value => ifMatch value tag)) &&
    ((request.header "if-none-match").all (fun value => ifNoneMatch value tag))

/-- A response that carries a version: its tag, and its text unless the
connection breaks. -/
def Serves (v : Version) (response : RawResponse) : Prop :=
  response.etag = some (headerBytes v.etag) ∧
    ((∃ e, .error e ∈ response.chunks) ∨
      ∃ chunks : List Bytes, response.chunks = chunks.map .ok ∧ chunks.flatten = v.body)

/-- The answers that say that a precondition failed or that nothing is there. -/
def Denied (reply : Except String RawResponse) : Prop :=
  ∃ response, reply = .ok response ∧ response.status ∈ [404, 409, 412]

def Confirmed (reply : Except String RawResponse) : Prop :=
  ∃ response, reply = .ok response ∧ response.status ∈ [200, 201, 204]

/-- What a server makes of one request. The answer may get lost. -/
inductive ServerStep (locate : Url → ρ) : Server ρ → DavRequest → Except String RawResponse →
    Server ρ → Prop
  | lost {s : Server ρ} {request : DavRequest} (e : String) :
    ServerStep locate s request (.error e) s
  | read {s : Server ρ} {request : DavRequest} (response : RawResponse)
      (hread : request.method = .get ∨ request.method = .propfind ∨ request.method = .report)
      (hserves : request.method = .get → response.status = 200 →
        ∃ v, s.files (locate request.url) = some v ∧ Serves v response) :
      ServerStep locate s request (.ok response) s
  | refuse {s : Server ρ} {request : DavRequest} (response : RawResponse)
      (hwrite : request.method = .put ∨ request.method = .delete)
      (hrefuse : ¬ Confirmed (.ok response)) : ServerStep locate s request (.ok response) s
  | put {s : Server ρ} {request : DavRequest} (reply : Except String RawResponse) (v : Version)
      (hput : request.method = .put)
      (hpre : precondition request ((s.files (locate request.url)).map Version.etag))
      (hbody : v.body = utf8 request.body) (hfresh : v.etag ∉ s.issued (locate request.url))
      (htag : isEntityTag v.etag) (hvisible : isVisible v.etag) (hreply : ¬ Denied reply) :
      ServerStep locate s request reply (s.put (locate request.url) v htag hvisible)
  | delete {s : Server ρ} {request : DavRequest} (reply : Except String RawResponse) (v : Version)
      (hdelete : request.method = .delete) (hfile : s.files (locate request.url) = some v)
      (hpre : precondition request (some v.etag)) (hreply : ¬ Denied reply) :
      ServerStep locate s request reply (s.delete (locate request.url))

section Step

variable {locate : Url → ρ} {s s' : Server ρ} {request : DavRequest}
    {reply : Except String RawResponse}
  {r : ρ} {v : Version}

theorem ServerStep.issued_mono (h : ServerStep locate s request reply s') {tag : Text}
    (htag : tag ∈ s.issued r) : tag ∈ s'.issued r := by
  cases h with
  | lost | read | refuse | delete => exact htag
  | put =>
    by_cases hr : r = locate request.url
    · subst hr
      simp [Server.put, htag]
    · simpa [Server.put, hr] using htag

/-- What is there after a step was there before, or its tag is new. -/
theorem ServerStep.files_after (h : ServerStep locate s request reply s')
    (hv : s'.files r = some v) :
    s.files r = some v ∨ v.etag ∉ s.issued r := by
  cases h with
  | lost | read | refuse => exact .inl hv
  | put _ v' hput hpre hbody hfresh =>
    by_cases hr : r = locate request.url
    · subst hr
      simp only [Server.put, Function.update_self, Option.some.injEq] at hv
      subst hv
      exact .inr hfresh
    · left
      simpa [Server.put, hr] using hv
  | delete =>
    by_cases hr : r = locate request.url
    · subst hr
      simp [Server.delete] at hv
    · left
      simpa [Server.delete, hr] using hv

/-- A tag names one version of a resource, now and later. -/
def Named (s : Server ρ) (r : ρ) (v : Version) : Prop :=
  v.etag ∈ s.issued r ∧ ∀ v', s.files r = some v' → v'.etag = v.etag → v' = v

omit [DecidableEq ρ] in
theorem Named.of_current (h : s.files r = some v) : Named s r v := by
  refine ⟨(s.current r v h).1, fun v' hv' _ => ?_⟩
  rw [h, Option.some.injEq] at hv'
  exact hv'.symm

theorem Named.step (hn : Named s r v) (h : ServerStep locate s request reply s') :
    Named s' r v := by
  refine ⟨h.issued_mono hn.1, fun v' hv' htag => ?_⟩
  obtain hold | hnew := h.files_after hv'
  · exact hn.2 v' hold htag
  · rw [htag] at hnew
    exact absurd hn.1 hnew

/-- A version that is gone does not come back. -/
def Retired (s : Server ρ) (r : ρ) (v : Version) : Prop :=
  v.etag ∈ s.issued r ∧ ∀ v', s.files r = some v' → v'.etag ≠ v.etag

theorem Retired.step (hn : Retired s r v) (h : ServerStep locate s request reply s') :
    Retired s' r v := by
  refine ⟨h.issued_mono hn.1, fun v' hv' htag => ?_⟩
  obtain hold | hnew := h.files_after hv'
  · exact hn.2 v' hold htag
  · rw [htag] at hnew
    exact absurd hn.1 hnew

theorem ServerStep.retires (h : ServerStep locate s request reply s') (hv : s.files r = some v)
    (hgone : s'.files r ≠ some v) : Retired s' r v := by
  refine ⟨h.issued_mono (s.current r v hv).1, fun v' hv' htag => ?_⟩
  obtain hold | hnew := h.files_after hv'
  · rw [hv, Option.some.injEq] at hold
    exact hgone (hold ▸ hv')
  · rw [htag] at hnew
    exact hnew (s.current r v hv).1

/-- A read changes nothing, and what it says of a resource is so. -/
theorem ServerStep.of_get (h : ServerStep locate s request reply s')
    (hget : request.method = .get) :
    s' = s ∧ ∀ response, reply = .ok response → response.status = 200 →
      ∃ v, s.files (locate request.url) = some v ∧ Serves v response := by
  cases h with
  | lost => exact ⟨rfl, fun _ h => by cases h⟩
  | read response hread hserves =>
    refine ⟨rfl, fun response' hr hstatus => ?_⟩
    obtain rfl := Except.ok.inj hr
    exact hserves hget hstatus
  | refuse response hwrite => simp [hget] at hwrite
  | put _ _ hput => simp [hget] at hput
  | delete _ _ hdelete => simp [hget] at hdelete

theorem ServerStep.of_denied (h : ServerStep locate s request reply s') (hreply : Denied reply) :
    s' = s := by
  cases h with
  | lost | read | refuse => rfl
  | put _ _ _ _ _ _ _ _ hnot => exact absurd hreply hnot
  | delete _ _ _ _ _ hnot => exact absurd hreply hnot

/-- A confirmed write of a text found its precondition met and stored the text. -/
theorem ServerStep.of_put (h : ServerStep locate s request reply s') (hput : request.method = .put)
    (hreply : Confirmed reply) :
    precondition request ((s.files (locate request.url)).map Version.etag) ∧
      ∃ v, s'.files (locate request.url) = some v ∧ v.body = utf8 request.body ∧
        v.etag ∉ s.issued (locate request.url) := by
  cases h with
  | lost e =>
    obtain ⟨_, he, -⟩ := hreply
    cases he
  | read _ hread => simp [hput] at hread
  | refuse response _ hrefuse => exact absurd hreply hrefuse
  | put _ v _ hpre hbody hfresh => exact ⟨hpre, v, by simp [Server.put], hbody, hfresh⟩
  | delete _ _ hdelete => simp [hput] at hdelete

theorem ServerStep.of_delete (h : ServerStep locate s request reply s')
    (hdelete : request.method = .delete) (hreply : Confirmed reply) :
    ∃ v, s.files (locate request.url) = some v ∧ precondition request (some v.etag) ∧
      s'.files (locate request.url) = none := by
  cases h with
  | lost e =>
    obtain ⟨_, he, -⟩ := hreply
    cases he
  | read _ hread => simp [hdelete] at hread
  | refuse response _ hrefuse => exact absurd hreply hrefuse
  | put _ _ hput => simp [hdelete] at hput
  | delete _ v _ hfile hpre => exact ⟨v, hfile, hpre, by simp [Server.delete]⟩

theorem ServerStep.frame (h : ServerStep locate s request reply s') (hr : r ≠ locate request.url) :
    s'.files r = s.files r := by
  cases h with
  | lost | read | refuse => rfl
  | put => simp [Server.put, hr]
  | delete => simp [Server.delete, hr]

/-- Only a write whose precondition is met overwrites a version. -/
theorem ServerStep.of_overwrite (h : ServerStep locate s request reply s') {v' : Version}
    (hv : s.files r = some v) (hv' : s'.files r = some v') (hne : v' ≠ v) :
    request.method = .put ∧ r = locate request.url ∧ precondition request (some v.etag) := by
  cases h with
  | lost | read | refuse =>
    rw [hv, Option.some.injEq] at hv'
    exact absurd hv'.symm hne
  | put _ _ hput hpre =>
    by_cases hr : r = locate request.url
    · subst hr
      rw [hv] at hpre
      exact ⟨hput, rfl, hpre⟩
    · simp only [Server.put, Function.update_of_ne hr, hv, Option.some.injEq] at hv'
      exact absurd hv'.symm hne
  | delete =>
    by_cases hr : r = locate request.url
    · subst hr
      simp [Server.delete] at hv'
    · simp only [Server.delete, Function.update_of_ne hr, hv, Option.some.injEq] at hv'
      exact absurd hv'.symm hne

end Step

end Server

end CardDavMcp.DavServer
