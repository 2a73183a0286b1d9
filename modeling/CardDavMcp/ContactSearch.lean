import CardDavMcp.Library.Keyed
import CardDavMcp.ReadTools

namespace CardDavMcp.ContactSearch

open Library.Utf8Text Library.Interaction Library.Keyed ToolError DavError DavClient ContactTools
  ReadTools

structure SearchContactsParams where
  query : Text
  addressbookHref : Option Text := none
  limit : Nat := 25
deriving DecidableEq, Repr

structure ContactsResult where
  contacts : List ContactSummary
deriving DecidableEq, Repr

/-- The contacts that a search has found so far, and the hrefs it has seen. -/
structure Found where
  seen : List Text
  contacts : List ContactSummary
deriving DecidableEq, Repr

/-- A contact with a new href is one more that is found. -/
def addMatch (found : Found) (contact : DavContact) : Found :=
  if contact.href ∈ found.seen then found
  else ⟨contact.href :: found.seen, found.contacts ++ [contactSummary contact]⟩

/-- The matches in one book are gone through until there are enough. -/
def addMatches (limit : Nat) (found : Found) : List DavContact → Found
  | [] => found
  | contact :: rest =>
    if (addMatch found contact).contacts.length ≥ limit then addMatch found contact
    else addMatches limit (addMatch found contact) rest

variable (s : CardDavMcpService)

def searchBook (query token href : Text) : Tool (List DavContact) :=
  (s.carddav.searchContacts token href query).adapt mapCarddavErr

def searchBooks (query token : Text) (limit : Nat) (hrefs : List Text) (found : Found) :
    Tool Found :=
  walk (searchBook s query token) (addMatches limit) (fun found => found.contacts.length ≥ limit)
    hrefs found

def searchContacts (ctx : RequestContext) (params : SearchContactsParams) : Tool ContactsResult :=
  s.reactToAuthExpiry ctx do
    s.rateLimitCheck ctx .read
    let limit ← settle (validatedLimit params.limit)
    if (trim params.query).isEmpty then throw (invalidParams "`query` must not be empty")
    let token ← settle (tokenFromCtx ctx)
    let hrefs ← hrefsOf s token params.addressbookHref
    let found ← searchBooks s params.query token limit hrefs ⟨[], []⟩
    return ⟨found.contacts⟩

/-- The matches of the books that have answered. -/
def matchesOf (outcomes : List (Except ErrorData (List DavContact))) : List DavContact :=
  outcomes.flatMap fun outcome => (outcome.toOption).getD []

/-- The search stands where it would after these matches. -/
structure Reflects (found : Found) (before : List DavContact) : Prop where
  seen : ∀ href, href ∈ found.seen ↔ href ∈ before.map DavContact.href
  contacts : found.contacts = (firstBy DavContact.href before).map contactSummary

theorem Reflects.length {found : Found} {before : List DavContact} (h : Reflects found before) :
    found.contacts.length = (firstBy DavContact.href before).length := by
  rw [h.contacts, List.length_map]

theorem Reflects.addMatch {found : Found} {before : List DavContact} (h : Reflects found before)
    (contact : DavContact) : Reflects (addMatch found contact) (before ++ [contact]) := by
  rw [ContactSearch.addMatch]
  split_ifs with hseen
  · rw [h.seen] at hseen
    refine ⟨fun href => ?_, ?_⟩
    · rw [h.seen, List.map_append, List.mem_append, List.map_singleton, List.mem_singleton]
      exact ⟨.inl, fun hor => hor.elim id fun he => he ▸ hseen⟩
    · rw [h.contacts, firstBy_snoc, if_pos hseen]
  · rw [h.seen] at hseen
    refine ⟨fun href => ?_, ?_⟩
    · rw [List.mem_cons, h.seen, List.map_append, List.mem_append, List.map_singleton,
        List.mem_singleton, or_comm]
    · rw [h.contacts, firstBy_snoc, if_neg hseen, List.map_append, List.map_singleton]

/-- The walk through one book ends with enough matches or has taken in all. -/
theorem Reflects.addMatches {limit : Nat} (matched : List DavContact) {found : Found}
    {before : List DavContact} (h : Reflects found before)
    (hlimit : (firstBy DavContact.href before).length < limit) :
    ((addMatches limit found matched).contacts.length ≥ limit ∧
      limit ≤ (firstBy DavContact.href (before ++ matched)).length ∧
      (addMatches limit found matched).contacts =
        ((firstBy DavContact.href (before ++ matched)).take limit).map contactSummary) ∨
    (firstBy DavContact.href (before ++ matched)).length < limit ∧
      Reflects (addMatches limit found matched) (before ++ matched) := by
  induction matched generalizing found before with
  | nil => exact .inr ⟨by simpa using hlimit, by simpa [ContactSearch.addMatches] using h⟩
  | cons contact matched ih =>
    have hnext := h.addMatch contact
    rw [ContactSearch.addMatches, List.append_cons]
    split_ifs with hstop
    · -- one more match is one more contact at most, so the limit is met exactly
      have hlen := hnext.length
      have hone : (firstBy DavContact.href (before ++ [contact])).length ≤ limit := by
        rw [firstBy_snoc]
        split_ifs
        · omega
        · rw [List.length_append, List.length_singleton]
          omega
      have hle := (firstBy_isPrefix DavContact.href (before ++ [contact]) matched).length_le
      refine .inl ⟨hstop, by omega, ?_⟩
      rw [take_firstBy_append _ _ _ (by omega), List.take_of_length_le hone, hnext.contacts]
    · exact ih hnext (by rw [← hnext.length]; omega)

/-- What a search of books returns, against the search of all of them: the books it asks
are those before which there are too few matches and no failure. -/
structure EarlyStopping (limit books : Nat) (before : List DavContact)
    (outcomes : List (Except ErrorData (List DavContact)))
    (found : Except ErrorData (List ContactSummary)) : Prop where
  queried : ∀ i, i < outcomes.length ↔ i < books ∧ (∀ outcome ∈ outcomes.take i, outcome.isOk) ∧
    (firstBy DavContact.href (before ++ matchesOf (outcomes.take i))).length < limit
  fails : (∃ e, found = .error e) ↔ ∃ e, .error e ∈ outcomes
  returns : ∀ contacts, found = .ok contacts →
    ∀ unasked, (outcomes.length = books → unasked = []) →
      contacts = ((firstBy DavContact.href (before ++ matchesOf outcomes ++ unasked)).take
        limit).map contactSummary

theorem EarlyStopping.cons {limit books : Nat} {before matched : List DavContact}
    {outcomes : List (Except ErrorData (List DavContact))}
    {found : Except ErrorData (List ContactSummary)}
    (h : EarlyStopping limit books (before ++ matched) outcomes found)
    (hlimit : (firstBy DavContact.href before).length < limit) :
    EarlyStopping limit (books + 1) before (.ok matched :: outcomes) found where
  queried i := by
    cases i with
    | zero => simpa [matchesOf] using hlimit
    | succ i =>
      have hi := h.queried i
      have hmatches : matchesOf (.ok matched :: outcomes.take i) =
          matched ++ matchesOf (outcomes.take i) := rfl
      rw [List.append_assoc] at hi
      rw [List.length_cons, Nat.add_lt_add_iff_right, hi, Nat.add_lt_add_iff_right,
        List.take_succ_cons, List.forall_mem_cons, hmatches]
      exact and_congr_right fun _ => and_congr_left fun _ => (and_iff_right rfl).symm
  fails := by
    rw [h.fails]
    simp
  returns contacts hfound unasked hall := by
    have hmatches : matchesOf (.ok matched :: outcomes) = matched ++ matchesOf outcomes := rfl
    rw [hmatches, ← List.append_assoc before]
    exact h.returns contacts hfound unasked fun hlen => hall (by rw [List.length_cons, hlen])

theorem walked_books {ask : Text → Tool (List DavContact)} {limit : Nat} {hrefs : List Text}
    {found : Found} {asked : List (Trace Effect Reply × Except ErrorData (List DavContact))}
    {result : Except ErrorData Found}
    (h : Walked ask (addMatches limit) (fun found => found.contacts.length ≥ limit)
      hrefs found asked result)
    {before : List DavContact} (hfound : Reflects found before)
    (hlimit : (firstBy DavContact.href before).length < limit) :
    EarlyStopping limit hrefs.length before (asked.map Prod.snd) (result.map Found.contacts) := by
  induction h generalizing before with
  | nil found =>
    refine ⟨by simp, by simp [Except.map], ?_⟩
    rintro contacts hcontacts unasked hall
    obtain rfl := hall rfl
    obtain rfl : found.contacts = contacts := Except.ok.inj hcontacts
    have htake := List.take_of_length_le hlimit.le
    simpa [matchesOf, htake] using hfound.contacts
  | fail _ =>
    refine ⟨fun i => ?_, by simp [Except.map], ?_⟩
    · cases i with
      | zero => simpa [matchesOf] using hlimit
      | succ i => simp [Except.isOk, Except.toBool]
    · rintro _ ⟨⟩
  | @stop _ _ found _ matched _ hstop =>
    rcases hfound.addMatches matched hlimit with ⟨-, hle, hcontacts⟩ | ⟨hlt, hreflects⟩
    · refine ⟨fun i => ?_, by simp [Except.map], ?_⟩
      · cases i with
        | zero => simpa [matchesOf] using hlimit
        | succ i => simp [matchesOf, Except.toOption, hle]
      · rintro contacts hfound unasked -
        obtain rfl := Except.ok.inj hfound
        have hmatches : matchesOf [.ok matched] = matched := List.append_nil _
        rw [List.map_singleton, hmatches, take_firstBy_append _ _ _ hle]
        exact hcontacts
    · rw [decide_eq_true_eq, hreflects.length] at hstop
      omega
  | @next _ _ found _ matched _ _ _ hstop _ ih =>
    rcases hfound.addMatches matched hlimit with ⟨hge, -, -⟩ | ⟨hlt, hreflects⟩
    · rw [decide_eq_false_iff_not] at hstop
      exact absurd hge hstop
    · exact (ih hreflects hlt).cons hlimit

theorem EarlyStopping.of_ends {limit books : Nat} {before : List DavContact}
    {outcomes : List (Except ErrorData (List DavContact))} {found : Except ErrorData ContactsResult}
    (h : EarlyStopping limit books before outcomes (found.map ContactsResult.contacts))
    {s : CardDavMcpService} {ctx : RequestContext} {after : Trace Effect Reply}
    {result : Except ErrorData ContactsResult} (hends : Concludes s ctx found after result) :
    EarlyStopping limit books before outcomes (result.map ContactsResult.contacts) := by
  cases found with
  | ok found =>
    rw [(concludes_ok.mp hends).2]
    exact h
  | error e =>
    obtain ⟨e', rfl⟩ := hends.error
    refine ⟨h.queried, ?_, nofun⟩
    rw [← h.fails]
    exact ⟨fun _ => ⟨e, rfl⟩, fun _ => ⟨e', rfl⟩⟩

section Returned

variable {limit books : Nat} {outcomes : List (Except ErrorData (List DavContact))}
  {contacts : List ContactSummary}

theorem EarlyStopping.contacts_eq (h : EarlyStopping limit books [] outcomes (.ok contacts)) :
    contacts = ((firstBy DavContact.href (matchesOf outcomes)).take limit).map contactSummary := by
  have hreturns := h.returns contacts rfl [] fun _ => rfl
  rwa [List.nil_append, List.append_nil] at hreturns

/-- No href is returned twice. -/
theorem EarlyStopping.nodup (h : EarlyStopping limit books [] outcomes (.ok contacts)) :
    (contacts.map ContactSummary.href).Nodup := by
  have hhref : ContactSummary.href ∘ contactSummary = DavContact.href := rfl
  have hnodup := nodup_firstBy DavContact.href (matchesOf outcomes)
  rw [h.contacts_eq, List.map_map, hhref, List.map_take]
  exact hnodup.sublist (List.take_sublist _ _)

/-- Too few contacts are returned only if no book is left to ask. -/
theorem EarlyStopping.all_asked (h : EarlyStopping limit books [] outcomes (.ok contacts))
    (hfew : contacts.length < limit) : outcomes.length = books := by
  have hlen : (firstBy DavContact.href (matchesOf outcomes)).length < limit := by
    rw [h.contacts_eq, List.length_map, List.length_take] at hfew
    omega
  have hok : ∀ outcome ∈ outcomes, outcome.isOk := by
    intro outcome houtcome
    cases outcome with
    | ok matched => rfl
    | error e => exact absurd (h.fails.mpr ⟨e, houtcome⟩) (by simp)
  have hnext := h.queried outcomes.length
  rw [List.take_length, List.nil_append] at hnext
  have hle : outcomes.length ≤ books := by
    cases hn : outcomes.length with
    | zero => exact Nat.zero_le _
    | succ n => exact ((h.queried n).mp (by omega)).1
  by_contra hne
  exact absurd (hnext.mpr ⟨by omega, hok, hlen⟩) (lt_irrefl _)

end Returned

/-- A search that stops early returns what the search of all books would: the first
contacts with each href, up to the limit. -/
theorem search_contacts_eager {s : CardDavMcpService} {ctx : RequestContext}
    {params : SearchContactsParams} (hquery : (trim params.query).isEmpty = false)
    (hlimit : 1 ≤ params.limit) {tr : Trace Effect Reply}
    {result : Except ErrorData ContactsResult}
    (h : Executes (searchContacts s ctx params).run tr result) :
    (∃ before e after, tr = before ++ after ∧
      Opening s ctx params.addressbookHref before (.error e) ∧
      Concludes s ctx (.error e) after result) ∨
    ∃ before token hrefs asked found after,
      Opening s ctx params.addressbookHref before (.ok (token, hrefs)) ∧
      tr = before ++ asked.flatMap Prod.fst ++ after ∧
      List.Forall₂ (fun href q => Executes (searchBook s params.query token href).run q.1 q.2)
        (hrefs.take asked.length) asked ∧
      EarlyStopping (min params.limit 100) hrefs.length [] (asked.map Prod.snd)
        (result.map ContactsResult.contacts) ∧
      Concludes s ctx found after result ∧ (∀ e, found = .error e → .error e ∈ asked.map Prod.snd) ∧
      ∀ found, result = .ok found → (found.contacts.map ContactSummary.href).Nodup ∧
        (found.contacts.length < min params.limit 100 → asked.length = hrefs.length) := by
  have hvalid : validatedLimit params.limit = .ok (min params.limit 100) :=
    if_neg (by omega)
  have hbody : searchContacts s ctx params = s.reactToAuthExpiry ctx
      (booksOf s ctx params.addressbookHref >>= fun p =>
        searchBooks s params.query p.1 (min params.limit 100) p.2 ⟨[], []⟩ >>= fun found =>
          pure ⟨found.contacts⟩) := by
    simp only [searchContacts, booksOf, hvalid, hquery, settle_ok_bind, bind_assoc, pure_bind,
      Bool.false_eq_true, if_false]
  rw [hbody] at h
  obtain hbefore | ⟨before, token, hrefs, asked, walked, after, hopening, htr, hwalked, hends⟩ :=
    executes_overBooks h
  · exact .inl hbefore
  · have hlimit' : 0 < min params.limit 100 := by omega
    have hstart : Reflects ⟨[], []⟩ [] := ⟨by simp, rfl⟩
    have hwalk := walked_books hwalked hstart hlimit'
    have hcontacts : walked.map Found.contacts =
        (walked.map fun found => (⟨found.contacts⟩ : ContactsResult)).map
          ContactsResult.contacts := by
      cases walked <;> rfl
    have hstopping := (hcontacts ▸ hwalk).of_ends hends
    refine .inr ⟨before, token, hrefs, asked, _, after, hopening, htr, hwalked.asked_prefix,
      hstopping, hends, fun e he => ?_, ?_⟩
    · cases walked with
      | ok found => cases he
      | error e' =>
        obtain rfl := Except.error.inj he
        exact hwalked.error_mem
    · rintro found rfl
      refine ⟨hstopping.nodup, fun hfew => ?_⟩
      have hall := hstopping.all_asked hfew
      rwa [List.length_map] at hall

/-- One of the three cards is listed a second time. -/
def sampleCards : List (Text × Text) :=
  [("/b/1".toList, []), ("/b/1".toList, []), ("/b/2".toList, []), ("/b/3".toList, [])]

def sampleSearch : SearchContactsParams := ⟨"ann".toList, some "/b/".toList, 2⟩

theorem search_contacts_sample : ∃ tr found before,
    ∃ asked : List (Trace Effect Reply × Except ErrorData (List DavContact)),
    Executes (searchContacts (listingService sampleCards) sampleContext sampleSearch).run tr
      (.ok found) ∧
    found.contacts.map ContactSummary.href = ["/b/1".toList, "/b/2".toList] ∧
    Opening (listingService sampleCards) sampleContext (some "/b/".toList) before
      (.ok (['t'], ["/b/".toList])) ∧
    tr = before ++ asked.flatMap Prod.fst ∧
    EarlyStopping 2 1 [] (asked.map Prod.snd) (.ok found.contacts) := by
  have hhrefs : (playedOut sampleReply
      (searchContacts (listingService sampleCards) sampleContext sampleSearch).run).2.map
        (fun found => found.contacts.map ContactSummary.href) =
      .ok ["/b/1".toList, "/b/2".toList] := by decide +kernel
  have hruns := executes_playedOut sampleReply
    (searchContacts (listingService sampleCards) sampleContext sampleSearch).run
  revert hhrefs hruns
  generalize (playedOut sampleReply _).2 = result
  intro hhrefs hruns
  obtain _ | found := result
  · cases hhrefs
  · obtain ⟨_, _, _, -, -, hends⟩ |
      ⟨before, token, hrefs, asked, _, after, hopening, htr, -, hstopping, hends, -, -⟩ :=
      search_contacts_eager (by decide +kernel) (by decide) hruns
    · obtain ⟨_, he⟩ := hends.error
      cases he
    · obtain ⟨htoken, rfl⟩ := hopening.named_eq rfl
      obtain rfl := Option.some.inj htoken
      have hafter : after = [] := hends.after_nil
      rw [hafter, List.append_nil] at htr
      exact ⟨_, found, before, asked, hruns, Except.ok.inj hhrefs, hopening, htr, hstopping⟩

end CardDavMcp.ContactSearch
