import CardDavMcp.ContactTools
import CardDavMcp.Library.Executions

namespace CardDavMcp.ReadTools

open Library.Utf8Text Library.XmlTree Library.Interaction ToolError Vcard RateLimit DavError
  DavClient ContactTools

def MAX_CONTACT_LIMIT : Nat := 100

def validatedLimit (limit : Nat) : Except ErrorData Nat :=
  if limit = 0 then .error (invalidParams "`limit` must be greater than zero")
  else .ok (min limit MAX_CONTACT_LIMIT)

structure ContactSummary where
  href : Text
  etag : Option Text
  uid : Option Text
  fullName : Option Text
  givenName : Option Text
  familyName : Option Text
  emails : List Text
  phones : List Text
  organization : Option Text
  title : Option Text
  note : Option Text
  birthday : Option Text
  hasPhoto : Bool
  vcard : Text
deriving DecidableEq, Repr

def contactSummary (contact : DavContact) : ContactSummary :=
  let parsed := parseVcard contact.vcard
  { href := contact.href
    etag := contact.etag
    uid := parsed.uid
    fullName := parsed.fullName
    givenName := parsed.givenName
    familyName := parsed.familyName
    emails := parsed.emails
    phones := parsed.phones
    organization := parsed.organization
    title := parsed.title
    note := parsed.note
    birthday := parsed.birthday
    hasPhoto := parsed.hasPhoto
    vcard := contact.vcard }

variable (s : CardDavMcpService)

/-- The address books a call is about: the one it names, or all. -/
def hrefsOf (token : Text) (addressbookHref : Option Text) : Tool (List Text) :=
  match addressbookHref with
  | some href => return [href]
  | none => do
    let books ← (s.carddav.listAddressBooks token).adapt mapCarddavErr
    return books.map DavAddressBook.href

/-- What such a call does before it turns to the first book. -/
def booksOf (ctx : RequestContext) (addressbookHref : Option Text) : Tool (Text × List Text) := do
  s.rateLimitCheck ctx .read
  let token ← settle (tokenFromCtx ctx)
  let hrefs ← hrefsOf s token addressbookHref
  return (token, hrefs)

/-- How a call comes by its address books: the limiter lets it pass or not, and
if it names no book then it asks for all of them, which may fail. -/
inductive Opening (ctx : RequestContext) (addressbookHref : Option Text) :
    Trace Effect Reply → Except ErrorData (Text × List Text) → Prop
  | refused {tr : Trace Effect Reply} {e : ErrorData} :
      Executes (s.rateLimitCheck ctx .read).run tr (.error e) →
      Opening ctx addressbookHref tr (.error e)
  | named {tr : Trace Effect Reply} {token href : Text} :
      Executes (s.rateLimitCheck ctx .read).run tr (.ok ()) → ctx.token = some token →
      addressbookHref = some href → Opening ctx addressbookHref tr (.ok (token, [href]))
  | listed {tr tr' : Trace Effect Reply} {token : Text} {books : List DavAddressBook} :
      Executes (s.rateLimitCheck ctx .read).run tr (.ok ()) → ctx.token = some token →
      addressbookHref = none → Executes (s.carddav.listAddressBooks token).run tr' (.ok books) →
      Opening ctx addressbookHref (tr ++ tr') (.ok (token, books.map DavAddressBook.href))
  | unlisted {tr tr' : Trace Effect Reply} {token : Text} {e : CardDavError} :
      Executes (s.rateLimitCheck ctx .read).run tr (.ok ()) → ctx.token = some token →
      addressbookHref = none → Executes (s.carddav.listAddressBooks token).run tr' (.error e) →
      Opening ctx addressbookHref (tr ++ tr') (.error (mapCarddavErr e))

/-- How a call ends that has come to a result: with this result, except that an
expired session is forgotten first and gets a text of its own. -/
def Concludes {α : Type} (ctx : RequestContext) (reached : Except ErrorData α)
    (after : Trace Effect Reply) (result : Except ErrorData α) : Prop :=
  (after = [] ∧ result = reached ∧ ∀ e, reached = .error e → e.code ≠ AUTH_EXPIRED_CODE) ∨
    ∃ e, reached = .error e ∧ e.code = AUTH_EXPIRED_CODE ∧
      after = ctx.token.elim [] (fun token =>
        [⟨.discoveryRemove (s.carddav.hashToken token), ()⟩, ⟨.dropToken token, ()⟩]) ∧
      result = .error ⟨AUTH_EXPIRED_CODE, SESSION_EXPIRED⟩

variable {s} {ctx : RequestContext} {tr : Trace Effect Reply}

section Ending

variable {α : Type} {after : Trace Effect Reply} {reached result : Except ErrorData α}

theorem concludes_ok {a : α} :
    Concludes s ctx (.ok a) after result ↔ after = [] ∧ result = .ok a := by
  constructor
  · rintro (⟨hafter, hresult, -⟩ | ⟨e, he, -⟩)
    · exact ⟨hafter, hresult⟩
    · cases he
  · rintro ⟨hafter, hresult⟩
    exact .inl ⟨hafter, hresult, fun e he => by cases he⟩

theorem Concludes.error {e : ErrorData} (h : Concludes s ctx (.error e) after result) :
    ∃ e', result = .error e' := by
  obtain ⟨-, hresult, -⟩ | ⟨_, -, -, -, hresult⟩ := h
  · exact ⟨e, hresult⟩
  · exact ⟨_, hresult⟩

theorem Concludes.after_nil {a : α} (h : Concludes s ctx reached after (.ok a)) : after = [] := by
  obtain ⟨hafter, -⟩ | ⟨_, -, -, -, he⟩ := h
  · exact hafter
  · cases he

/-- Watching for expired sessions neither saves nor spoils a call. -/
theorem executes_reactToAuthExpiry {p : Tool α}
    (h : Executes (s.reactToAuthExpiry ctx p).run tr result) :
    ∃ before reached after, tr = before ++ after ∧ Executes p.run before reached ∧
      Concludes s ctx reached after result := by
  rw [CardDavMcpService.reactToAuthExpiry, executes_tryCatch] at h
  obtain ⟨a, hp, rfl⟩ | ⟨before, e, after, rfl, hp, hhandle⟩ := h
  · exact ⟨tr, _, [], by simp, hp, concludes_ok.mpr ⟨rfl, rfl⟩⟩
  · refine ⟨before, _, after, rfl, hp, ?_⟩
    split_ifs at hhandle with hcode
    · obtain ⟨rfl, rfl⟩ := executes_throw.mp hhandle
      exact .inl ⟨rfl, rfl, fun e' he => Except.error.inj he ▸ hcode⟩
    · refine .inr ⟨e, rfl, not_not.mp hcode, ?_⟩
      cases htoken : ctx.token with
      | none =>
        rw [htoken] at hhandle
        exact executes_throw.mp hhandle
      | some token =>
        rw [htoken] at hhandle
        obtain ⟨_, _, _, rfl, hevict, hrest⟩ | ⟨_, hevict, -⟩ := executes_tryBind.mp hhandle
        · obtain ⟨_, rfl, -⟩ := executes_ask.mp hevict
          obtain ⟨_, _, _, rfl, hdrop, hthrow⟩ | ⟨_, hdrop, -⟩ := executes_tryBind.mp hrest
          · obtain ⟨_, rfl, -⟩ := executes_ask.mp hdrop
            obtain ⟨rfl, rfl⟩ := executes_throw.mp hthrow
            exact ⟨rfl, rfl⟩
          · exact absurd (executes_ask.mp hdrop) (by simp)
        · exact absurd (executes_ask.mp hevict) (by simp)

end Ending

/-- A call that names a book is about this one alone. -/
theorem Opening.named_eq {addressbookHref : Option Text} {href token : Text} {hrefs : List Text}
    (h : Opening s ctx addressbookHref tr (.ok (token, hrefs)))
    (hhref : addressbookHref = some href) : ctx.token = some token ∧ hrefs = [href] := by
  subst hhref
  cases h with
  | named _ htoken he => exact ⟨htoken, by rw [Option.some.inj he]⟩
  | listed _ _ he => cases he

theorem tokenFromCtx_ok {token : Text} (h : tokenFromCtx ctx = .ok token) :
    ctx.token = some token := by
  rw [tokenFromCtx.eq_def] at h
  split at h
  · rename_i token' htoken
    exact htoken.trans (congrArg some (Except.ok.inj h))
  · cases h

theorem token_of_rateLimitCheck {category : Category} {u : Unit}
    (h : Executes (s.rateLimitCheck ctx category).run tr (.ok u)) :
    ∃ token, ctx.token = some token := by
  obtain ⟨token, htoken, -⟩ := executes_settle_bind_ok.mp h
  exact ⟨token, tokenFromCtx_ok htoken⟩

theorem opening_of_hrefsOf {token : Text} {addressbookHref : Option Text}
    {tr' : Trace Effect Reply} {result : Except ErrorData (List Text)}
    (hrate : Executes (s.rateLimitCheck ctx .read).run tr (.ok ()))
    (htoken : ctx.token = some token)
    (h : Executes (hrefsOf s token addressbookHref).run tr' result) :
    Opening s ctx addressbookHref (tr ++ tr') (result.map (Prod.mk token)) := by
  rw [hrefsOf.eq_def] at h
  cases addressbookHref with
  | some href =>
    obtain ⟨rfl, rfl⟩ := executes_pure.mp h
    rw [List.append_nil]
    exact .named hrate htoken rfl
  | none =>
    obtain ⟨_, _, _, rfl, hlist, hreturn⟩ | ⟨_, hlist, rfl⟩ := executes_tryBind.mp h
    · obtain ⟨rfl, rfl⟩ := executes_pure.mp hreturn
      rw [List.append_nil]
      exact .listed hrate htoken rfl (executes_adapt_ok.mp hlist)
    · obtain ⟨_, hbooks, rfl⟩ := executes_adapt_error.mp hlist
      exact .unlisted hrate htoken rfl hbooks

theorem opening_of_booksOf {addressbookHref : Option Text}
    {result : Except ErrorData (Text × List Text)}
    (h : Executes (booksOf s ctx addressbookHref).run tr result) :
    Opening s ctx addressbookHref tr result := by
  obtain ⟨before, _, rest, rfl, hrate, hrest⟩ | ⟨e, hrate, rfl⟩ := executes_tryBind.mp h
  · obtain ⟨token, htoken⟩ := token_of_rateLimitCheck hrate
    rw [tokenFromCtx, htoken, settle_ok_bind] at hrest
    obtain ⟨asking, hrefs, _, rfl, hbooks, hreturn⟩ | ⟨e, hbooks, rfl⟩ := executes_tryBind.mp hrest
    · obtain ⟨rfl, rfl⟩ := executes_pure.mp hreturn
      rw [List.append_nil]
      exact opening_of_hrefsOf hrate htoken hbooks
    · exact opening_of_hrefsOf hrate htoken hbooks
  · exact .refused hrate

/-- A call over address books fails before the first of them, or it walks over
them and returns what the walk leads to. -/
theorem executes_overBooks {σ β γ : Type} {ask : Text → Text → Tool β} {step : σ → β → σ}
    {stop : σ → Bool} {init : σ} {finish : σ → γ} {addressbookHref : Option Text}
    {result : Except ErrorData γ}
    (h : Executes (s.reactToAuthExpiry ctx (booksOf s ctx addressbookHref >>= fun p =>
      walk (ask p.1) step stop p.2 init >>= fun st => pure (finish st))).run tr result) :
    (∃ before e after, tr = before ++ after ∧ Opening s ctx addressbookHref before (.error e) ∧
      Concludes s ctx (.error e) after result) ∨
    ∃ before token hrefs asked walked after,
      Opening s ctx addressbookHref before (.ok (token, hrefs)) ∧
      tr = before ++ asked.flatMap Prod.fst ++ after ∧
      Walked (ask token) step stop hrefs init asked walked ∧
      Concludes s ctx (walked.map finish) after result := by
  obtain ⟨body, reached, after, rfl, hbody, hends⟩ := executes_reactToAuthExpiry h
  obtain ⟨before, ⟨token, hrefs⟩, rest, rfl, hbooks, hrest⟩ | ⟨e, hbooks, rfl⟩ :=
    executes_tryBind.mp hbody
  · obtain ⟨walking, st, _, rfl, hwalk, hreturn⟩ | ⟨e, hwalk, rfl⟩ := executes_tryBind.mp hrest
    · obtain ⟨asked, rfl, hwalked⟩ := executes_walk.mp hwalk
      obtain ⟨rfl, rfl⟩ := executes_pure.mp hreturn
      exact .inr ⟨before, token, hrefs, asked, .ok st, after, opening_of_booksOf hbooks, by simp,
        hwalked, hends⟩
    · obtain ⟨asked, rfl, hwalked⟩ := executes_walk.mp hwalk
      exact .inr ⟨before, token, hrefs, asked, .error e, after, opening_of_booksOf hbooks, rfl,
        hwalked, hends⟩
  · exact .inl ⟨body, e, after, rfl, opening_of_booksOf hbooks, hends⟩

def dav (name : String) : QName := ⟨some "d".toList, name.toList⟩

/-- A multistatus document that lists cards. -/
def cardsDoc (cards : List (Text × Text)) : Content :=
  let response (card : Text × Text) (rest : Content) : Content :=
    .element (dav "response")
      (.element (dav "href") (.chars (.text card.1) .nil)
        (.element (dav "propstat") (.element (dav "prop")
          (.element (dav "address-data") (.chars (.text card.2) .nil) .nil) .nil) .nil)) rest
  .element (dav "multistatus") (cards.foldr response .nil) .nil

/-- The plain service, at a server where every book holds the same cards. -/
def listingService (cards : List (Text × Text)) : CardDavMcpService :=
  { plainService with
    carddav := { plainService.carddav with
      xml := ⟨fun _ => document (cardsDoc cards), fun _ => none⟩ } }

def sampleContext : RequestContext :=
  ⟨some "t".toList, some { userId := "u".toList, email := none, name := none, exp := none }⟩

/-- A server that lists the cards, with room in the limiter and nothing cached. -/
def sampleReply : ∀ e : Effect, Reply e
  | .send _ => .ok { status := 207 }
  | .discoveryLookup _ => none
  | .discoveryInsert _ _ | .discoveryRemove _ | .dropToken _ => ()
  | .rateLimitCheck _ _ _ => .ok ()
  | .fillBytes len => List.replicate len 0

end CardDavMcp.ReadTools
