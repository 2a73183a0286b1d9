import CardDavMcp.Library.Keyed
import CardDavMcp.NextBirthday
import CardDavMcp.ReadTools
import Mathlib.Data.Char
import Mathlib.Data.List.Lex
import Mathlib.Order.WithBot

namespace CardDavMcp.UpcomingBirthdays

open Library.Utf8Text Library.Interaction Library.Calendar Library.Keyed ToolError Vcard VcardFold
  VcardText DavError DavClient ContactTools ReadTools Birthdays NextBirthday

def MAX_BIRTHDAY_DAYS : Nat := 366

structure UpcomingBirthdaysParams where
  days : Nat := 14
  addressbookHref : Option Text := none
  referenceDate : Option Text := none
deriving DecidableEq, Repr

structure UpcomingBirthday where
  href : Text
  uid : Option Text
  fullName : Option Text
  birthday : Text
  monthDay : Text
  daysUntil : Nat
  nextOccurrence : Text
  turning : Option Int
deriving DecidableEq, Repr

structure UpcomingBirthdaysResult where
  birthdays : List UpcomingBirthday
  referenceDate : Text
  days : Nat
  contactsScanned : Nat
  unparseableBirthdays : Nat
deriving DecidableEq, Repr

/-- What a call takes from the clock and the parser of dates. -/
structure Chrono where
  /-- Read a date as `%Y-%m-%d`. -/
  parseDate : Text → Option NaiveDate
  /-- The date in UTC at the time of the call. -/
  utcToday : NaiveDate

/-- A number in decimal, with zeros in front up to a width. -/
def padded (width n : Nat) : Text := (Nat.toDigits 10 n).leftpad width '0'

/-- A date as `%Y-%m-%d`. Years outside of 0 to 9999 have a sign. -/
def formatDate (d : NaiveDate) : Text :=
  let digits := padded 4 d.1.year.natAbs
  let year :=
    if d.1.year < 0 then '-' :: digits
    else if d.1.year ≤ 9999 then digits
    else '+' :: digits
  year ++ '-' :: padded 2 d.1.month ++ '-' :: padded 2 d.1.day

def checkDays (days : Nat) : Except ErrorData Unit :=
  if days = 0 ∨ days > MAX_BIRTHDAY_DAYS then
    .error (invalidParams s!"`days` must be between 1 and {MAX_BIRTHDAY_DAYS}")
  else .ok ()

/-- The date that the window is measured from. -/
def referenceDay (chrono : Chrono) (referenceDate : Option Text) : Except ErrorData NaiveDate :=
  match referenceDate with
  | none => .ok chrono.utcToday
  | some raw =>
    match chrono.parseDate (trim raw) with
    | some date => .ok date
    | none => .error (invalidParams "`reference_date` must be YYYY-MM-DD")

/-- What the scan of the cards has led to so far. -/
structure Scan where
  birthdays : List UpcomingBirthday
  scanned : Nat
  unparseable : Nat
deriving DecidableEq, Repr

/-- One card more. There is no result if an addition of dates panics. -/
def scanContact (today : NaiveDate) (days : Nat) (scan : Scan) (contact : DavContact) :
    Option Scan :=
  let scan := { scan with scanned := scan.scanned + 1 }
  let parsed := parseVcard contact.vcard
  match parsed.birthday with
  | none => some scan
  | some raw =>
    match parseBday raw with
    | none => some { scan with unparseable := scan.unparseable + 1 }
    | some bday =>
      match withinWindow bday today days with
      | none => some scan
      | some daysUntil => do
        let next ← today.addDays daysUntil
        let age ← turning bday today
        let row : UpcomingBirthday :=
          { href := contact.href
            uid := parsed.uid
            fullName := parsed.fullName
            monthDay := padded 2 bday.month ++ '-' :: padded 2 bday.day
            birthday := bday.raw
            daysUntil
            nextOccurrence := formatDate next
            turning := age }
        some { scan with birthdays := scan.birthdays ++ [row] }

def scanContacts (today : NaiveDate) (days : Nat) (scan : Option Scan)
    (contacts : List DavContact) : Option Scan :=
  scan.bind fun scan => contacts.foldlM (scanContact today days) scan

/-- Rows are ordered by their day, then by name; those without a name come
first. -/
def sortKey (row : UpcomingBirthday) : Nat ×ₗ WithBot Text := toLex (row.daysUntil, row.fullName)

variable (s : CardDavMcpService)

def listBook (token href : Text) : Tool (List DavContact) :=
  (s.carddav.listContacts token href).adapt mapCarddavErr

/-- The tool. Its result is `none` if an addition of dates panics. -/
def upcomingBirthdays (chrono : Chrono) (ctx : RequestContext) (params : UpcomingBirthdaysParams) :
    Tool (Option UpcomingBirthdaysResult) :=
  s.reactToAuthExpiry ctx do
    s.rateLimitCheck ctx .read
    settle (checkDays params.days)
    let today ← settle (referenceDay chrono params.referenceDate)
    let token ← settle (tokenFromCtx ctx)
    let hrefs ← hrefsOf s token params.addressbookHref
    let scan ← walk (listBook s token) (scanContacts today params.days) Option.isNone hrefs
      (some ⟨[], 0, 0⟩)
    return scan.map fun scan =>
      { birthdays := sortBy sortKey scan.birthdays
        referenceDate := formatDate today
        days := params.days
        contactsScanned := scan.scanned
        unparseableBirthdays := scan.unparseable }

/-- The value of a line that is a `BDAY` property. -/
def bdayValue (line : Text) : Option Text :=
  match splitOnce ':' line with
  | some (head, rawValue) =>
    if propertyOf head = "BDAY".toList then some (unescapeVcardText rawValue) else none
  | none => none

/-- The last `BDAY` value of a card. -/
def lastBday (vcard : Text) : Option Text := ((unfoldVcardLines vcard).filterMap bdayValue).getLast?

theorem setProperty_birthday (parsed : ParsedVcard) (property rawValue : Text) :
    (setProperty parsed property rawValue).birthday =
      if property = "BDAY".toList then some (unescapeVcardText rawValue) else parsed.birthday := by
  split_ifs with hbday
  · rw [hbday]
    rfl
  · rw [setProperty]
    split
    case h_9 heq =>
      exact absurd (by rw [← heq, String.toList_ofList]) hbday
    all_goals rfl

theorem parseLine_birthday (parsed : ParsedVcard) (line : Text) :
    (parseLine parsed line).birthday = (bdayValue line).or parsed.birthday := by
  rw [parseLine, bdayValue]
  cases splitOnce ':' line with
  | none => rfl
  | some p =>
    dsimp only
    rw [setProperty_birthday]
    split_ifs <;> rfl

theorem parseVcard_birthday (vcard : Text) : (parseVcard vcard).birthday = lastBday vcard := by
  rw [parseVcard, lastBday]
  induction unfoldVcardLines vcard using List.reverseRecOn with
  | nil => rfl
  | append_singleton lines line ih =>
    rw [List.foldl_append, List.foldl_cons, List.foldl_nil, parseLine_birthday, ih,
      List.filterMap_append, List.getLast?_append]
    cases hvalue : bdayValue line <;> simp [hvalue]

/-- A card with its birthday, if that falls into the window. -/
def due (today : NaiveDate) (days : Nat) (card : DavContact) : Option (DavContact × Birthday) := do
  let bday ← (lastBday card.vcard).bind parseBday
  if daysUntil bday today ≤ days then some (card, bday) else none

/-- A card whose birthday cannot be parsed. -/
def Unparseable (card : DavContact) : Bool :=
  (lastBday card.vcard).any fun raw => (parseBday raw).isNone

/-- A row says what it should about a card and its birthday. -/
structure RowOf (today : NaiveDate) (p : DavContact × Birthday) (row : UpcomingBirthday) :
    Prop where
  href : row.href = p.1.href
  uid : row.uid = (parseVcard p.1.vcard).uid
  fullName : row.fullName = (parseVcard p.1.vcard).fullName
  birthday : row.birthday = p.2.raw
  monthDay : row.monthDay = padded 2 p.2.month ++ '-' :: padded 2 p.2.day
  daysUntil : row.daysUntil = Birthdays.daysUntil p.2 today
  next : ∃ next, today.addDays row.daysUntil = some next ∧ row.nextOccurrence = formatDate next ∧
    (p.2.year = none → row.turning = none) ∧
    ∀ born, p.2.year = some born → ∃ age, row.turning = some age ∧ next.year = born + age

/-- A scan has accounted for these cards. -/
structure Scanned (today : NaiveDate) (days : Nat) (cards : List DavContact) (scan : Scan) :
    Prop where
  scanned : scan.scanned = cards.length
  unparseable : scan.unparseable = cards.countP Unparseable
  birthdays : List.Forall₂ (RowOf today) (cards.filterMap (due today days)) scan.birthdays

variable {today : NaiveDate} {days : Nat}

/-- What is computed for a row: both additions of dates have a result. -/
theorem exists_next {b : Birthday} (h : RealDate b.year b.month b.day)
    (hlt : daysUntil b today < U32_MAX) :
    ∃ next age, today.addDays (daysUntil b today) = some next ∧
      turning b today = some age ∧ (b.year = none → age = none) ∧
      ∀ born, b.year = some born → ∃ n, age = some n ∧ next.year = born + n := by
  obtain ⟨year, next, hfalls, hadd⟩ := daysUntilIn_occurrence h hlt
  cases hyear : b.year with
  | none =>
    refine ⟨next, none, hadd, ?_, fun _ => rfl, ?_⟩
    · rw [turning, hyear]
    · rintro _ ⟨⟩
  | some born =>
    refine ⟨next, some (year - born), hadd, turning_eq hyear hfalls hadd, ?_, ?_⟩
    · rintro ⟨⟩
    · rintro _ ⟨⟩
      refine ⟨_, rfl, ?_⟩
      rw [hfalls.1]
      omega

/-- A card without a row is counted. -/
theorem Scanned.skip {cards : List DavContact} {scan : Scan} (h : Scanned today days cards scan)
    {card : DavContact} (hdue : due today days card = none) :
    Scanned today days (cards ++ [card]) ⟨scan.birthdays, scan.scanned + 1,
      scan.unparseable + if Unparseable card then 1 else 0⟩ where
  scanned := by rw [h.scanned, List.length_append, List.length_singleton]
  unparseable := by rw [h.unparseable, List.countP_append, List.countP_singleton]
  birthdays := by simpa [hdue] using h.birthdays

/-- A card whose birthday is due gets a row. -/
theorem Scanned.add {cards : List DavContact} {scan : Scan} (h : Scanned today days cards scan)
    {card : DavContact} {bday : Birthday} (hdue : due today days card = some (card, bday))
    (hparses : Unparseable card = false) {row : UpcomingBirthday}
    (hrow : RowOf today (card, bday) row) :
    Scanned today days (cards ++ [card])
      ⟨scan.birthdays ++ [row], scan.scanned + 1, scan.unparseable⟩ where
  scanned := by rw [h.scanned, List.length_append, List.length_singleton]
  unparseable := by simpa [hparses] using h.unparseable
  birthdays := by
    rw [List.filterMap_append, List.filterMap_cons_some hdue, List.filterMap_nil]
    exact List.rel_append h.birthdays (.cons hrow .nil)

theorem Scanned.scanContact {cards : List DavContact} {scan : Scan}
    (h : Scanned today days cards scan) (hdays : days < U32_MAX) (card : DavContact) :
    ∃ next, scanContact today days scan card = some next ∧
      Scanned today days (cards ++ [card]) next := by
  rw [UpcomingBirthdays.scanContact]
  dsimp only
  rw [parseVcard_birthday]
  cases hlast : lastBday card.vcard with
  | none =>
    have hdue : due today days card = none := by
      rw [due, hlast]
      rfl
    have hskip := h.skip hdue
    rw [Unparseable, hlast, Option.any_none] at hskip
    exact ⟨_, rfl, hskip⟩
  | some raw =>
    dsimp only
    cases hparse : parseBday raw with
    | none =>
      have hdue : due today days card = none := by
        rw [due, hlast, Option.bind_some, hparse]
        rfl
      have hskip := h.skip hdue
      rw [Unparseable, hlast, Option.any_some, hparse] at hskip
      exact ⟨_, rfl, hskip⟩
    | some bday =>
      have hparses : Unparseable card = false := by
        rw [Unparseable, hlast, Option.any_some, hparse, Option.isNone_some]
      have hdue : due today days card =
          if daysUntil bday today ≤ days then some (card, bday) else none := by
        rw [due, hlast, Option.bind_some, hparse]
        rfl
      dsimp only
      rw [withinWindow]
      split_ifs at hdue ⊢ with hwindow
      · obtain ⟨-, -, -, -, -, hreal⟩ := parseBday_eq_some.mp hparse
        obtain ⟨next, age, hadd, hage, hnone, hsome⟩ := exists_next hreal (hwindow.trans_lt hdays)
        dsimp only
        rw [hadd, hage]
        exact ⟨_, rfl, h.add hdue hparses
          ⟨rfl, rfl, rfl, rfl, rfl, rfl, next, hadd, rfl, hnone, hsome⟩⟩
      · have hskip := h.skip hdue
        rw [hparses] at hskip
        exact ⟨_, rfl, hskip⟩

theorem Scanned.scanContacts {cards : List DavContact} {scan : Scan}
    (h : Scanned today days cards scan) (hdays : days < U32_MAX) (contacts : List DavContact) :
    ∃ next, scanContacts today days (some scan) contacts = some next ∧
      Scanned today days (cards ++ contacts) next := by
  induction contacts generalizing cards scan with
  | nil => exact ⟨scan, rfl, by rwa [List.append_nil]⟩
  | cons contact contacts ih =>
    obtain ⟨next, hnext, hscanned⟩ := h.scanContact hdays contact
    obtain ⟨last, hlast, hscanned⟩ := ih hscanned
    refine ⟨last, ?_, by rwa [List.append_cons]⟩
    rw [UpcomingBirthdays.scanContacts, Option.bind_some] at hlast ⊢
    rw [List.foldlM_cons, hnext]
    exact hlast

/-- A walk over the books asks all of them and accounts for all their cards, or
fails with the first that fails. -/
theorem walked_cards {ask : Text → Tool (List DavContact)} {hrefs : List Text}
    {st : Option Scan} {asked : List (Trace Effect Reply × Except ErrorData (List DavContact))}
    {result : Except ErrorData (Option Scan)} (hdays : days < U32_MAX)
    (h : Walked ask (scanContacts today days) Option.isNone hrefs st asked result)
    {cards : List DavContact} {scan : Scan} (hst : st = some scan)
    (hscanned : Scanned today days cards scan) :
    (∃ (listings : List (List DavContact)) (last : Scan),
      asked.map Prod.snd = listings.map .ok ∧ asked.length = hrefs.length ∧
      result = .ok (some last) ∧ Scanned today days (cards ++ listings.flatten) last) ∨
    ∃ (listings : List (List DavContact)) (e : ErrorData),
      asked.map Prod.snd = listings.map .ok ++ [.error e] ∧ result = .error e := by
  induction h generalizing cards scan with
  | nil st =>
    subst hst
    exact .inl ⟨[], scan, rfl, rfl, rfl, by simpa using hscanned⟩
  | fail _ => exact .inr ⟨[], _, rfl, rfl⟩
  | stop _ hstop =>
    subst hst
    obtain ⟨next, hnext, -⟩ := hscanned.scanContacts hdays _
    rw [hnext] at hstop
    cases hstop
  | @next _ _ _ _ listing _ _ _ _ _ ih =>
    subst hst
    obtain ⟨next, hnext, hscanned⟩ := hscanned.scanContacts hdays listing
    rcases ih hnext hscanned with ⟨listings, last, hasked, hlength, hresult, hlast⟩ |
      ⟨listings, e, hasked, hresult⟩
    · refine .inl ⟨listing :: listings, last, ?_, ?_, hresult, ?_⟩
      · rw [List.map_cons, List.map_cons, hasked]
      · rw [List.length_cons, List.length_cons, hlength]
      · rwa [List.flatten_cons, ← List.append_assoc]
    · exact .inr ⟨listing :: listings, e, by rw [List.map_cons, hasked]; rfl, hresult⟩

/-- The result accounts for every card once. -/
structure Accounts (today : NaiveDate) (days : Nat) (cards : List DavContact)
    (r : UpcomingBirthdaysResult) : Prop where
  referenceDate : r.referenceDate = formatDate today
  window : r.days = days
  contactsScanned : r.contactsScanned = cards.length
  unparseableBirthdays : r.unparseableBirthdays = cards.countP Unparseable
  birthdays : ∃ scanned, List.Forall₂ (RowOf today) (cards.filterMap (due today days)) scanned ∧
    r.birthdays.Perm scanned ∧ r.birthdays.Pairwise (fun a b => sortKey a ≤ sortKey b) ∧
    ∀ k, r.birthdays.filter (sortKey · = k) = scanned.filter (sortKey · = k)

/-- The tool returns a row for every birthday of the window, or fails if a
listing fails. -/
theorem upcoming_birthdays_exact {s : CardDavMcpService} {chrono : Chrono} {ctx : RequestContext}
    {params : UpcomingBirthdaysParams} (hpos : 1 ≤ params.days) (hmax : params.days ≤ 366)
    (hdate : referenceDay chrono params.referenceDate = .ok today) {tr : Trace Effect Reply}
    {result : Except ErrorData (Option UpcomingBirthdaysResult)}
    (h : Executes (upcomingBirthdays s chrono ctx params).run tr result) :
    (∃ before e after, tr = before ++ after ∧
      Opening s ctx params.addressbookHref before (.error e) ∧
      Concludes s ctx (.error e) after result) ∨
    ∃ before token hrefs asked after,
      Opening s ctx params.addressbookHref before (.ok (token, hrefs)) ∧
      tr = before ++ asked.flatMap Prod.fst ++ after ∧
      List.Forall₂ (fun href q => Executes (listBook s token href).run q.1 q.2)
        (hrefs.take asked.length) asked ∧
      ((∃ (listings : List (List DavContact)) (r : UpcomingBirthdaysResult),
          asked.map Prod.snd = listings.map .ok ∧ asked.length = hrefs.length ∧ after = [] ∧
          result = .ok (some r) ∧ Accounts today params.days listings.flatten r) ∨
        ∃ (listings : List (List DavContact)) (e : ErrorData),
          asked.map Prod.snd = listings.map .ok ++ [.error e] ∧
          Concludes s ctx (.error e) after result) := by
  have hvalid : checkDays params.days = .ok () := if_neg (by rw [MAX_BIRTHDAY_DAYS]; omega)
  have hbody : upcomingBirthdays s chrono ctx params = s.reactToAuthExpiry ctx
      (booksOf s ctx params.addressbookHref >>= fun p =>
        walk (listBook s p.1) (scanContacts today params.days) Option.isNone p.2
          (some ⟨[], 0, 0⟩) >>= fun scan => pure (scan.map fun scan =>
            { birthdays := sortBy sortKey scan.birthdays
              referenceDate := formatDate today
              days := params.days
              contactsScanned := scan.scanned
              unparseableBirthdays := scan.unparseable })) := by
    simp only [upcomingBirthdays, booksOf, hvalid, hdate, settle_ok_bind, bind_assoc, pure_bind]
  rw [hbody] at h
  obtain hbefore | ⟨before, token, hrefs, asked, walked, after, hopening, htr, hwalked, hends⟩ :=
    executes_overBooks h
  · exact .inl hbefore
  · have hdays : params.days < U32_MAX := hmax.trans_lt (by decide)
    have hstart : Scanned today params.days [] ⟨[], 0, 0⟩ := ⟨rfl, rfl, .nil⟩
    refine .inr ⟨before, token, hrefs, asked, after, hopening, htr, hwalked.asked_prefix, ?_⟩
    obtain ⟨listings, last, hasked, hlength, rfl, hscanned⟩ | ⟨listings, e, hasked, rfl⟩ :=
      walked_cards hdays hwalked rfl hstart
    · obtain ⟨hafter, hresult⟩ := concludes_ok.mp hends
      refine .inl ⟨listings, _, hasked, hlength, hafter, hresult, rfl, rfl, hscanned.scanned,
        hscanned.unparseable, last.birthdays, hscanned.birthdays, ?_⟩
      exact ⟨sortBy_perm .., sortBy_pairwise .., fun k => filter_sortBy sortKey k _⟩
    · exact .inr ⟨listings, e, hasked, hends⟩

/-- Read a date as if it were a birthday with its year. -/
def sampleChrono : Chrono where
  parseDate raw := do
    let bday ← parseBday raw
    NaiveDate.fromYmdOpt (← bday.year) bday.month bday.day
  utcToday := ⟨⟨1970, 1, 1, by decide⟩, by decide⟩

/-- A week after the date, an unparseable one, one without a year, and none. -/
def sampleCards : List (Text × Text) :=
  [("/b/1".toList, "BDAY:1996-03-06".toList), ("/b/2".toList, "BDAY:spring".toList),
   ("/b/3".toList, "BDAY:--0229\nFN:Ann".toList), ("/b/4".toList, "FN:Bea".toList)]

def sampleParams : UpcomingBirthdaysParams := ⟨14, some "/b/".toList, some "2023-02-27".toList⟩

theorem upcoming_birthdays_sample : ∃ tr r today before,
    ∃ asked : List (Trace Effect Reply × Except ErrorData (List DavContact)),
    ∃ listings : List (List DavContact),
    Executes (upcomingBirthdays (listingService sampleCards) sampleChrono sampleContext
      sampleParams).run tr (.ok (some r)) ∧
    r.birthdays.map (fun row => (row.nextOccurrence, row.turning)) =
      [("2023-03-01".toList, none), ("2023-03-06".toList, some 27)] ∧
    Opening (listingService sampleCards) sampleContext (some "/b/".toList) before
      (.ok (['t'], ["/b/".toList])) ∧
    tr = before ++ asked.flatMap Prod.fst ∧ asked.map Prod.snd = listings.map .ok ∧
    Accounts today 14 listings.flatten r := by
  have hrows : (playedOut sampleReply (upcomingBirthdays (listingService sampleCards) sampleChrono
      sampleContext sampleParams).run).2.map (Option.map fun r =>
        r.birthdays.map (fun row => (row.nextOccurrence, row.turning))) =
      .ok (some [("2023-03-01".toList, none), ("2023-03-06".toList, some 27)]) := by
    decide +kernel
  have hruns := executes_playedOut sampleReply
    (upcomingBirthdays (listingService sampleCards) sampleChrono sampleContext sampleParams).run
  revert hrows hruns
  generalize (playedOut sampleReply _).2 = result
  intro hrows hruns
  obtain _ | _ | r := result
  · cases hrows
  · cases hrows
  · have hdate : referenceDay sampleChrono sampleParams.referenceDate =
        .ok ⟨⟨2023, 2, 27, by decide⟩, by decide⟩ := by decide +kernel
    obtain ⟨_, _, _, -, -, hends⟩ | ⟨before, token, hrefs, asked, _, hopening, htr, -,
      ⟨listings, _, hasked, -, rfl, hr, haccounts⟩ | ⟨_, _, -, hends⟩⟩ :=
      upcoming_birthdays_exact (by decide) (by decide) hdate hruns
    · obtain ⟨_, he⟩ := hends.error
      cases he
    · obtain rfl := Option.some.inj (Except.ok.inj hr)
      obtain ⟨htoken, rfl⟩ := hopening.named_eq rfl
      obtain rfl := Option.some.inj htoken
      rw [List.append_nil] at htr
      exact ⟨_, r, _, before, asked, listings, hruns, Option.some.inj (Except.ok.inj hrows),
        hopening, htr, hasked, haccounts⟩
    · obtain ⟨_, he⟩ := hends.error
      cases he

end CardDavMcp.UpcomingBirthdays
