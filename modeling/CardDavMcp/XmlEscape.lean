import CardDavMcp.ContactTools
import CardDavMcp.Library.Executions
import CardDavMcp.Library.XmlText

namespace CardDavMcp.XmlEscape

open Library.Utf8Text Library.XmlText Library.Interaction Urls DavError DavClient ContactTools
open Library.XmlTree (Predefined)

/-- The entity that stands for a character in escaped text. -/
def entityOf (c : Char) : Option Predefined :=
  [Predefined.amp, .lt, .gt, .quot, .apos].find? (·.char = c)

/-- What `escapeXml` does to one character. -/
def escapeXmlChar (c : Char) : Text := ((entityOf c).map reference).getD [c]

theorem entityOf_eq_some {c : Char} {e : Predefined} (h : entityOf c = some e) : e.char = c := by
  simpa using List.find?_some h

theorem entityOf_eq_none {c : Char} (h : entityOf c = none) (e : Predefined) : e.char ≠ c := by
  have hall := List.find?_eq_none.mp h e (by cases e <;> simp)
  simpa using hall

/-- The five replacements do to every character what they do to it alone: a
later one finds nothing in the references that an earlier one has written. -/
theorem escapeXml_cons (c : Char) (s : Text) :
    escapeXml (c :: s) = escapeXmlChar c ++ escapeXml s := by
  cases he : entityOf c with
  | some e =>
    rw [← entityOf_eq_some he]
    cases e <;> rfl
  | none =>
    have hne := entityOf_eq_none he
    have hamp := (hne .amp).symm
    have hlt := (hne .lt).symm
    have hgt := (hne .gt).symm
    have hquot := (hne .quot).symm
    have hapos := (hne .apos).symm
    simp only [Predefined.char] at hamp hlt hgt hquot hapos
    simp [escapeXml, escapeXmlChar, he, hamp, hlt, hgt, hquot, hapos]

theorem escapeXml_eq (s : Text) : escapeXml s = s.flatMap escapeXmlChar := by
  induction s with
  | nil => rfl
  | cons c s ih => rw [escapeXml_cons, ih, List.flatMap_cons]

theorem mem_escapeXmlChar {c x : Char} (h : x ∈ escapeXmlChar c) :
    (entityOf c = none ∧ x = c) ∨ ∃ e, entityOf c = some e ∧ x ∈ reference e := by
  rw [escapeXmlChar] at h
  cases he : entityOf c with
  | none => exact Or.inl ⟨rfl, by simpa [he] using h⟩
  | some e => exact Or.inr ⟨e, rfl, by simpa [he] using h⟩

theorem not_mem_escapeXml {x : Char} (hx : ∃ e : Predefined, e.char = x)
    (hne : x ≠ '&') (s : Text) :
    x ∉ escapeXml s := by
  intro hmem
  rw [escapeXml_eq, List.mem_flatMap] at hmem
  obtain ⟨c, -, hmem⟩ := hmem
  obtain ⟨e, rfl⟩ := hx
  rcases mem_escapeXmlChar hmem with ⟨hnone, rfl⟩ | ⟨e', -, hmem⟩
  · exact entityOf_eq_none hnone e rfl
  · revert hmem hne
    cases e <;> cases e' <;> decide

theorem amp_reference {e : Predefined} {a t : Text} (h : reference e = a ++ '&' :: t) : a = [] := by
  cases a with
  | nil => rfl
  | cons x a =>
    have htail : e.name ++ [';'] = a ++ '&' :: t := (List.cons.inj h).2
    have hmem : '&' ∈ e.name ++ [';'] := htail ▸ by simp
    exact absurd hmem (by cases e <;> decide)

/-- Every ampersand of escaped text begins a reference. -/
theorem amp_escapeXml {s a b : Text} (h : escapeXml s = a ++ '&' :: b) :
    ∃ (e : Predefined) (rest : Text), '&' :: b = reference e ++ rest := by
  induction s generalizing a with
  | nil => exact absurd h (by simp [escapeXml])
  | cons c s ih =>
    rw [escapeXml_cons] at h
    rcases List.append_eq_append_iff.mp h with ⟨t, rfl, ht⟩ | ⟨t, hc, ht⟩
    · exact ih ht
    · cases t with
      | nil => exact ih (a := []) ht.symm
      | cons x t =>
        obtain rfl : '&' = x := (List.cons.inj ht).1
        rw [escapeXmlChar] at hc
        cases he : entityOf c with
        | none =>
          rw [he, Option.map_none, Option.getD_none] at hc
          have hmem : '&' ∈ [c] := hc ▸ by simp
          exact absurd (List.mem_singleton.mp hmem) (entityOf_eq_none he .amp)
        | some e =>
          rw [he, Option.map_some, Option.getD_some] at hc
          rw [amp_reference hc, List.nil_append] at hc
          exact ⟨e, escapeXml s, by rw [ht, hc]⟩

theorem resolve_escapeXml (refs : References) (s : Text) :
    resolve refs.lookup (escapeXml s) = some s := by
  induction s with
  | nil => rfl
  | cons c s ih =>
    rw [escapeXml_cons, escapeXmlChar]
    cases he : entityOf c with
    | some e =>
      rw [Option.map_some, Option.getD_some, resolve_reference, ih, entityOf_eq_some he,
        Option.map_some]
    | none =>
      have hamp : c ≠ '&' := (entityOf_eq_none he .amp).symm
      rw [Option.map_none, Option.getD_none, List.singleton_append, resolve, resolveFrom,
        if_neg hamp, ← resolve, ih, Option.map_some]

theorem escapeXml_injective : Function.Injective escapeXml := by
  intro s t h
  have hs := resolve_escapeXml References.undeclared s
  rw [h, resolve_escapeXml References.undeclared t] at hs
  exact (Option.some.inj hs).symm

def matchTag : Text :=
  "card:text-match collation=\"i;unicode-casemap\" match-type=\"contains\"".toList

def filterTag (name : String) : Text := "card:prop-filter name=\"".toList ++ name.toList ++ ['"']

def indent : Text := "\n    ".toList

def filterOpen (name : String) : Text :=
  "    <card:prop-filter name=\"".toList ++ name.toList ++
    "\"><card:text-match collation=\"i;unicode-casemap\" match-type=\"contains\">".toList

def filterClose : Text := "</card:text-match></card:prop-filter>\n".toList

/-- The element that `propFilter` writes, behind the line break before it. -/
def propFilterElement (data : Text) (name : String) (rest : Content) : Content :=
  .element indent (filterTag name) (.element [] matchTag (.text data) (.text [])) rest

def textMatch : Text := "card:text-match".toList

def searchedNames : List String := ["FN", "N", "EMAIL", "TEL", "ORG"]

def queryTag : Text :=
  "card:addressbook-query xmlns:d=\"DAV:\" xmlns:card=\"urn:ietf:params:xml:ns:carddav\"".toList

def propTag : Text := "d:prop".toList

def propContent : Content :=
  .emptyElement [] "d:getetag".toList (.emptyElement [] "card:address-data".toList (.text []))

def anyofTag : Text := "card:filter test=\"anyof\"".toList

def searchHead : Text := r#"<?xml version="1.0" encoding="UTF-8"?>
<card:addressbook-query xmlns:d="DAV:" xmlns:card="urn:ietf:params:xml:ns:carddav">
  <d:prop><d:getetag/><card:address-data/></d:prop>
  <card:filter test="anyof">
"#.toList

def searchTail : Text := "  </card:filter>\n</card:addressbook-query>".toList

/-- The document that `searchBody` writes, its declaration apart. -/
def searchContent (data : Text) : Content :=
  .element ['\n'] queryTag
    (.element ['\n', ' ', ' '] propTag propContent
      (.element ['\n', ' ', ' '] anyofTag
        (searchedNames.foldr (propFilterElement data) (.text ['\n', ' ', ' '])) (.text ['\n'])))
    (.text [])

def xmlVersion : Text := "version=\"1.0\" encoding=\"UTF-8\"".toList

theorem render_nested (before tag inner data : Text) (rest : Content) :
    (Content.element before tag (.element [] inner (.text data) (.text [])) rest).render =
      (before ++ '<' :: (tag ++ '>' :: '<' :: (inner ++ ['>']))) ++ (data ++
        (('<' :: (('/' :: nameOf inner) ++ '>' :: '<' :: (('/' :: nameOf tag) ++ ['>']))) ++
          rest.render)) := by
  simp [Content.render]

theorem open_propFilter : ∀ name ∈ searchedNames,
    indent ++ '<' :: (filterTag name ++ '>' :: '<' :: (matchTag ++ ['>'])) =
      '\n' :: filterOpen name := by
  decide +kernel

theorem close_propFilter : ∀ name ∈ searchedNames,
    '<' :: (('/' :: nameOf matchTag) ++ '>' ::
        '<' :: (('/' :: nameOf (filterTag name)) ++ ['>'])) ++ ['\n'] = filterClose := by
  decide +kernel

theorem propFilter_eq (name : String) (data : Text) :
    propFilter name data = filterOpen name ++ data ++ filterClose := rfl

theorem render_propFilter {name : String} (hname : name ∈ searchedNames) (data : Text)
    {rest : Content} {t : Text} (hrest : rest.render = '\n' :: t) :
    (propFilterElement data name rest).render = '\n' :: (propFilter name data ++ t) := by
  rw [propFilterElement, render_nested, open_propFilter name hname, hrest,
    List.append_cons _ '\n' t, close_propFilter name hname, propFilter_eq]
  simp

theorem render_propFilters (data : Text) {names : List String} (h : ∀ n ∈ names, n ∈ searchedNames)
    {rest : Content} {t : Text} (hrest : rest.render = '\n' :: t) :
    (names.foldr (propFilterElement data) rest).render =
      '\n' :: (names.flatMap (propFilter · data) ++ t) := by
  induction names with
  | nil => exact hrest
  | cons name names ih =>
    have ih := ih (fun n hn => h n (List.mem_cons_of_mem _ hn))
    rw [List.foldr_cons, render_propFilter (h name List.mem_cons_self) data ih, List.flatMap_cons,
      List.append_assoc]

theorem searchBody_split (data : Text) :
    searchBody data = searchHead ++ searchedNames.flatMap (propFilter · data) ++ searchTail := rfl

theorem render_searchContent (data : Text) :
    (searchContent data).render =
      (['\n'] ++ '<' :: (queryTag ++ '>' :: (['\n', ' ', ' '] ++ '<' :: (propTag ++ '>' ::
        (propContent.render ++ '<' :: (('/' :: nameOf propTag) ++ '>' ::
          (['\n', ' ', ' '] ++ '<' :: (anyofTag ++ ['>'])))))))) ++
      ((searchedNames.foldr (propFilterElement data) (.text ['\n', ' ', ' '])).render ++
        ('<' :: (('/' :: nameOf anyofTag) ++ '>' ::
          (['\n'] ++ '<' :: (('/' :: nameOf queryTag) ++ ['>']))))) := by
  simp only [searchContent, Content.render]
  generalize (searchedNames.foldr (propFilterElement data) (.text ['\n', ' ', ' '])).render =
      filters
  generalize propContent.render = prop
  simp

set_option maxRecDepth 2000 in
theorem searchHead_eq : searchHead = "<?xml ".toList ++ (xmlVersion ++ '?' :: '>' ::
    ((['\n'] ++ '<' :: (queryTag ++ '>' :: (['\n', ' ', ' '] ++ '<' :: (propTag ++ '>' ::
      (propContent.render ++ '<' :: (('/' :: nameOf propTag) ++ '>' ::
        (['\n', ' ', ' '] ++ '<' :: (anyofTag ++ ['>'])))))))) ++ ['\n'])) := by
  refine String.toList_ofList.trans ?_
  decide +kernel

theorem searchTail_eq : searchTail = [' ', ' '] ++ ('<' :: (('/' :: nameOf anyofTag) ++ '>' ::
    (['\n'] ++ '<' :: (('/' :: nameOf queryTag) ++ ['>'])))) := by
  refine String.toList_ofList.trans ?_
  decide +kernel

theorem searchBody_eq (data : Text) :
    searchBody data = written xmlVersion (searchContent data) := by
  have hrest : (Content.text ['\n', ' ', ' ']).render = '\n' :: [' ', ' '] := rfl
  have hfilters := render_propFilters data (fun n hn => hn) hrest
  rw [searchBody_split, searchHead_eq, searchTail_eq, written_eq, render_searchContent, hfilters]
  generalize searchedNames.flatMap (propFilter · data) = filters
  simp only [List.append_assoc, List.cons_append, List.nil_append]

theorem propFilters_writable {data : Text} (hdata : '<' ∉ data) {names : List String}
    (h : ∀ n ∈ names, n ∈ searchedNames) {rest : Content} (hrest : rest.Writable) :
    (names.foldr (propFilterElement data) rest).Writable := by
  have htag : ∀ name ∈ searchedNames, (isTagText none (filterTag name) ∧
      isTagText none ('/' :: nameOf (filterTag name)) ∧ opensElement (filterTag name)) ∧
        '\r' ∉ filterTag name := by
    decide +kernel
  have hmatch : (isTagText none matchTag ∧ isTagText none ('/' :: nameOf matchTag) ∧
      opensElement matchTag) ∧ '\r' ∉ matchTag := by
    decide +kernel
  induction names with
  | nil => exact hrest
  | cons name names ih =>
    have ih := ih (fun n hn => h n (List.mem_cons_of_mem _ hn))
    have hname := htag name (h name List.mem_cons_self)
    exact ⟨by decide +kernel, hname.1, hname.2,
      ⟨by simp, hmatch.1, hmatch.2, hdata, List.not_mem_nil⟩, ih⟩

theorem searchContent_writable {data : Text} (hdata : '<' ∉ data) :
    (searchContent data).Writable := by
  have hindent : (Content.text ['\n', ' ', ' ']).Writable :=
    (by decide : '<' ∉ ['\n', ' ', ' '])
  have hfilters := propFilters_writable hdata (fun n hn => hn) hindent
  have hquery : (isTagText none queryTag ∧ isTagText none ('/' :: nameOf queryTag) ∧
      opensElement queryTag) ∧ '\r' ∉ queryTag := by
    decide +kernel
  have hprop : (isTagText none propTag ∧ isTagText none ('/' :: nameOf propTag) ∧
      opensElement propTag) ∧ '\r' ∉ propTag := by
    decide +kernel
  have hanyof : (isTagText none anyofTag ∧ isTagText none ('/' :: nameOf anyofTag) ∧
      opensElement anyofTag) ∧ '\r' ∉ anyofTag := by
    decide +kernel
  have hitems : propContent.Writable := by
    refine ⟨by simp, by decide +kernel, by decide +kernel, by simp, by decide +kernel,
      by decide +kernel, List.not_mem_nil⟩
  exact ⟨by decide, hquery.1, hquery.2, ⟨by decide, hprop.1, hprop.2, hitems,
    ⟨by decide, hanyof.1, hanyof.2, hfilters, (by decide : '<' ∉ ['\n'])⟩⟩, List.not_mem_nil⟩

theorem mapText_searchContent {f : Text → Text} (hnil : f [] = []) (hone : f ['\n'] = ['\n'])
    (htwo : f ['\n', ' ', ' '] = ['\n', ' ', ' ']) (hindent : f indent = indent) (data : Text) :
    (searchContent data).mapText f = searchContent (f data) := by
  simp only [searchContent, searchedNames, propContent, List.foldr_cons, List.foldr_nil,
    propFilterElement, Content.mapText, hnil, hone, htwo, hindent]

theorem skeleton_searchContent (data : Text) :
    (searchContent data).skeleton = (searchContent []).skeleton := rfl

theorem named_propFilters (data : Text) {names : List String} (h : ∀ n ∈ names, n ∈ searchedNames)
    (rest : Content) : (names.foldr (propFilterElement data) rest).named textMatch =
      List.replicate names.length (.text data) ++ rest.named textMatch := by
  have hfilter : ∀ name ∈ searchedNames, nameOf (filterTag name) ≠ textMatch := by decide +kernel
  have hmatch : nameOf matchTag = textMatch := by decide +kernel
  induction names with
  | nil => rfl
  | cons name names ih =>
    have ih := ih (fun n hn => h n (List.mem_cons_of_mem _ hn))
    rw [List.foldr_cons, propFilterElement, Content.named, Content.named, Content.named,
      Content.named, if_neg (hfilter name (h name List.mem_cons_self)), if_pos hmatch, ih]
    rfl

theorem named_searchContent (data : Text) :
    (searchContent data).named textMatch = List.replicate 5 (.text data) := by
  have hquery : nameOf queryTag ≠ textMatch := by decide +kernel
  have hprop : nameOf propTag ≠ textMatch := by decide +kernel
  have hanyof : nameOf anyofTag ≠ textMatch := by decide +kernel
  have hitems : propContent.named textMatch = [] := by decide +kernel
  have hfilters := named_propFilters data (fun n hn => hn) (.text ['\n', ' ', ' '])
  simp only [searchContent, Content.named, hquery, hprop, hanyof, hitems, hfilters, if_false,
    List.nil_append, List.append_nil]
  rfl

/-- A run of a search for this query sends this request. -/
def SearchSends (c : CardDavClient) (query : Text) (request : DavRequest) : Prop :=
  ∃ token addressbookHref tr result reply,
    Executes (c.searchContacts token addressbookHref query).run tr result ∧
    (⟨.send request, reply⟩ : (e : Effect) × Reply e) ∈ tr

section Sent

variable (c : CardDavClient) (token addressbookHref query : Text)

/-- All that a query of contacts sends is its body. -/
theorem always_queryContacts (body : Text) (tr : Trace Effect Reply) :
    Always ⟨fun _ e => ∀ request, e = .send request → request.body = body, fun _ _ => True⟩
      (fun _ _ => True) tr (c.queryContacts token addressbookHref body).run := by
  refine always_settle_bind.mpr ?_
  cases c.resolveHref addressbookHref with
  | error e => trivial
  | ok url =>
    refine always_tryBind.mpr (c.always_send trivial ?_ (fun _ _ => by simp) (fun reply _ => ?_))
    · rintro _ ⟨⟩
      rfl
    · cases c.outcome reply with
      | error e => trivial
      | ok response =>
        refine always_settle_bind.mpr ?_
        cases ensureMultistatus response.status with
        | error e => trivial
        | ok _ =>
          refine always_settle_bind.mpr ?_
          cases Multistatus.parseMultistatus c.xml response.body with
          | error e => trivial
          | ok parsed => exact always_settle.mpr trivial

variable {c token addressbookHref query}

/-- A search sends a query only if it passes the guard, and in escaped form. -/
theorem SearchSends.body {request : DavRequest} (h : SearchSends c query request) :
    CardDavClient.checkQuery query = .ok () ∧ request.body = searchBody (escapeXml query) := by
  obtain ⟨token, addressbookHref, tr, result, reply, hrun, hsent⟩ := h
  rw [CardDavClient.searchContacts] at hrun
  obtain ⟨_, _, rest, rfl, hcheck, hquery⟩ | ⟨e, hcheck, -⟩ := executes_tryBind.mp hrun
  · obtain ⟨rfl, hok⟩ := executes_settle.mp hcheck
    have hbodies := always_queryContacts c token addressbookHref (searchBody (escapeXml query)) []
    obtain ⟨_, hbody⟩ := hbodies.asked (fun _ _ => trivial) hquery hsent
    exact ⟨hok.symm, hbody request rfl⟩
  · obtain ⟨rfl, -⟩ := executes_settle.mp hcheck
    exact absurd hsent List.not_mem_nil

/-- A query that passes the guard is sent to every book that resolves. -/
theorem searchSends_checked (hquery : CardDavClient.checkQuery query = .ok ()) {url : Url}
    (hurl : c.resolveHref addressbookHref = .ok url)
    (hvalid : ∀ body, (CardDavClient.bearerAuth token
      (CardDavClient.reportRequest url body)).headers.all (fun h => c.isHeaderValue h.2)) :
    SearchSends c query (CardDavClient.bearerAuth token
      (CardDavClient.reportRequest url (searchBody (escapeXml query)))) := by
  refine ⟨token, addressbookHref, [⟨.send _, .error "connect"⟩], .error (.http "connect"), _, ?_,
    List.mem_singleton_self _⟩
  rw [CardDavClient.searchContacts, hquery, CardDavClient.queryContacts, hurl]
  refine executes_tryBind.mpr (.inl ⟨[], (), _, rfl, .done _, ?_⟩)
  refine executes_tryBind.mpr (.inl ⟨[], url, _, rfl, .done _, ?_⟩)
  refine executes_tryBind.mpr (.inr ⟨_, ?_, rfl⟩)
  rw [CardDavClient.send, if_neg (by rw [Bool.not_eq_true', Bool.not_eq_false]; exact hvalid _)]
  exact executes_tryBind.mpr (.inl ⟨[_], .error "connect", [], rfl,
    executes_ask.mpr ⟨_, rfl, rfl⟩, executes_throw.mpr ⟨rfl, rfl⟩⟩)

end Sent

/-- Escaping leaves no markup and loses nothing, so in the body that a search
sends a query stays the character data of its five elements. -/
theorem escapeXml_faithful (refs : References) :
    Function.Injective escapeXml ∧
      (∀ s : Text,
        ('<' ∉ escapeXml s ∧ '>' ∉ escapeXml s ∧ '"' ∉ escapeXml s ∧ '\'' ∉ escapeXml s) ∧
        (∀ a b, escapeXml s = a ++ '&' :: b →
          ∃ (e : Predefined) (rest : Text), '&' :: b = reference e ++ rest) ∧
        resolve refs.lookup (escapeXml s) = some s) ∧
      ∀ (c : CardDavClient) (query : Text) (request : DavRequest), SearchSends c query request →
        ∃ content, (dropDeclaration request.body).bind parse = some content ∧
          content.isDocument ∧ content.skeleton = (searchContent []).skeleton ∧
          content.named textMatch = List.replicate 5 (.text (escapeXml query)) := by
  have hmarkup := fun (e : Predefined) => not_mem_escapeXml (x := e.char) ⟨e, rfl⟩
  have hlt := hmarkup .lt (by decide)
  refine ⟨escapeXml_injective, fun s => ⟨⟨hlt s, hmarkup .gt (by decide) s,
    hmarkup .quot (by decide) s, hmarkup .apos (by decide) s⟩, fun a b => amp_escapeXml,
    resolve_escapeXml refs s⟩, fun c query request hsent => ?_⟩
  refine ⟨searchContent (escapeXml query), ?_, rfl, skeleton_searchContent _,
    named_searchContent _⟩
  rw [hsent.body.2, searchBody_eq, dropDeclaration_written (by decide +kernel), Option.bind_some,
    Content.parse_render (searchContent_writable (hlt query))]

/-- The request of the plain client for a query. -/
def plainSearch (query : Text) : DavRequest :=
  CardDavClient.bearerAuth ['t']
    (CardDavClient.reportRequest (plainUrl "/b/".toList) (searchBody (escapeXml query)))

theorem searchSends_plain {query : Text} (h : CardDavClient.checkQuery query = .ok ()) :
    SearchSends plainService.carddav query (plainSearch query) := by
  have hurl : plainService.carddav.resolveHref "/b/".toList = .ok (plainUrl "/b/".toList) := rfl
  exact searchSends_checked h hurl fun _ => rfl

/-- A query that looks like the end of its element stays in it. -/
theorem escapeXml_faithful_hostile :
    SearchSends plainService.carddav "</card:text-match>&amp;lt;".toList
      (plainSearch "</card:text-match>&amp;lt;".toList) ∧
    ∃ content,
      (dropDeclaration (plainSearch "</card:text-match>&amp;lt;".toList).body).bind parse =
        some content ∧
      content.named textMatch =
        List.replicate 5 (.text "&lt;/card:text-match&gt;&amp;amp;lt;".toList) := by
  have hchecked : CardDavClient.checkQuery "</card:text-match>&amp;lt;".toList = .ok () := by
    decide +kernel
  have hsent := searchSends_plain hchecked
  obtain ⟨content, hparse, -, -, hnamed⟩ :=
    (escapeXml_faithful References.undeclared).2.2 _ _ _ hsent
  have hescaped : escapeXml "</card:text-match>&amp;lt;".toList =
      "&lt;/card:text-match&gt;&amp;amp;lt;".toList := by decide +kernel
  exact ⟨hsent, content, hparse, hescaped ▸ hnamed⟩

end CardDavMcp.XmlEscape
